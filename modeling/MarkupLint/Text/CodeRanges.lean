/-!
# Sets of code points

A character class of a standard is a finite list of closed ranges of code points, and membership
is a search through that list.
-/

namespace MarkupLint
namespace Text

/-- A finite union of closed ranges of code points, given by their first and last members. -/
abbrev CodeRanges := List (Nat × Nat)

namespace CodeRanges

/-- Whether some range of the set holds the character. -/
def holds (ranges : CodeRanges) (char : Char) : Bool :=
  ranges.any fun range => range.1 ≤ char.toNat && char.toNat ≤ range.2

@[simp] theorem holds_nil (char : Char) : holds [] char = false := rfl

theorem holds_iff
    (ranges : CodeRanges)
    (char : Char) :
    ranges.holds char = true ↔
      ∃ range ∈ ranges, range.1 ≤ char.toNat ∧ char.toNat ≤ range.2 := by
  simp [holds]

end CodeRanges
end Text
end MarkupLint
