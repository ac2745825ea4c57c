import MarkupLint.Text.Quoted
import Mathlib.Tactic.SplitIfs

/-!
# Quoted texts are lines

A quoted text never holds a line feed, whatever it quotes: so it does not break the line that it is
shown in.
-/

namespace MarkupLint
namespace Text

/-- The padded digits of a number are digits. -/
theorem exists_digit_of_mem_hexDigits {width number : Nat} :
    ∀ char ∈ hexDigits width number, ∃ digit < 16, char = Nat.digitChar digit := by
  intro char inside
  rw [hexDigits, List.mem_append, List.mem_replicate] at inside
  obtain ⟨-, rfl⟩ | inside := inside
  · exact ⟨0, by decide, rfl⟩
  · induction number using Nat.strongRecOn with
    | ind number ih =>
      rw [Nat.toDigits_eq_if (by decide)] at inside
      split at inside
      · next small => exact ⟨number, small, List.mem_singleton.mp inside⟩
      · next large =>
        obtain earlier | last := List.mem_append.mp inside
        · exact ih (number / 16) (Nat.div_lt_self (by omega) (by decide)) earlier
        · exact ⟨number % 16, Nat.mod_lt _ (by decide), List.mem_singleton.mp last⟩

theorem newline_notMem_hexDigits (width number : Nat) : '\n' ∉ hexDigits width number := by
  intro inside
  obtain ⟨digit, -, newline_eq⟩ := exists_digit_of_mem_hexDigits _ inside
  exact Nat.digitChar_ne '\n' rfl newline_eq.symm

theorem newline_notMem_quotedChar {quote : Char} (quote_ne : quote ≠ '\n') (char : Char) :
    '\n' ∉ quotedChar quote char := by
  have escaped : ∀ width, '\n' ∉ hexDigits width char.toNat :=
    fun width => newline_notMem_hexDigits width char.toNat
  unfold quotedChar
  split
  · next same =>
    have char_ne : char ≠ '\n' := by
      rintro rfl
      simp [quote_ne.symm] at same
    simpa using char_ne.symm
  · split
    · decide
    · next char_ne =>
      have char_ne : '\n' ≠ char := by
        rintro rfl
        simp at char_ne
      split_ifs <;> simp [escaped, char_ne]

theorem newline_notMem_quoted (text : String) : '\n' ∉ (quoted text).toList := by
  have quote_ne : enclosingQuote text.toList ≠ '\n' := by
    unfold enclosingQuote
    split <;> decide
  simp [quoted, quote_ne.symm, newline_notMem_quotedChar quote_ne]

/-- What holds of the characters of the texts and of what separates them. -/
theorem forall_mem_intercalate
    {property : Char → Prop}
    {separator : String}
    (between : ∀ char ∈ separator.toList, property char)
    {texts : List String}
    (inside : ∀ text ∈ texts, ∀ char ∈ text.toList, property char) :
    ∀ char ∈ (String.intercalate separator texts).toList, property char := by
  induction texts with
  | nil => simp
  | cons text rest ih =>
    obtain ⟨first, others⟩ := List.forall_mem_cons.mp inside
    by_cases last : rest = []
    · simpa [last] using first
    · rw [String.intercalate_cons_of_ne_nil last, String.toList_append, String.toList_append,
        List.forall_mem_append, List.forall_mem_append]
      exact ⟨⟨first, between⟩, ih others⟩

/-- A character that is in none of the texts and not in what separates them. -/
theorem notMem_intercalate
    {char : Char}
    {separator : String}
    (between : char ∉ separator.toList)
    {texts : List String}
    (inside : ∀ text ∈ texts, char ∉ text.toList) :
    char ∉ (String.intercalate separator texts).toList := by
  refine fun found => @forall_mem_intercalate (· ≠ char) separator ?_ texts ?_ char found rfl
  · rintro _ between' rfl
    exact between between'
  · rintro text listed _ inside' rfl
    exact inside text listed inside'

end Text
end MarkupLint
