import Mathlib.Data.List.DropRight
import MarkupLint.Text.Blank

/-!
# Words of texts

The blanks at both ends of a text do not matter to its words, and without them a text begins with its
first word.
-/

namespace MarkupLint
namespace Text

theorem words_trimStart (text : List Char) : words (trimStart text) = words text := by
  induction text with
  | nil => rfl
  | cons char rest ih =>
    unfold trimStart at ih ⊢
    cases blank : isBlank char
    · rw [List.dropWhile_cons_of_neg (by simp [blank])]
    · rw [List.dropWhile_cons_of_pos blank, ih]
      simp [words, wordsFrom, blank]

theorem wordsFrom_append_of_isBlank
    {blanks : List Char}
    (areBlank : ∀ char ∈ blanks, isBlank char = true)
    (begun text : List Char) :
    wordsFrom begun (text ++ blanks) = wordsFrom begun text := by
  induction text generalizing begun with
  | nil =>
    induction blanks generalizing begun with
    | nil => rfl
    | cons char rest ih =>
      obtain ⟨blank, areBlank⟩ := List.forall_mem_cons.mp areBlank
      cases begun with
      | nil => simpa [wordsFrom, blank] using ih areBlank []
      | cons last earlier => simpa [wordsFrom, blank] using ih areBlank []
  | cons char rest ih => simp only [List.cons_append, wordsFrom, ih]

theorem words_trimEnd (text : List Char) : words (trimEnd text) = words text := by
  have split : trimEnd text ++ text.rtakeWhile isBlank = text :=
    List.rdropWhile_append_rtakeWhile
  have areBlank : ∀ char ∈ text.rtakeWhile isBlank, isBlank char = true :=
    fun _ known => List.mem_rtakeWhile_imp known
  rw [words, words, ← wordsFrom_append_of_isBlank areBlank, split]

theorem words_trim (text : List Char) : words (trim text) = words text := by
  rw [trim, words_trimEnd, words_trimStart]

/-- A word that is begun goes on. -/
theorem exists_wordsFrom
    {begun : List Char}
    (nonempty : begun ≠ [])
    (text : List Char) :
    ∃ word others, wordsFrom begun text = (begun.reverse ++ word) :: others := by
  induction text generalizing begun with
  | nil => exact ⟨[], [], by simp [wordsFrom, nonempty]⟩
  | cons char rest ih =>
    cases blank : isBlank char
    · obtain ⟨word, others, same⟩ := ih (List.cons_ne_nil char begun)
      refine ⟨char :: word, others, ?_⟩
      simpa [wordsFrom, blank] using same
    · exact ⟨[], wordsFrom [] rest, by simp [wordsFrom, blank, nonempty]⟩

/-- A trimmed text is empty or begins with its first word. -/
theorem trim_eq_nil_or (text : List Char) :
    trim text = [] ∨ ∃ first rest word others,
      trim text = first :: rest ∧ words text = (first :: word) :: others := by
  rw [← words_trim]
  cases trimmed : trim text with
  | nil => exact .inl rfl
  | cons first rest =>
    have front : first :: rest <+: trimStart text := by
      rw [← trimmed]
      exact List.rdropWhile_prefix isBlank (trimStart text)
    obtain ⟨behind, same⟩ := front
    have solid : isBlank first = false := by
      have head := List.head?_dropWhile_not isBlank text
      rw [show text.dropWhile isBlank = first :: (rest ++ behind) from same.symm] at head
      simpa using head
    obtain ⟨word, others, split⟩ := exists_wordsFrom (List.cons_ne_nil first []) rest
    refine .inr ⟨first, rest, word, others, rfl, ?_⟩
    simpa [words, wordsFrom, solid] using split

end Text
end MarkupLint
