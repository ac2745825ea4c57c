import MarkupLint.Report.Console
import Mathlib.Data.String.Basic

/-!
# Printed blocks

An escape sequence ends in front of every character that can be no part of it, and so it never goes on
beyond the end of a line.  So it makes no difference whether blocks are printed on lines of their own
one by one, or all at once.
-/

namespace MarkupLint
namespace Report

/-- What stands behind an escape sequence is shorter than the text. -/
theorem length_lt_of_afterSequence?
    {text behind : List Char}
    (found : afterSequence? text = some behind) :
    behind.length < text.length := by
  unfold afterSequence? at found
  split at found
  · next rest =>
    split at found
    · next final ahead same =>
      have shorter := (List.dropWhile_suffix isParameter (l := rest)).length_le
      rw [same, List.length_cons] at shorter
      split at found
      · cases found
        simp only [List.length_cons]
        omega
      · contradiction
    · contradiction
  · contradiction

/-- With this character, no escape sequence goes on that has begun before. -/
def Bars (char : Char) : Prop :=
  char ≠ '[' ∧ isParameter char = false ∧ char.isAlpha = false

instance (char : Char) : Decidable (Bars char) :=
  inferInstanceAs (Decidable (char ≠ '[' ∧ isParameter char = false ∧ char.isAlpha = false))

/-- An escape sequence ends in front of a character with which none goes on. -/
theorem afterSequence?_append
    {char : Char}
    (bars : Bars char)
    (first : Char)
    (rest behind : List Char) :
    afterSequence? (first :: rest ++ char :: behind) =
      (afterSequence? (first :: rest)).map (· ++ char :: behind) := by
  obtain ⟨outside, parameter_eq, alpha_eq⟩ := bars
  cases rest with
  | nil => by_cases same : first = '\x1b' <;> simp [afterSequence?, same, outside]
  | cons second rest =>
    by_cases same : first = '\x1b' ∧ second = '['
    · obtain ⟨rfl, rfl⟩ := same
      simp only [afterSequence?, List.cons_append, List.dropWhile_append]
      cases dropped : rest.dropWhile isParameter with
      | nil => simp [parameter_eq, alpha_eq]
      | cons final ahead => cases alpha : final.isAlpha <;> simp [alpha]
    · have unescaped : ∀ text : List Char, afterSequence? (first :: second :: text) = none := by
        intro text
        unfold afterSequence?
        split
        · next begins =>
          cases begins
          exact absurd ⟨rfl, rfl⟩ same
        · rfl
      rw [List.cons_append, List.cons_append, unescaped, unescaped, Option.map_none]

/-- As many rounds as there are characters are enough to remove the escape sequences. -/
theorem plainFrom_eq_of_length_le
    {text : List Char}
    {first second : Nat}
    (enough : text.length ≤ first)
    (enough' : text.length ≤ second) :
    plainFrom first text = plainFrom second text := by
  induction first generalizing text second with
  | zero =>
    obtain rfl := List.length_eq_zero_iff.mp (Nat.le_zero.mp enough)
    cases second <;> rfl
  | succ rounds ih =>
    cases text with
    | nil => cases second <;> rfl
    | cons char rest =>
      obtain ⟨others, rfl⟩ := Nat.exists_eq_add_one_of_ne_zero (Nat.ne_zero_of_lt enough')
      rw [List.length_cons, Nat.add_le_add_iff_right] at enough enough'
      simp only [plainFrom]
      split
      · next behind found =>
        have shorter := length_lt_of_afterSequence? found
        rw [List.length_cons] at shorter
        exact ih (by omega) (by omega)
      · rw [ih enough enough']

/-- A text is stripped of escape sequences in parts if none goes on from one to the next. -/
theorem plainFrom_append
    {char : Char}
    (bars : Bars char)
    {front behind : List Char}
    {rounds : Nat}
    (enough : (front ++ char :: behind).length ≤ rounds) :
    plainFrom rounds (front ++ char :: behind) =
      plainFrom rounds front ++ plainFrom rounds (char :: behind) := by
  induction rounds generalizing front with
  | zero => simp at enough
  | succ rounds ih =>
    cases front with
    | nil => rfl
    | cons first rest =>
      simp only [List.length_append, List.length_cons] at enough ih
      have fewer : plainFrom (rounds + 1) (char :: behind) = plainFrom rounds (char :: behind) :=
        plainFrom_eq_of_length_le (by simp; omega) (by simp; omega)
      have sequences := afterSequence?_append bars first rest behind
      rw [fewer]
      simp only [List.cons_append, plainFrom] at sequences ⊢
      rw [sequences]
      cases found : afterSequence? (first :: rest) with
      | none => exact congrArg (first :: ·) (ih (by omega))
      | some ahead =>
        have shorter := length_lt_of_afterSequence? found
        rw [List.length_cons] at shorter
        exact ih (by omega)

theorem toList_plain (text : String) :
    (plain text).toList = plainFrom text.toList.length text.toList := by
  rw [plain, String.toList_ofList]

/-- A text is stripped of escape sequences in parts if none goes on from one to the next. -/
theorem plain_append
    {first second : String}
    (barred : ∀ char ∈ second.toList.head?, Bars char) :
    plain (first ++ second) = plain first ++ plain second := by
  rw [← String.toList_inj]
  simp only [String.toList_append, toList_plain]
  cases split : second.toList with
  | nil => simp [plainFrom]
  | cons char behind =>
    have bars : Bars char := barred char (by simp [split])
    rw [plainFrom_append bars le_rfl]
    congr 1 <;> refine plainFrom_eq_of_length_le ?_ le_rfl <;>
      simp only [List.length_append, List.length_cons] <;> omega

/-- A character that begins no escape sequence stays in front of what is left of the text. -/
theorem plain_singleton_append
    {char : Char}
    (unescaped : char ≠ '\x1b')
    (text : String) :
    plain (String.singleton char ++ text) = String.singleton char ++ plain text := by
  have begins : afterSequence? (char :: text.toList) = none := by
    unfold afterSequence?
    split
    · next same => exact absurd (List.cons_eq_cons.mp same).1 unescaped
    · rfl
  rw [← String.toList_inj]
  simp [toList_plain, plainFrom, begins]

/-- From a text without an escape character, nothing is removed. -/
theorem plain_eq_self {text : String} (unescaped : '\x1b' ∉ text.toList) : plain text = text := by
  suffices kept : ∀ chars : List Char, '\x1b' ∉ chars →
      plain (String.ofList chars) = String.ofList chars by
    simpa using kept text.toList unescaped
  intro chars unescaped
  induction chars with
  | nil => rfl
  | cons char rest ih =>
    rw [List.mem_cons, not_or] at unescaped
    have split : String.ofList (char :: rest) = String.singleton char ++ String.ofList rest := by
      rw [← String.toList_inj]
      simp
    rw [split, plain_singleton_append (Ne.symm unescaped.1), ih unescaped.2]

/-- Lines are stripped of escape sequences one by one. -/
theorem plain_append_newline (first second : String) :
    plain (first ++ "\n" ++ second) = plain first ++ "\n" ++ plain second := by
  have barred : ∀ char ∈ ("\n" ++ second).toList.head?, Bars char := by
    rw [String.toList_append]
    rintro char ⟨⟩
    decide
  rw [String.append_assoc, plain_append barred, show "\n" = String.singleton '\n' from rfl,
    plain_singleton_append (by decide), String.append_assoc]

namespace Console

variable (console : Console)

/-- A block is stripped of escape sequences apart from the end of its last line. -/
theorem printed_eq (block : String) :
    console.printed block =
      (if console.colour? == some true then block else plain block) ++ "\n" := by
  have ended := plain_append_newline block ""
  rw [String.append_empty] at ended
  simp only [printed]
  split
  · rfl
  · rw [ended]
    exact String.append_empty

/-- Two blocks are printed at once as they are printed one after the other. -/
theorem printed_append_newline (first second : String) :
    console.printed (first ++ "\n" ++ second) = console.printed first ++ console.printed second := by
  rw [printed_eq, printed_eq, printed_eq, plain_append_newline]
  split <;> simp only [String.append_assoc]

/-- Blocks are printed at once as they are printed one by one. -/
theorem printed_intercalate
    {blocks : List String}
    (some : blocks ≠ []) :
    console.printed (String.intercalate "\n" blocks) =
      String.join (blocks.map console.printed) := by
  induction blocks with
  | nil => contradiction
  | cons block rest ih =>
    rw [List.map_cons, String.join_cons]
    by_cases last : rest = []
    · rw [last, String.intercalate_singleton, List.map_nil, String.join_nil, String.append_empty]
    · rw [String.intercalate_cons_of_ne_nil last, printed_append_newline, ih last]

end Console
end Report
end MarkupLint
