import MarkupLint.Toml.Fault

/-!
# Blanks and comments

Blanks separate the parts of a line.  A comment reaches from a hash to the end of the line and holds
no control characters but tabs.
-/

namespace MarkupLint
namespace Toml

/-- Whether a character separates the parts of a line. -/
def isBlank (char : Char) : Bool := char == ' ' || char == '\t'

/-- Whether a character is a blank or ends a line. -/
def isSpace (char : Char) : Bool := isBlank char || char == '\n'

/-- Whether a character is a control character. -/
def isControl (char : Char) : Bool := char.toNat < 32 || char.toNat == 127

/-- Whether a character may not stand in a line of text. -/
def isIllegalInLine (char : Char) : Bool := isControl char && char != '\t'

/-- Whether a character may not stand in lines of text. -/
def isIllegalInLines (char : Char) : Bool := isIllegalInLine char && char != '\n'

/-- The text without the blanks at its front. -/
def skipBlanks (text : List Char) : List Char := text.dropWhile isBlank

/-- Refuse the first character of a text that is illegal, if there is one; behind the text come a
number of characters. -/
def refuseIllegal (isIllegal : Char → Bool) (text : List Char) (behind : Nat) :
    Except Fault Unit :=
  match text.dropWhile fun char => !isIllegal char with
  | [] => .ok ()
  | char :: rest => .error ⟨.invalidCharacter char, rest.length + 1 + behind⟩

/-- The text from the end of the line on, if what is left of the line may stand in a comment. -/
def skipLine (text : List Char) : Except Fault (List Char) :=
  let rest := text.dropWhile (· != '\n')
  (refuseIllegal isIllegalInLine (text.takeWhile (· != '\n')) rest.length).map fun _ => rest

/-- The text without a comment at its front. -/
def skipComment : List Char → Except Fault (List Char)
  | '#' :: rest => skipLine rest
  | text => .ok text

/-- The rest of a line is not longer than the text that it ends. -/
theorem length_le_of_skipLine
    {text rest : List Char}
    (skipped : skipLine text = .ok rest) :
    rest.length ≤ text.length := by
  unfold skipLine at skipped
  cases checked : refuseIllegal isIllegalInLine (text.takeWhile (· != '\n'))
      (text.dropWhile (· != '\n')).length with
  | error fault => simp [checked, Except.map] at skipped
  | ok _ =>
    simp only [checked, Except.map, Except.ok.injEq] at skipped
    rw [← skipped]
    exact (List.dropWhile_suffix _).length_le

/-- The text without the blanks, line ends and comments at its front. -/
def skipSpace (text : List Char) : Except Fault (List Char) :=
  match text with
  | [] => .ok []
  | char :: rest =>
    if isSpace char then skipSpace rest
    else if char = '#' then
      match _ : skipLine rest with
      | .ok behind => skipSpace behind
      | .error fault => .error fault
    else .ok (char :: rest)
termination_by text.length
decreasing_by
  · simp
  · have := length_le_of_skipLine ‹_›
    simp only [List.length_cons]
    omega

end Toml
end MarkupLint
