import MarkupLint.Failure
import MarkupLint.Text.Integer
import MarkupLint.Text.Quoted

/-!
# Refused configuration texts

Why a configuration text is refused and where: at a line and a column, both counted from one, or at
the end of the document.
-/

namespace MarkupLint
namespace Toml

/-- The names that lead to a value, the outermost first. -/
abbrev Key := List String

/-- A key as it is shown: the tuple of its names. -/
def keyText (key : Key) : String := Text.tupleText (key.map Text.quoted)

/-- Why a configuration text is refused. -/
inductive Cause where
  | invalidStatement
  | missingLineEnd
  | missingEquals
  | invalidKey
  | missingBracket
  | missingBrackets
  | declaredTwice (key : Key)
  | immutable (key : Key)
  | redefined (key : Key)
  | occupied
  | duplicate (name : String)
  | unclosedArray
  | unclosedTable
  | invalidValue
  | invalidMoment
  | unescapedBackslash
  | invalidHexadecimal
  | noCharacter
  | unterminated
  | illegalCharacter (char : Char)
  /-- A character that may not stand in a comment or a literal text. -/
  | invalidCharacter (char : Char)
  | missing (delimiter : String)
  | tooManyDigits (count : Nat)
  /-- There is no room for another value inside values. -/
  | tooDeep
deriving DecidableEq, Repr, Inhabited

namespace Cause

/-- A character as it is shown. -/
def charText (char : Char) : String := Text.quoted (String.ofList [char])

/-- The wording of a cause. -/
def message : Cause → String
  | invalidStatement => "Invalid statement"
  | missingLineEnd => "Expected newline or end of document after a statement"
  | missingEquals => "Expected '=' after a key in a key/value pair"
  | invalidKey => "Invalid initial character for a key part"
  | missingBracket => "Expected ']' at the end of a table declaration"
  | missingBrackets => "Expected ']]' at the end of an array declaration"
  | declaredTwice key => s!"Cannot declare {keyText key} twice"
  | immutable key => s!"Cannot mutate immutable namespace {keyText key}"
  | redefined key => s!"Cannot redefine namespace {keyText key}"
  | occupied => "Cannot overwrite a value"
  | duplicate name => s!"Duplicate inline table key {Text.quoted name}"
  | unclosedArray => "Unclosed array"
  | unclosedTable => "Unclosed inline table"
  | invalidValue => "Invalid value"
  | invalidMoment => "Invalid date or datetime"
  | unescapedBackslash => "Unescaped '\\' in a string"
  | invalidHexadecimal => "Invalid hex value"
  | noCharacter => "Escaped character is not a Unicode scalar value"
  | unterminated => "Unterminated string"
  | illegalCharacter char => s!"Illegal character {charText char}"
  | invalidCharacter char => s!"Found invalid character {charText char}"
  | missing delimiter => s!"Expected {Text.quoted delimiter}"
  | tooManyDigits count => Text.tooManyDigits count
  | tooDeep => Failure.tooDeep.message

end Cause

/-- A cause, with the number of characters from the place that it refers to up to the end. -/
structure Fault where
  cause : Cause
  remaining : Nat
deriving DecidableEq, Repr, Inhabited

/-- What is read from the front of a text, with the text behind it. -/
abbrev Reading (α : Type) := Except Fault (α × List Char)

/-- Refuse a text at the place where a rest begins. -/
def refuse {α : Type} (rest : List Char) (cause : Cause) : Except Fault α :=
  .error ⟨cause, rest.length⟩

/-- A place in a text. -/
inductive Place where
  | within (line column : Nat)
  | atEnd
deriving DecidableEq, Repr, Inhabited

namespace Place

/-- The place in a text with a number of characters from it up to the end. -/
def ofRemaining (text : List Char) (remaining : Nat) : Place :=
  if remaining = 0 then atEnd
  else
    let before := text.take (text.length - remaining)
    let line := before.reverse.takeWhile (· != '\n')
    within (before.count '\n' + 1) (line.length + 1)

/-- The wording of a place. -/
def message : Place → String
  | within line column => s!"line {line}, column {column}"
  | atEnd => "end of document"

end Place

/-- The refusal of a configuration text. -/
structure Refusal where
  cause : Cause
  place : Place
deriving DecidableEq, Repr, Inhabited

namespace Refusal

/-- The wording of a refusal. -/
def message (refusal : Refusal) : String :=
  s!"{refusal.cause.message} (at {refusal.place.message})"

end Refusal
end Toml
end MarkupLint
