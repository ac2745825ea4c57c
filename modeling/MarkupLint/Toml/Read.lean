import MarkupLint.Toml.Draft
import MarkupLint.Toml.Item

/-!
# Reading configuration texts

A configuration text is a sequence of statements, each on a line of its own: a key with a value, a
header that declares a table, or a header that declares another table of an array.
-/

namespace MarkupLint
namespace Toml

/-- Read the header of a table; its bracket has been read. -/
def tableHeader (draft : Draft) (text : List Char) :
    Except Fault (Draft × List Char) := do
  let (key, rest) ← key (skipBlanks text)
  let draft ← orRefuse rest (draft.beginHeader.declareTable key)
  match rest with
  | ']' :: rest => return (draft, rest)
  | rest => refuse rest .missingBracket

/-- Read the header of a table of an array; its brackets have been read. -/
def arrayHeader (draft : Draft) (text : List Char) :
    Except Fault (Draft × List Char) := do
  let (key, rest) ← key (skipBlanks text)
  let draft ← orRefuse rest (draft.beginHeader.declareItem key)
  match rest with
  | ']' :: ']' :: rest => return (draft, rest)
  | rest => refuse rest .missingBrackets

/-- Read a key with its value. -/
def assignment (room : Nat) (draft : Draft) (text : List Char) :
    Except Fault (Draft × List Char) := do
  let (key, rest) ← keyOfPair text
  let (value, rest) ← value room rest
  let draft ← orRefuse rest (draft.assign key value)
  return (draft, rest)

/-- Read a statement with the blanks behind it; a comment is no statement and is left. -/
def statement (room : Nat) (draft : Draft) (text : List Char) : Reading Draft :=
  let reading :=
    match text with
    | '[' :: '[' :: rest => arrayHeader draft rest
    | '[' :: rest => tableHeader draft rest
    | '#' :: _ => .ok (draft, text)
    | [] => .ok (draft, text)
    | first :: _ =>
      if beginsKey first then assignment room draft text else refuse text .invalidStatement
  reading.map fun read => (read.1, skipBlanks read.2)

/-- Read statements, in at most the given number of lines. -/
def statements (room : Nat) : Nat → Draft → List Char → Except Fault Draft
  | 0, draft, _ => .ok draft
  | lines + 1, draft, text =>
    match skipBlanks text with
    | [] => .ok draft
    | '\n' :: rest => statements room lines draft rest
    | text => do
      let (draft, rest) ← statement room draft text
      match ← skipComment rest with
      | [] => return draft
      | '\n' :: rest => statements room lines draft rest
      | rest => refuse rest .missingLineEnd

/-- The text in which no carriage return stands in front of a line feed. -/
def joinLineEnds : List Char → List Char
  | [] => []
  | '\r' :: '\n' :: rest => '\n' :: joinLineEnds rest
  | char :: rest => char :: joinLineEnds rest

/-- The table that a configuration text describes, with room for values inside each other. -/
def read (room : Nat) (text : List Char) : Except Refusal (Table Value) :=
  let text := joinLineEnds text
  match statements room (text.length + 1) .empty text with
  | .ok draft => .ok draft.table
  | .error fault => .error ⟨fault.cause, .ofRemaining text fault.remaining⟩

end Toml
end MarkupLint
