import MarkupLint.Toml.Draft
import MarkupLint.Toml.Number
import MarkupLint.Toml.Quoted

/-!
# Keys and values

A key consists of names between points.  A name is bare or stands between quotes.  A value is a text, a
truth value, a date or time, a number, an array between brackets, or a table in one line between braces.
Arrays and tables are read as long as there is room for values inside each other.
-/

namespace MarkupLint
namespace Toml

/-! ## Keys -/

/-- Whether a character may stand in a bare name. -/
def isBare (char : Char) : Bool := char.isAlphanum || char == '-' || char == '_'

/-- Whether a character may begin a key. -/
def beginsKey (char : Char) : Bool := isBare char || char == '"' || char == '\''

/-- The name at the front of a text. -/
def name (text : List Char) : Reading String :=
  match text with
  | [] => refuse [] .invalidKey
  | first :: rest =>
    if isBare first then
      .ok (String.ofList (text.takeWhile isBare), text.dropWhile isBare)
    else if first = '"' || first = '\'' then
      (singleLine first rest).map fun read => (String.ofList read.1, read.2)
    else refuse text .invalidKey

/-- The key at the front of a text with the blanks behind it, in at most the given number of
rounds. -/
def keyFrom : Nat → List Char → Reading Key
  | 0, text => refuse text .invalidKey
  | rounds + 1, text =>
    match name text with
    | .error fault => .error fault
    | .ok (first, rest) =>
      match skipBlanks rest with
      | '.' :: rest =>
        (keyFrom rounds (skipBlanks rest)).map fun read => (first :: read.1, read.2)
      | rest => .ok ([first], rest)

/-- The key at the front of a text with the blanks behind it. -/
def key (text : List Char) : Reading Key := keyFrom (text.length + 1) text

/-! ## Values -/

/-- The truth value at the front of a text. -/
def truth? (text : List Char) : Option (Value × List Char) :=
  if "true".toList.isPrefixOf text then some (.boolean true, text.drop 4)
  else if "false".toList.isPrefixOf text then some (.boolean false, text.drop 5)
  else none

/-- The value without parts at the front of a text. -/
def simpleValue (text : List Char) : Reading Value :=
  match truth? text with
  | some read => .ok read
  | none =>
    match moment? text <|> number? text with
    | some reading => reading
    | none => refuse text .invalidValue

/-- The key at the front of a text up to the value behind the equals sign. -/
def keyOfPair (text : List Char) : Except Fault (Key × List Char) := do
  let (found, rest) ← key text
  match rest with
  | '=' :: rest => return (found, skipBlanks rest)
  | rest => refuse rest .missingEquals

/-- A table in one line that is being read, with the keys of the arrays and tables in it. -/
structure InlineTable where
  entries : Table Value
  closed : List Key

namespace InlineTable

/-- A table in one line without entries. -/
def empty : InlineTable := ⟨[], []⟩

/-- Give a key a value; the arrays and tables in the table are not changed any more. -/
def add (table : InlineTable) (key : Key) (value : Value) : Except Cause InlineTable :=
  if table.closed.any (·.isPrefixOf key) then .error (.immutable key)
  else
    let name := lastOf key
    (changeAt false (addEntry (.duplicate name) name value) (parentOf key) table.entries).map
      fun entries =>
        ⟨entries, if isContainer value then key :: table.closed else table.closed⟩

end InlineTable

mutual

/-- The value at the front of a text, in at most the given number of rounds.  The room says how deep
calls can be nested: what is inside an array is two calls deeper, and what is inside a table is
three. -/
def valueFrom (rounds room : Nat) (text : List Char) : Reading Value :=
  match rounds with
  | 0 => refuse text .invalidValue
  | rounds + 1 =>
    match text with
    | '"' :: rest => (quotedText '"' rest).map fun read => (.text (String.ofList read.1), read.2)
    | '\'' :: rest =>
      (quotedText '\'' rest).map fun read => (.text (String.ofList read.1), read.2)
    | '[' :: rest => if room < 2 then refuse text .tooDeep else arrayFrom rounds (room - 2) [] rest
    | '\x7b' :: rest =>
      if room < 3 then refuse text .tooDeep
      else
        match skipBlanks rest with
        | '\x7d' :: behind => .ok (.table [], behind)
        | rest => inlineFrom rounds (room - 3) .empty rest
    | text => simpleValue text

/-- An array behind its items so far, the last one first. -/
def arrayFrom (rounds room : Nat) (items : List Value) (text : List Char) : Reading Value :=
  match rounds with
  | 0 => refuse text .unclosedArray
  | rounds + 1 =>
    match skipSpace text with
    | .error fault => .error fault
    | .ok (']' :: behind) => .ok (.list items.reverse, behind)
    | .ok text =>
      match valueFrom rounds room text with
      | .error fault => .error fault
      | .ok (item, rest) =>
        match skipSpace rest with
        | .error fault => .error fault
        | .ok (']' :: behind) => .ok (.list (item :: items).reverse, behind)
        | .ok (',' :: rest) => arrayFrom rounds room (item :: items) rest
        | .ok rest => refuse rest .unclosedArray

/-- A table in one line behind its entries so far. -/
def inlineFrom (rounds room : Nat) (table : InlineTable) (text : List Char) : Reading Value :=
  match rounds with
  | 0 => refuse text .unclosedTable
  | rounds + 1 =>
    match keyOfPair text with
    | .error fault => .error fault
    | .ok (key, rest) =>
      match valueFrom rounds room rest with
      | .error fault => .error fault
      | .ok (value, rest) =>
        match orRefuse rest (table.add key value) with
        | .error fault => .error fault
        | .ok table =>
          match skipBlanks rest with
          | '\x7d' :: behind => .ok (.table table.entries, behind)
          | ',' :: rest => inlineFrom rounds room table (skipBlanks rest)
          | rest => refuse rest .unclosedTable

end

/-- The value at the front of a text. -/
def value (room : Nat) (text : List Char) : Reading Value :=
  valueFrom (2 * text.length + 2) room text

end Toml
end MarkupLint
