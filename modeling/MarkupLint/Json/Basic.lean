import MarkupLint.Text.Quoted

/-!
# JSON values

Values of the JSON format as they are written by this program: in several lines, indented, and in
common characters only.
-/

namespace MarkupLint

/-- A value of the JSON format, with whole numbers only. -/
inductive Json where
  | null
  | integer (value : Int)
  | text (value : String)
  | array (items : List Json)
  | object (members : List (String × Json))
deriving Repr, Inhabited

namespace Json

/-- A unit of sixteen bits of a character, escaped. -/
def escapedUnit (unit : Nat) : List Char := '\\' :: 'u' :: Text.hexDigits 4 unit

/-- The short escapes. -/
def shortEscapes : List (Char × Char) :=
  [('"', '"'), ('\\', '\\'), ('\n', 'n'), ('\r', 'r'), ('\t', 't'), ('\x0c', 'f'),
    ('\x08', 'b')]

/-- A character inside a written text.  A character beyond sixteen bits is written as two units. -/
def writtenChar (char : Char) : List Char :=
  match shortEscapes.lookup char with
  | some short => ['\\', short]
  | none =>
    if ' ' ≤ char && char ≤ '~' then [char]
    else if char.toNat < 0x10000 then escapedUnit char.toNat
    else
      let beyond := char.toNat - 0x10000
      escapedUnit (0xd800 + beyond / 0x400) ++ escapedUnit (0xdc00 + beyond % 0x400)

/-- A text as it is written. -/
def writtenText (text : String) : String :=
  String.ofList ('"' :: text.toList.flatMap writtenChar ++ ['"'])

/-- The beginning of a line at a depth. -/
def lineStart (depth : Nat) : String := "\n" ++ String.ofList (List.replicate (2 * depth) ' ')

/-- Written parts between brackets, each on a line of its own one deeper than the brackets. -/
def enclosed (opening closing : String) (depth : Nat) (parts : List String) : String :=
  if parts.isEmpty then opening ++ closing
  else
    let inner := lineStart (depth + 1)
    opening ++ inner ++ String.intercalate ("," ++ inner) parts ++ lineStart depth ++ closing

mutual

/-- A value as it is written at a depth. -/
def write (depth : Nat) : Json → String
  | null => "null"
  | integer value => toString value
  | text value => writtenText value
  | array items => enclosed "[" "]" depth (writeItems (depth + 1) items)
  | object members => enclosed "\x7b" "\x7d" depth (writeMembers (depth + 1) members)

/-- Items as they are written at a depth. -/
def writeItems (depth : Nat) : List Json → List String
  | [] => []
  | item :: rest => write depth item :: writeItems depth rest

/-- Members as they are written at a depth. -/
def writeMembers (depth : Nat) : List (String × Json) → List String
  | [] => []
  | (key, value) :: rest =>
    (writtenText key ++ ": " ++ write depth value) :: writeMembers depth rest

end

/-- A value as it is written. -/
def document (value : Json) : String := value.write 0

end Json
end MarkupLint
