import MarkupLint.Text.Printable

/-!
# Quoted text

A text is shown between quotes: apostrophes, or double quotes if it holds an apostrophe and no
double quote.  The backslash, the enclosing quote and characters that are not printable are
escaped.
-/

namespace MarkupLint
namespace Text

/-- The digits of a number to base sixteen, padded with zeros. -/
def hexDigits (width : Nat) (number : Nat) : List Char :=
  let digits := Nat.toDigits 16 number
  List.replicate (width - digits.length) '0' ++ digits

/-- A character inside quotes. -/
def quotedChar (quote : Char) (char : Char) : List Char :=
  if char == quote || char == '\\' then ['\\', char]
  else if char == '\n' then ['\\', 'n']
  else if char == '\r' then ['\\', 'r']
  else if char == '\t' then ['\\', 't']
  else if isPrintable char then [char]
  else if char.toNat < 0x100 then '\\' :: 'x' :: hexDigits 2 char.toNat
  else if char.toNat < 0x10000 then '\\' :: 'u' :: hexDigits 4 char.toNat
  else '\\' :: 'U' :: hexDigits 8 char.toNat

/-- The quote that encloses a text. -/
def enclosingQuote (text : List Char) : Char :=
  if text.contains '\'' && !text.contains '"' then '"' else '\''

/-- A text between quotes. -/
def quoted (text : String) : String :=
  let chars := text.toList
  let quote := enclosingQuote chars
  String.ofList (quote :: chars.flatMap (quotedChar quote) ++ [quote])

/-- What is shown of the items of a tuple between parentheses, a single one with a comma behind it. -/
def tupleText : List String → String
  | [item] => "(" ++ item ++ ",)"
  | items => "(" ++ String.intercalate ", " items ++ ")"

end Text
end MarkupLint
