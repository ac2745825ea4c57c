import MarkupLint.Toml.Space

/-!
# Texts between quotes

Texts stand between double quotes, and may then hold escapes, or between apostrophes.  Three quotes
enclose texts of several lines; up to two quotes more than three belong to the text.
-/

namespace MarkupLint
namespace Toml

/-- The value of a digit to base sixteen. -/
def hexValue? (char : Char) : Option Nat :=
  if '0' ≤ char && char ≤ '9' then some (char.toNat - '0'.toNat)
  else if 'a' ≤ char && char ≤ 'f' then some (char.toNat - 'a'.toNat + 10)
  else if 'A' ≤ char && char ≤ 'F' then some (char.toNat - 'A'.toNat + 10)
  else none

/-- The character whose number a count of digits at the front of a text gives. -/
def escapedNumber (count : Nat) (text : List Char) : Reading (List Char) :=
  match (text.take count).mapM hexValue? with
  | none => refuse text .invalidHexadecimal
  | some digits =>
    if digits.length < count then refuse text .invalidHexadecimal
    else
      let number := digits.foldl (fun number digit => 16 * number + digit) 0
      let rest := text.drop count
      if number.isValidChar then .ok ([Char.ofNat number], rest) else refuse rest .noCharacter

/-- The characters that stand for others behind a backslash. -/
def escapes : List (Char × Char) :=
  [('b', '\x08'), ('t', '\t'), ('n', '\n'), ('f', '\x0c'), ('r', '\r'), ('"', '"'),
    ('\\', '\\')]

/-- The text without the end of a line that is escaped: blanks, the line end, and all blanks and
line ends that follow. -/
def skipEscapedLineEnd (text : List Char) : Reading (List Char) :=
  match skipBlanks text with
  | [] => .ok ([], [])
  | '\n' :: rest => .ok ([], rest.dropWhile isSpace)
  | rest => refuse rest .unescapedBackslash

/-- The characters that the escape at the front of a text stands for; the backslash has been
read. -/
def escaped (isMultiline : Bool) : List Char → Reading (List Char)
  | [] => refuse [] .unescapedBackslash
  | char :: rest =>
    if isMultiline && isSpace char then skipEscapedLineEnd (char :: rest)
    else if char = 'u' then escapedNumber 4 rest
    else if char = 'U' then escapedNumber 8 rest
    else
      match escapes.lookup char with
      | some meant => .ok ([meant], rest)
      | none => refuse rest .unescapedBackslash

/-- Put characters in front of those that are read behind them. -/
def withFront (chars : List Char) (reading : Reading (List Char)) : Reading (List Char) :=
  reading.map fun read => (chars ++ read.1, read.2)

/-- A text up to its closing double quotes, in at most the given number of rounds. -/
def basicFrom (isMultiline : Bool) : Nat → List Char → Reading (List Char)
  | 0, text => refuse text .unterminated
  | _ + 1, [] => refuse [] .unterminated
  | rounds + 1, '"' :: rest =>
    if isMultiline then
      match rest with
      | '"' :: '"' :: behind => .ok ([], behind)
      | rest => withFront ['"'] (basicFrom isMultiline rounds rest)
    else .ok ([], rest)
  | rounds + 1, '\\' :: rest =>
    match escaped isMultiline rest with
    | .error fault => .error fault
    | .ok (chars, behind) => withFront chars (basicFrom isMultiline rounds behind)
  | rounds + 1, char :: rest =>
    let isIllegal := if isMultiline then isIllegalInLines else isIllegalInLine
    if isIllegal char then refuse (char :: rest) (.illegalCharacter char)
    else withFront [char] (basicFrom isMultiline rounds rest)

/-- A text up to its closing double quotes. -/
def basic (isMultiline : Bool) (text : List Char) : Reading (List Char) :=
  basicFrom isMultiline (text.length + 1) text

/-- What stands before the first occurrence of a delimiter, and what stands behind it. -/
def splitBefore? (delimiter : List Char) : List Char → Option (List Char × List Char)
  | [] => none
  | char :: rest =>
    if delimiter.isPrefixOf (char :: rest) then some ([], (char :: rest).drop delimiter.length)
    else (splitBefore? delimiter rest).map fun split => (char :: split.1, split.2)

/-- A text without escapes up to its closing delimiter. -/
def literal (isIllegal : Char → Bool) (delimiter text : List Char) : Reading (List Char) :=
  match splitBefore? delimiter text with
  | none => refuse [] (.missing (String.ofList delimiter))
  | some (inner, behind) =>
    (refuseIllegal isIllegal inner (delimiter.length + behind.length)).map fun _ =>
      (inner, behind)

/-- Add up to two quotes that follow the closing ones. -/
def withTrailing (quote : Char) (read : List Char × List Char) : List Char × List Char :=
  let count := min 2 (read.2.takeWhile (· == quote)).length
  (read.1 ++ List.replicate count quote, read.2.drop count)

/-- A text of several lines up to its closing quotes; a line end at its front does not count. -/
def multiline (quote : Char) (text : List Char) : Reading (List Char) :=
  let text := if text.head? = some '\n' then text.drop 1 else text
  let reading :=
    if quote = '"' then basic true text
    else literal isIllegalInLines (List.replicate 3 quote) text
  reading.map (withTrailing quote)

/-- A text of one line up to its closing quote. -/
def singleLine (quote : Char) (text : List Char) : Reading (List Char) :=
  if quote = '"' then basic false text else literal isIllegalInLine [quote] text

/-- The text of one or several lines whose opening quote has been read. -/
def quotedText (quote : Char) (text : List Char) : Reading (List Char) :=
  match text with
  | second :: third :: rest =>
    if second = quote && third = quote then multiline quote rest else singleLine quote text
  | _ => singleLine quote text

end Toml
end MarkupLint
