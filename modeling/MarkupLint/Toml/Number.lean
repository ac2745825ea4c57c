import MarkupLint.Number.Reading
import MarkupLint.Toml.Moment
import MarkupLint.Toml.Quoted

/-!
# Numbers

Numbers are decimal, with an optional sign, part and exponent, or whole numbers to base sixteen,
eight or two.  Single underscores may stand between digits.
-/

namespace MarkupLint
namespace Toml

/-- The digits at the front of a text with single underscores between them, and what follows. -/
def digitRun (isDigit : Char → Bool) : List Char → List Char × List Char
  | [] => ([], [])
  | first :: rest =>
    if isDigit first then
      match rest with
      | '_' :: next :: behind =>
        if isDigit next then
          let run := digitRun isDigit (next :: behind)
          (first :: run.1, run.2)
        else ([first], rest)
      | rest =>
        let run := digitRun isDigit rest
        (first :: run.1, run.2)
    else ([], first :: rest)

/-- The base of the digits behind a letter. -/
def baseOf? (letter : Char) : Option Nat :=
  if letter = 'x' then some 16
  else if letter = 'o' then some 8
  else if letter = 'b' then some 2
  else none

/-- Whether a character is a digit to a base. -/
def isDigitOf (base : Nat) (char : Char) : Bool := (hexValue? char).any (· < base)

/-- The whole number to another base at the front of a text. -/
def basedNumber? : List Char → Option (Value × List Char)
  | '0' :: letter :: rest =>
    (baseOf? letter).bind fun base =>
      match digitRun (isDigitOf base) rest with
      | ([], _) => none
      | (digits, rest) =>
        let number :=
          digits.foldl (fun number digit => base * number + (hexValue? digit).getD 0) 0
        some (.integer number, rest)
  | _ => none

/-- The digits of the whole part of a decimal number: a zero stands alone. -/
def wholeDigits? : List Char → Option (List Char × List Char)
  | '0' :: rest => some (['0'], rest)
  | text =>
    match digitRun isDigit text with
    | ([], _) => none
    | run => some run

/-- The part behind the point at the front of a text with the point, or nothing. -/
def partDigits : List Char → List Char × List Char
  | '.' :: rest =>
    match digitRun isDigit rest with
    | ([], _) => ([], '.' :: rest)
    | (digits, rest) => ('.' :: digits, rest)
  | text => ([], text)

/-- The sign at the front of a text, or nothing, and what follows. -/
def splitSignChar : List Char → List Char × List Char
  | '+' :: rest => (['+'], rest)
  | '-' :: rest => (['-'], rest)
  | text => ([], text)

/-- The exponent at the front of a text with its letter, or nothing. -/
def exponentDigits (text : List Char) : List Char × List Char :=
  match text with
  | [] => ([], [])
  | letter :: rest =>
    if letter = 'e' || letter = 'E' then
      let signed := splitSignChar rest
      match digitRun isDigit signed.2 with
      | ([], _) => ([], text)
      | (digits, rest) => ('e' :: signed.1 ++ digits, rest)
    else ([], text)

/-- The whole number that digits with a sign write. -/
def wholeNumber (sign digits rest : List Char) : Reading Value :=
  if digits.length > Text.digitLimit then refuse rest (.tooManyDigits digits.length)
  else
    let magnitude : Int := decimal digits
    .ok (.integer (if sign = ['-'] then -magnitude else magnitude), rest)

/-- The decimal number at the front of a text. -/
def decimalNumber? (text : List Char) : Option (Reading Value) :=
  let signed := splitSignChar text
  (wholeDigits? signed.2).map fun (whole, rest) =>
    let part := partDigits rest
    let exponent := exponentDigits part.2
    if part.1.isEmpty && exponent.1.isEmpty then wholeNumber signed.1 whole rest
    else
      let written := signed.1 ++ whole ++ part.1 ++ exponent.1
      .ok (.float ((Binary64.read? written).getD .nan), exponent.2)

/-- The word for an infinity or for no number at all at the front of a text. -/
def specialNumber? (text : List Char) : Option (Value × List Char) :=
  let signed := splitSignChar text
  let number? : Option Binary64 :=
    if "inf".toList.isPrefixOf signed.2 then some (.infinite (signed.1 = ['-']))
    else if "nan".toList.isPrefixOf signed.2 then some .nan
    else none
  number?.map fun number => (.float number, signed.2.drop 3)

/-- The number at the front of a text. -/
def number? (text : List Char) : Option (Reading Value) :=
  ((basedNumber? text).map .ok) <|> decimalNumber? text <|> (specialNumber? text).map .ok

end Toml
end MarkupLint
