import MarkupLint.Number.Binary64
import MarkupLint.Text.Integer

/-!
# Reading binary numbers

A number is written with decimal digits of any script, a point and an exponent, or as an infinity
or as no number at all.  A single underscore may stand between two digits, and blanks may stand
around the whole.
-/

namespace MarkupLint
namespace Number

/-- The digits at the front of a text, with single underscores between them, and what follows. -/
def leadingDigits : List Char → List Nat × List Char
  | [] => ([], [])
  | char :: rest =>
    match Text.digitValue? char with
    | none => ([], char :: rest)
    | some value =>
      match rest with
      | '_' :: next :: behind =>
        if (Text.digitValue? next).isSome then
          let read := leadingDigits (next :: behind)
          (value :: read.1, read.2)
        else ([value], rest)
      | rest =>
        let read := leadingDigits rest
        (value :: read.1, read.2)

/-- The exponent that makes up a whole text; an empty text stands for zero. -/
def exponent? : List Char → Option Int
  | [] => some 0
  | mark :: rest =>
    if mark == 'e' || mark == 'E' then
      let signed := Text.splitSign rest
      match leadingDigits signed.2 with
      | ([], _) => none
      | (digits, []) =>
        let size : Int := Text.ofDigits digits
        some (if signed.1 then -size else size)
      | (_, _ :: _) => none
    else none

/-- The number nearest to a whole number of units of a power of ten.  Powers far out of range are
not computed. -/
def nearest (isNegative : Bool) (units : Nat) (power : Int) : Binary64 :=
  let size : Int := units.log2
  if units = 0 then Binary64.ofQuotient isNegative 0 1
  else if power > 400 then Binary64.infinite isNegative
  else if size + 3 * power < -1200 then Binary64.ofQuotient isNegative 0 1
  else if power ≥ 0 then Binary64.ofQuotient isNegative (units * Nat.pow 10 power.toNat) 1
  else Binary64.ofQuotient isNegative units (Nat.pow 10 (-power).toNat)

/-- The decimal number that makes up a text without sign. -/
def decimal? (isNegative : Bool) (text : List Char) : Option Binary64 :=
  let whole := leadingDigits text
  let part :=
    match whole.2 with
    | '.' :: rest => leadingDigits rest
    | rest => ([], rest)
  let digits := whole.1 ++ part.1
  if digits.isEmpty then none
  else (exponent? part.2).map fun exponent =>
    nearest isNegative (Text.ofDigits digits) (exponent - part.1.length)

end Number

namespace Binary64

/-- The number that a text holds. -/
def read? (text : List Char) : Option Binary64 :=
  let signed := Text.splitSign (Text.trimNumeral text)
  let word := signed.2.map Char.toLower
  if word == "inf".toList || word == "infinity".toList then some (infinite signed.1)
  else if word == "nan".toList then some nan
  else Number.decimal? signed.1 signed.2

end Binary64
end MarkupLint
