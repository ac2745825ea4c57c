import MarkupLint.Number.Binary64

/-!
# Decimal digits of binary numbers

A positive binary number has exact decimal digits, a correctly rounded approximation with any
number of digits, and a shortest decimal that reads back as the number.
-/

namespace MarkupLint

/-- A decimal: its digits, and the number of digits in front of the decimal point, which is
negative or larger than the number of digits if zeros have to be filled in. -/
structure Decimal where
  digits : List Char
  point : Int
deriving DecidableEq, Repr, Inhabited

namespace Decimal

/-- The decimal digits of a number. -/
def digitsOf (number : Nat) : List Char := Nat.toDigits 10 number

/-- The digits without zeros at the end; a zero has no digits. -/
def trimZeros (digits : List Char) : List Char :=
  (digits.reverse.dropWhile (· == '0')).reverse

/-- A whole number of units of a power of ten, without zeros at its end. -/
def ofUnits (units : Nat) (power : Int) : Decimal :=
  let digits := digitsOf units
  ⟨trimZeros digits, digits.length + power⟩

/-- The power of ten that is next above a positive quotient. -/
def powerAbove (numerator denominator : Nat) : Int :=
  if denominator ≤ numerator then (digitsOf (numerator / denominator)).length
  else
    let zeros := (List.range 400).find? fun zeros => denominator ≤ numerator * Nat.pow 10 (zeros + 1)
    0 - (zeros.getD 400 : Int)

/-- A quotient measured in units of a power of ten. -/
def inUnits (numerator denominator : Nat) (power : Int) : Nat × Nat :=
  if power ≥ 0 then (numerator, denominator * Nat.pow 10 power.toNat)
  else (numerator * Nat.pow 10 (-power).toNat, denominator)

/-- The decimal with the number of digits that is nearest to a positive quotient. -/
def rounded (count numerator denominator : Nat) : Decimal :=
  let power := powerAbove numerator denominator - count
  let quotient := inUnits numerator denominator power
  ofUnits (Number.roundQuotient quotient.1 quotient.2) power

/-- The binary number nearest to a whole number of units of a power of ten. -/
def readUnits (units : Nat) (power : Int) : Binary64 :=
  if power ≥ 0 then Binary64.ofQuotient false (units * Nat.pow 10 power.toNat) 1
  else Binary64.ofQuotient false units (Nat.pow 10 (-power).toNat)

/-- Of the two decimals with the number of digits that enclose a positive number, the nearer one
that reads back as the number. -/
def readingBack? (number : Binary64) (numerator denominator count : Nat) : Option Decimal :=
  let power := powerAbove numerator denominator - count
  let quotient := inUnits numerator denominator power
  let below := quotient.1 / quotient.2
  let nearest := Number.roundQuotient quotient.1 quotient.2
  let other := if nearest = below then below + 1 else below
  if readUnits nearest power == number then some (ofUnits nearest power)
  else if readUnits other power == number then some (ofUnits other power)
  else none

/-- The decimal with the fewest digits that reads back as a positive number. -/
def shortest (number : Binary64) (numerator denominator : Nat) : Decimal :=
  let found := (List.range 17).findSome? fun count =>
    readingBack? number numerator denominator (count + 1)
  found.getD (rounded 17 numerator denominator)

/-- The decimal written with a point, and with digits on both sides of it if asked for. -/
def positional (keepsFraction : Bool) (decimal : Decimal) : List Char :=
  let zeros := fun count : Int => List.replicate count.toNat '0'
  let filled := decimal.digits ++ zeros (decimal.point - decimal.digits.length)
  let front := filled.take decimal.point.toNat
  let back := zeros (-decimal.point) ++ filled.drop decimal.point.toNat
  let back := if back.isEmpty && keepsFraction then ['0'] else back
  (if front.isEmpty then ['0'] else front) ++ (if back.isEmpty then [] else '.' :: back)

/-- The decimal written with one digit in front of the point, and the exponent of ten. -/
def scientific (decimal : Decimal) : List Char :=
  let exponent := decimal.point - 1
  let sign := if exponent < 0 then '-' else '+'
  let digits := digitsOf exponent.natAbs
  let power := 'e' :: sign :: List.replicate (2 - digits.length) '0' ++ digits
  match decimal.digits with
  | [] => '0' :: power
  | [digit] => digit :: power
  | first :: rest => first :: '.' :: rest ++ power

/-- The decimal written with a point from 0.0001 on and below the given power of ten, and with an
exponent otherwise. -/
def written (keepsFraction : Bool) (limit : Int) (decimal : Decimal) : List Char :=
  if -4 < decimal.point && decimal.point ≤ limit then decimal.positional keepsFraction
  else decimal.scientific

end Decimal

namespace Binary64

/-- The text of a number whose magnitude is written by the function. -/
def textBy (write : (numerator denominator : Nat) → List Char) : Binary64 → String
  | finite isNegative significand exponent =>
    let quotient := magnitude significand exponent
    String.ofList ((if isNegative then ['-'] else []) ++ write quotient.1 quotient.2)
  | infinite isNegative => if isNegative then "-inf" else "inf"
  | nan => "nan"

/-- The shortest text that reads back as the number. -/
def text (number : Binary64) : String :=
  let positive :=
    match number with
    | finite _ significand exponent => finite false significand exponent
    | other => other
  number.textBy fun numerator denominator =>
    if numerator = 0 then "0.0".toList
    else (Decimal.shortest positive numerator denominator).written true 16

/-- The number in at most six digits. -/
def briefText (number : Binary64) : String :=
  number.textBy fun numerator denominator =>
    if numerator = 0 then ['0']
    else (Decimal.rounded 6 numerator denominator).written false 6

/-- The number with two digits behind the point. -/
def hundredthsText (number : Binary64) : String :=
  number.textBy fun numerator denominator =>
    let hundredths := Number.roundQuotient (numerator * 100) denominator
    let behind := Decimal.digitsOf (hundredths % 100)
    Decimal.digitsOf (hundredths / 100) ++
      '.' :: List.replicate (2 - behind.length) '0' ++ behind

end Binary64
end MarkupLint
