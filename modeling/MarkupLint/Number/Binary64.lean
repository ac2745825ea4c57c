/-!
# Binary numbers of 64 bits

A finite number is a whole significand of at most 53 bits times a power of two with an exponent of
at least -1074.  Exact quotients are rounded to the nearest such number, and a quotient in the
middle between two of them goes to the one with the even significand.
-/

namespace MarkupLint
namespace Number

/-- The whole number nearest to a quotient; a quotient in the middle goes to the even one. -/
def roundQuotient (numerator denominator : Nat) : Nat :=
  let whole := numerator / denominator
  let twice := 2 * (numerator % denominator)
  if twice < denominator then whole
  else if denominator < twice then whole + 1
  else whole + whole % 2

/-- The quotient scaled by a power of two, as a numerator and a denominator. -/
def scaleQuotient (numerator denominator : Nat) (exponent : Int) : Nat × Nat :=
  if exponent ≥ 0 then (numerator * Nat.pow 2 exponent.toNat, denominator)
  else (numerator, denominator * Nat.pow 2 (-exponent).toNat)

end Number

/-- A binary number of 64 bits. -/
inductive Binary64 where
  /-- The significand times two to the exponent, and its sign, which zero has too. -/
  | finite (isNegative : Bool) (significand : Nat) (exponent : Int)
  | infinite (isNegative : Bool)
  | nan
deriving DecidableEq, Repr, Inhabited

namespace Binary64

/-- The least exponent. -/
def leastExponent : Int := -1074

/-- The number of significands. -/
def significandLimit : Nat := Nat.pow 2 53

/-- The greatest exponent of a number with a full significand. -/
def greatestExponent : Int := 971

/-- The exponent for which the significand of a positive quotient has 53 bits, or the least one. -/
def exponentOf (numerator denominator : Nat) : Int :=
  let estimate : Int := (numerator.log2 : Int) - (denominator.log2 : Int) - 53
  let scaled := Number.scaleQuotient numerator denominator (-estimate)
  let fitting := if scaled.1 / scaled.2 < significandLimit then estimate else estimate + 1
  max fitting leastExponent

/-- The number nearest to a quotient. -/
def ofQuotient (isNegative : Bool) (numerator denominator : Nat) : Binary64 :=
  if numerator = 0 then finite isNegative 0 leastExponent
  else
    let exponent := exponentOf numerator denominator
    let scaled := Number.scaleQuotient numerator denominator (-exponent)
    let significand := Number.roundQuotient scaled.1 scaled.2
    let carried : Nat × Int :=
      if significand = significandLimit then (significand / 2, exponent + 1)
      else (significand, exponent)
    if greatestExponent < carried.2 then infinite isNegative
    else finite isNegative carried.1 carried.2

/-- The number nearest to a rational number. -/
def ofRat (value : Rat) : Binary64 := ofQuotient (value.num < 0) value.num.natAbs value.den

/-- The number nearest to an integer. -/
def ofInt (value : Int) : Binary64 := ofQuotient (value < 0) value.natAbs 1

/-- The magnitude of a finite number as a numerator and a denominator. -/
def magnitude (significand : Nat) (exponent : Int) : Nat × Nat :=
  Number.scaleQuotient significand 1 exponent

/-- The value of a finite number. -/
def toRat? : Binary64 → Option Rat
  | finite isNegative significand exponent =>
    let quotient := magnitude significand exponent
    let value := mkRat quotient.1 quotient.2
    some (if isNegative then -value else value)
  | _ => none

/-- The value nearest to a rational number among those of finite numbers; a number out of range is
kept. -/
def roundRat (value : Rat) : Rat := ((ofRat value).toRat?).getD value

/-- Whether the number is greater than zero. -/
def isPositive : Binary64 → Bool
  | finite isNegative significand _ => !isNegative && 0 < significand
  | infinite isNegative => !isNegative
  | nan => false

end Binary64
end MarkupLint
