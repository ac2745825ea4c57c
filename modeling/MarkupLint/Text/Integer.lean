import MarkupLint.Text.Blank

/-!
# Integers in decimal digits

Every script with decimal digits has ten of them in a row, from zero to nine.  An integer is written
with decimal digits of any script behind an optional sign.  A single underscore may stand between two
digits, and blanks may stand around the whole.
-/

namespace MarkupLint
namespace Text

/-- The digits zero of all scripts, in version 14 of the character standard. -/
def zeroDigits : List Nat :=
  [0x30, 0x660, 0x6f0, 0x7c0, 0x966, 0x9e6, 0xa66, 0xae6, 0xb66, 0xbe6, 0xc66, 0xce6, 0xd66,
    0xde6, 0xe50, 0xed0, 0xf20, 0x1040, 0x1090, 0x17e0, 0x1810, 0x1946, 0x19d0, 0x1a80,
    0x1a90, 0x1b50, 0x1bb0, 0x1c40, 0x1c50, 0xa620, 0xa8d0, 0xa900, 0xa9d0, 0xa9f0, 0xaa50,
    0xabf0, 0xff10, 0x104a0, 0x10d30, 0x11066, 0x110f0, 0x11136, 0x111d0, 0x112f0, 0x11450,
    0x114d0, 0x11650, 0x116c0, 0x11730, 0x118e0, 0x11950, 0x11c50, 0x11d50, 0x11da0, 0x16a60,
    0x16ac0, 0x16b50, 0x1d7ce, 0x1d7d8, 0x1d7e2, 0x1d7ec, 0x1d7f6, 0x1e140, 0x1e2f0, 0x1e950,
    0x1fbf0]

/-- The value of a decimal digit of any script. -/
def digitValue? (char : Char) : Option Nat :=
  (zeroDigits.find? fun first => first ≤ char.toNat && char.toNat ≤ first + 9).map fun first =>
    char.toNat - first

/-! ## Integers -/

/-- The largest number of digits for which a decimal numeral is converted. -/
def digitLimit : Nat := 4300

/-- Why a text is not converted to an integer. -/
inductive IntegerFault where
  | malformed
  /-- The numeral has more digits than are converted. -/
  | tooLong (digits : Nat)
deriving DecidableEq, Repr, Inhabited

/-- The refusal of a numeral with too many digits. -/
def tooManyDigits (digits : Nat) : String :=
  s!"Exceeds the limit ({digitLimit} digits) for integer string conversion: value has {digits} " ++
    "digits; use sys.set_int_max_str_digits() to increase the limit"

/-- The values of the digits of a numeral, first to last; whether an underscore may stand next is
known from whether a digit has been read last. -/
def digitsFrom (isAfterDigit : Bool) : List Char → Option (List Nat)
  | [] => if isAfterDigit then some [] else none
  | char :: rest =>
    if char == '_' then
      if isAfterDigit then digitsFrom false rest else none
    else
      (digitValue? char).bind fun value => (digitsFrom true rest).map (value :: ·)

/-- The number that has the digits, the highest first. -/
def ofDigits (digits : List Nat) : Nat := digits.foldl (fun number digit => 10 * number + digit) 0

/-- Whether a numeral begins with a minus sign, and what follows its sign. -/
def splitSign : List Char → Bool × List Char
  | '-' :: rest => (true, rest)
  | '+' :: rest => (false, rest)
  | text => (false, text)

/-- Whether a character may stand around a numeral: the blanks do, but not the controls that separate
fields. -/
def isAroundNumeral (char : Char) : Bool :=
  isBlank char && !(0x1c ≤ char.toNat && char.toNat ≤ 0x1f)

/-- The text without what may stand around a numeral. -/
def trimNumeral (text : List Char) : List Char :=
  ((text.dropWhile isAroundNumeral).reverse.dropWhile isAroundNumeral).reverse

/-- The integer that a text holds. -/
def integer (text : List Char) : Except IntegerFault Int :=
  let signed := splitSign (trimNumeral text)
  match digitsFrom false signed.2 with
  | none => .error .malformed
  | some digits =>
    if digits.length > digitLimit then .error (.tooLong digits.length)
    else
      let magnitude : Int := ofDigits digits
      .ok (if signed.1 then -magnitude else magnitude)

/-- The refusal of an integer whose numeral would have too many digits. -/
def tooManyDigitsToShow : String :=
  s!"Exceeds the limit ({digitLimit} digits) for integer string conversion; " ++
    "use sys.set_int_max_str_digits() to increase the limit"

/-- Whether the numeral of an integer has few enough digits to be shown. -/
def isShowable (number : Int) : Bool := number.natAbs < Nat.pow 10 digitLimit

@[simp] theorem digitsFrom_nil (isAfterDigit : Bool) :
    digitsFrom isAfterDigit [] = if isAfterDigit then some [] else none := rfl

end Text
end MarkupLint
