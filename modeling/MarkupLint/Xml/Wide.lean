/-!
# Texts in units of two bytes

A text whose first or second byte is zero is taken for one in units of two bytes, whichever way its
bytes came about.  A character beyond sixteen bits takes two units, of which the first one decides
that there is a second one.
-/

namespace MarkupLint
namespace Xml

/-- Which byte of a unit comes first. -/
inductive ByteOrder where
  | highFirst
  | lowFirst
deriving DecidableEq, Repr, Inhabited

namespace ByteOrder

/-- The order of the bytes of a text, if it is taken for one in units of two bytes. -/
def of? : List UInt8 → Option ByteOrder
  | 0 :: _ => some highFirst
  | _ :: 0 :: _ => some lowFirst
  | _ => none

/-- The unit that two bytes make up. -/
def unit (order : ByteOrder) (first second : UInt8) : Nat :=
  match order with
  | highFirst => 256 * first.toNat + second.toNat
  | lowFirst => 256 * second.toNat + first.toNat

/-- The units that bytes make up; a byte that is left over makes up none. -/
def units (order : ByteOrder) : List UInt8 → List Nat
  | first :: second :: rest => order.unit first second :: order.units rest
  | _ => []

end ByteOrder

/-- A character that no document may hold. -/
def forbiddenChar : Char := '\ufffe'

/-- The characters that units write. -/
def charsOfUnits : List Nat → List Char
  | [] => []
  | unit :: rest =>
    if 0xd800 ≤ unit && unit < 0xdc00 then
      match rest with
      | [] => []
      | second :: rest =>
        Char.ofNat (0x10000 + (unit - 0xd800) * 0x400 + second % 0x400) :: charsOfUnits rest
    else if 0xdc00 ≤ unit && unit < 0xe000 then forbiddenChar :: charsOfUnits rest
    else Char.ofNat unit :: charsOfUnits rest

/-- A text in units of two bytes, and whether a byte is left over behind it. -/
structure WideText where
  chars : List Char
  hasRemnant : Bool
deriving DecidableEq, Repr, Inhabited

namespace WideText

/-- The text that the bytes of characters write in units of two bytes, if they are taken so. -/
def ofChars? (chars : List Char) : Option WideText :=
  let bytes := chars.flatMap String.utf8EncodeChar
  (ByteOrder.of? bytes).map fun order =>
    ⟨charsOfUnits (order.units bytes), bytes.length % 2 == 1⟩

end WideText
end Xml
end MarkupLint
