/-!
# Decoding bytes

Bytes are decoded as characters of one to four bytes.  Forms that are too long, surrogates and
numbers beyond the last character are refused.
-/

namespace MarkupLint
namespace Text

/-- Why bytes are no text. -/
inductive DecodingCause where
  | invalidStart
  | invalidContinuation
  | unexpectedEnd
deriving DecidableEq, Repr, Inhabited

/-- A refusal of bytes: the first of them that are refused, their number, their place, and why. -/
structure DecodingFault where
  byte : UInt8
  position : Nat
  length : Nat
  cause : DecodingCause
deriving DecidableEq, Repr, Inhabited

namespace DecodingFault

/-- The wording of a cause. -/
def causeText : DecodingCause → String
  | .invalidStart => "invalid start byte"
  | .invalidContinuation => "invalid continuation byte"
  | .unexpectedEnd => "unexpected end of data"

/-- The wording of a refusal: a single byte is shown, and several are placed. -/
def message (fault : DecodingFault) : String :=
  let cause := causeText fault.cause
  if fault.length = 1 then
    let digits := Nat.toDigits 16 fault.byte.toNat
    let shown := String.ofList (List.replicate (2 - digits.length) '0' ++ digits)
    s!"'utf-8' codec can't decode byte 0x{shown} in position {fault.position}: {cause}"
  else
    let last := fault.position + fault.length - 1
    s!"'utf-8' codec can't decode bytes in position {fault.position}-{last}: {cause}"

end DecodingFault

/-- What the bytes at the front are. -/
inductive Decoded where
  /-- A character and the number of its bytes. -/
  | character (char : Char) (length : Nat)
  /-- The number of refused bytes and why. -/
  | refused (length : Nat) (cause : DecodingCause)
deriving DecidableEq, Repr, Inhabited

/-- Whether a byte continues a character. -/
def isContinuation (byte : UInt8) : Bool := byte.toNat / 64 == 2

/-- The second bytes that may follow a first one, as a closed range. -/
def secondRange (first : Nat) : Nat × Nat :=
  if first = 0xe0 then (0xa0, 0xbf)
  else if first = 0xed then (0x80, 0x9f)
  else if first = 0xf0 then (0x90, 0xbf)
  else if first = 0xf4 then (0x80, 0x8f)
  else (0x80, 0xbf)

/-- The number of bytes of a character with the first byte; none has a byte that continues one. -/
def lengthOf (first : Nat) : Nat :=
  if first < 0x80 then 1
  else if first < 0xc2 then 0
  else if first < 0xe0 then 2
  else if first < 0xf0 then 3
  else if first < 0xf5 then 4
  else 0

/-- The number of the character with a first byte and those that continue it. -/
def codePoint (first : Nat) (continuing : List UInt8) : Nat :=
  let high :=
    match continuing.length with
    | 0 => first
    | 1 => first - 0xc0
    | 2 => first - 0xe0
    | _ => first - 0xf0
  continuing.foldl (fun number byte => number * 64 + (byte.toNat - 0x80)) high

/-- The number of bytes at the front that may continue a character with the first byte. -/
def continuationCount (first : Nat) (bytes : List UInt8) : Nat :=
  let range := secondRange first
  match bytes with
  | [] => 0
  | second :: rest =>
    if range.1 ≤ second.toNat && second.toNat ≤ range.2 then
      1 + (rest.takeWhile isContinuation).length
    else 0

/-- The character that begins with a byte, followed by others. -/
def decodeFirst (first : UInt8) (rest : List UInt8) : Decoded :=
  let length := lengthOf first.toNat
  if length = 0 then .refused 1 .invalidStart
  else
    let continuing := rest.take (length - 1)
    let count := continuationCount first.toNat continuing
    if length = 1 then .character (Char.ofNat first.toNat) 1
    else if count = length - 1 then
      .character (Char.ofNat (codePoint first.toNat continuing)) length
    else if count = rest.length then .refused (count + 1) .unexpectedEnd
    else .refused (count + 1) .invalidContinuation

/-- Decode bytes from a position on, in at most the given number of rounds. -/
def decodeFrom (position : Nat) : Nat → List UInt8 → Except DecodingFault (List Char)
  | 0, _ => .ok []
  | _ + 1, [] => .ok []
  | rounds + 1, first :: rest =>
    match decodeFirst first rest with
    | .character char length =>
      match decodeFrom (position + length) rounds (rest.drop (length - 1)) with
      | .ok chars => .ok (char :: chars)
      | .error fault => .error fault
    | .refused length cause => .error ⟨first, position, length, cause⟩

/-- Decode bytes. -/
def decode (bytes : List UInt8) : Except DecodingFault (List Char) :=
  decodeFrom 0 bytes.length bytes

/-- The text in which every line ends with a line feed. -/
def unifyLines : List Char → List Char
  | [] => []
  | '\r' :: '\n' :: rest => '\n' :: unifyLines rest
  | '\r' :: rest => '\n' :: unifyLines rest
  | char :: rest => char :: unifyLines rest

end Text
end MarkupLint
