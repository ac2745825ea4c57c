import MarkupLint.Toml.Fault
import MarkupLint.Value

/-!
# Dates and times

A date may be followed by a time of day, and the time by its distance from universal time.
-/

namespace MarkupLint
namespace Toml

/-- Whether a character is one of the ten common digits. -/
def isDigit (char : Char) : Bool := '0' ≤ char && char ≤ '9'

/-- The number that common digits write. -/
def decimal (digits : List Char) : Nat :=
  Text.ofDigits (digits.map fun digit => digit.toNat - '0'.toNat)

/-- A number of exactly so many digits between two bounds, and what follows. -/
def bounded? (count low high : Nat) (text : List Char) : Option (Nat × List Char) :=
  let digits := text.take count
  let number := decimal digits
  if digits.length = count && digits.all isDigit && low ≤ number && number ≤ high then
    some (number, text.drop count)
  else none

/-- What follows a character. -/
def behind? (char : Char) : List Char → Option (List Char)
  | [] => none
  | first :: rest => if first = char then some rest else none

/-- A date at the front of a text, whose days are not yet compared with the length of the month. -/
def date? (text : List Char) : Option (Date × List Char) := do
  let (year, rest) ← bounded? 4 0 9999 text
  let (month, rest) ← (behind? '-' rest) >>= bounded? 2 1 12
  let (day, rest) ← (behind? '-' rest) >>= bounded? 2 1 31
  return (⟨year, month, day⟩, rest)

/-- The millionths of a second at the front of a text; further digits do not count. -/
def fraction (text : List Char) : Nat × List Char :=
  match text with
  | '.' :: rest =>
    let digits := rest.takeWhile isDigit
    if digits.isEmpty then (0, text)
    else
      let counted := digits.take 6
      (decimal (counted ++ List.replicate (6 - counted.length) '0'), rest.dropWhile isDigit)
  | _ => (0, text)

/-- A time of day at the front of a text. -/
def time? (text : List Char) : Option (TimeOfDay × List Char) := do
  let (hour, rest) ← bounded? 2 0 23 text
  let (minute, rest) ← (behind? ':' rest) >>= bounded? 2 0 59
  let (second, rest) ← (behind? ':' rest) >>= bounded? 2 0 59
  let (microsecond, rest) := fraction rest
  return (⟨hour, minute, second, microsecond⟩, rest)

/-- The minutes of a distance from universal time behind its sign. -/
def minutes? (text : List Char) : Option (Int × List Char) := do
  let (hours, rest) ← bounded? 2 0 23 text
  let (minutes, rest) ← (behind? ':' rest) >>= bounded? 2 0 59
  return (60 * hours + minutes, rest)

/-- The distance from universal time at the front of a text, in minutes. -/
def offset? : List Char → Option (Int × List Char)
  | [] => none
  | first :: rest =>
    if first = 'Z' || first = 'z' then some (0, rest)
    else if first = '+' then minutes? rest
    else if first = '-' then (minutes? rest).map fun read => (-read.1, read.2)
    else none

/-- The time of a day that follows its date, with its distance from universal time if known. -/
def timeOfDate? : List Char → Option ((TimeOfDay × Option Int) × List Char)
  | [] => none
  | first :: rest =>
    if first = 'T' || first = 't' || first = ' ' then
      (time? rest).map fun (time, rest) =>
        match offset? rest with
        | some (offset, rest) => ((time, some offset), rest)
        | none => ((time, none), rest)
    else none

/-- The date or time at the front of a text, if there is one; there may be no such day. -/
def moment? (text : List Char) : Option (Reading Value) :=
  match date? text with
  | some (date, rest) =>
    some <|
      if date.isValid then
        match timeOfDate? rest with
        | some ((time, offset?), rest) => .ok (.dateTime ⟨date, time, offset?⟩, rest)
        | none => .ok (.date date, rest)
      else refuse text .invalidMoment
  | none => (time? text).map fun (time, rest) => .ok (.time time, rest)

end Toml
end MarkupLint
