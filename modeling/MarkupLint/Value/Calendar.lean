/-!
# Dates and times of day

Dates and times as a configuration may hold them, and the text that shows how they are composed.
-/

namespace MarkupLint

/-- A day of a year. -/
structure Date where
  year : Nat
  month : Nat
  day : Nat
deriving DecidableEq, Repr, Inhabited

/-- A time of day. -/
structure TimeOfDay where
  hour : Nat
  minute : Nat
  second : Nat
  microsecond : Nat
deriving DecidableEq, Repr, Inhabited

/-- A time of a day, with the minutes by which local time is ahead of universal time if they are
known. -/
structure DateTime where
  date : Date
  time : TimeOfDay
  offset? : Option Int
deriving DecidableEq, Repr, Inhabited

namespace Date

/-- Whether the year has a leap day. -/
def isLeap (year : Nat) : Bool := year % 4 == 0 && (year % 100 != 0 || year % 400 == 0)

/-- The number of days of a month. -/
def monthLength (year month : Nat) : Nat :=
  if month == 2 then (if isLeap year then 29 else 28)
  else if [4, 6, 9, 11].contains month then 30 else 31

/-- Whether there is such a day. -/
def isValid (date : Date) : Bool :=
  1 ≤ date.year && date.year ≤ 9999 && 1 ≤ date.month && date.month ≤ 12 && 1 ≤ date.day &&
    date.day ≤ monthLength date.year date.month

/-- The numbers that make up a date. -/
def parts (date : Date) : List Nat := [date.year, date.month, date.day]

end Date

namespace TimeOfDay

/-- Whether there is such a time. -/
def isValid (time : TimeOfDay) : Bool :=
  time.hour < 24 && time.minute < 60 && time.second < 60 && time.microsecond < 1000000

/-- The numbers that make up a time, without zeros in the place of seconds and parts of them. -/
def parts (time : TimeOfDay) : List Nat :=
  if time.microsecond != 0 then [time.hour, time.minute, time.second, time.microsecond]
  else if time.second != 0 then [time.hour, time.minute, time.second]
  else [time.hour, time.minute]

end TimeOfDay

namespace DateTime

/-- Numbers between parentheses, with a text behind them. -/
def call (name : String) (numbers : List Nat) (behind : String) : String :=
  let listed := String.intercalate ", " (numbers.map toString)
  s!"datetime.{name}({listed}{behind})"

/-- How an offset is composed: of days, which are negative or none, and seconds. -/
def offsetDisplay (offset : Int) : String :=
  if offset == 0 then "datetime.timezone.utc"
  else
    let days := if offset < 0 then "days=-1, " else ""
    let seconds := (if offset < 0 then offset + 1440 else offset) * 60
    s!"datetime.timezone(datetime.timedelta({days}seconds={seconds}))"

/-- How a date with a time is composed. -/
def display (moment : DateTime) : String :=
  let zone := (moment.offset?.map fun offset => ", tzinfo=" ++ offsetDisplay offset).getD ""
  call "datetime" (moment.date.parts ++ moment.time.parts) zone

end DateTime
end MarkupLint
