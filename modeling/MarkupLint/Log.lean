/-!
# Log records

What the parts of the program note down while they work.
-/

namespace MarkupLint

/-- How much a log record matters. -/
inductive LogLevel where
  | debug
  | info
  | warning
  | error
deriving DecidableEq, Repr, Inhabited

namespace LogLevel

/-- The rank of a level. -/
def rank : LogLevel → Nat
  | debug => 0
  | info => 1
  | warning => 2
  | error => 3

/-- The name of a level. -/
def name : LogLevel → String
  | debug => "DEBUG"
  | info => "INFO"
  | warning => "WARNING"
  | error => "ERROR"

end LogLevel

/-- A log record. -/
structure LogRecord where
  level : LogLevel
  /-- The part of the program that speaks. -/
  channel : String
  message : String
deriving DecidableEq, Repr, Inhabited

namespace LogRecord

/-- The channel and the message. -/
def line (record : LogRecord) : String := s!"{record.channel}: {record.message}"

/-- The level, the channel and the message. -/
def fullLine (record : LogRecord) : String := s!"{record.level.name} {record.line}"

/-- Whether the record has the level or a higher one. -/
def isAtLeast (level : LogLevel) (record : LogRecord) : Bool := level.rank ≤ record.level.rank

end LogRecord
end MarkupLint
