import MarkupLint.Failure

/-!
# Diagnostics

What a rule instance reports about a document, and the state that follows from the reports.
-/

namespace MarkupLint

/-- How bad a reported thing is. -/
inductive Severity where
  | error
  | warn
  | info
deriving DecidableEq, Repr, Inhabited

namespace Severity

/-- The word for a severity. -/
def word : Severity → String
  | error => "error"
  | warn => "warn"
  | info => "info"

/-- The severity with the word. -/
def ofWord? (word : String) : Option Severity :=
  [error, warn, info].find? fun severity => severity.word == word

/-- The failure to find a severity. -/
def unknown (word : String) : Failure := .ofValue s!"{Text.quoted word} is not a valid Severity"

@[simp] theorem ofWord?_word (severity : Severity) : ofWord? severity.word = some severity := by
  cases severity <;> decide

end Severity

/-- The states of a linting; all but the first are final. -/
inductive LintState where
  | running
  | passing
  | warning
  | error
deriving DecidableEq, Repr, Inhabited

namespace LintState

/-- The word for a state. -/
def word : LintState → String
  | running => "running"
  | passing => "passing"
  | warning => "warning"
  | error => "error"

/-- Whether a linting in this state has come to its end. -/
def isTerminal (state : LintState) : Bool := state != running

/-- The final state for the severities that occur: an error counts most, a warning next. -/
def ofSeverities (severities : List Severity) : LintState :=
  if severities.contains .error then error
  else if severities.contains .warn then warning
  else passing

@[simp] theorem isTerminal_ofSeverities (severities : List Severity) :
    (ofSeverities severities).isTerminal = true := by
  unfold ofSeverities
  split
  · rfl
  · split <;> rfl

end LintState

/-- A report of a rule instance. -/
structure Diagnostic where
  rule : String
  /-- Which of the instances of the rule reports. -/
  index : Int
  severity : Severity
  message : String
  /-- A description of the place that is meant. -/
  node? : Option String
deriving DecidableEq, Repr, Inhabited

end MarkupLint
