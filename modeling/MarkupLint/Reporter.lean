import MarkupLint.Diagnostic
import MarkupLint.Failure
import MarkupLint.Log

/-!
# Reporters

A reporter is the channel on which one rule instance reports.  Once the instance is done, further
reports are dropped, and each is noted in the log.
-/

namespace MarkupLint

/-- The channel of one rule instance. -/
structure Reporter where
  rule : String
  index : Int
  isFinished : Bool
  /-- The number of delivered reports. -/
  activity : Nat
  /-- The time of the last delivered report. -/
  lastReport? : Option Rat
deriving DecidableEq, Repr, Inhabited

namespace Reporter

/-- What using a reporter leads to. -/
inductive Effect where
  | delivered (diagnostic : Diagnostic)
  /-- The instance is done from now on. -/
  | finished
  | dropped (record : LogRecord)
deriving DecidableEq, Repr, Inhabited

/-- The channel of an instance that has not reported. -/
def new (rule : String) (index : Int) : Reporter := ⟨rule, index, false, 0, none⟩

/-- The log record of a report that is dropped. -/
def droppedRecord (rule message : String) : LogRecord :=
  ⟨.warning, "svglint.reporter",
    s!"Rule '{rule}' reported after it was done; ignoring: {message}"⟩

/-- Report something. -/
def report
    (reporter : Reporter)
    (now : Rat)
    (severity : Severity)
    (message : String)
    (node? : Option String) :
    Reporter × List Effect :=
  if reporter.isFinished then (reporter, [.dropped (droppedRecord reporter.rule message)])
  else
    ({ reporter with activity := reporter.activity + 1, lastReport? := some now },
      [.delivered ⟨reporter.rule, reporter.index, severity, message, node?⟩])

/-- Report a failure as an error. -/
def fail
    (reporter : Reporter)
    (now : Rat)
    (failure : Failure)
    (node? : Option String) :
    Reporter × List Effect :=
  reporter.report now .error failure.report node?

/-- Be done; being done twice has no further effect. -/
def finish (reporter : Reporter) : Reporter × List Effect :=
  if reporter.isFinished then (reporter, []) else ({ reporter with isFinished := true }, [.finished])

theorem report_of_isFinished
    {reporter : Reporter}
    (finished : reporter.isFinished = true)
    (now : Rat)
    (severity : Severity)
    (message : String)
    (node? : Option String) :
    reporter.report now severity message node? =
      (reporter, [.dropped (droppedRecord reporter.rule message)]) := by
  simp [report, finished]

@[simp] theorem isFinished_finish (reporter : Reporter) :
    reporter.finish.1.isFinished = true := by
  unfold finish
  split <;> simp_all

end Reporter
end MarkupLint
