import MarkupLint.Linting.Course
import MarkupLint.Number.Decimal

/-!
# Supervision

The supervisor of a member lets its reporter be done when the task ends.  When the reporter is done
before, the supervisor leaves the task alone; when the member has been idle too long, it cancels the
task and reports an error.
-/

namespace MarkupLint
namespace Linting

/-- The seconds that are left until a member has been idle too long, if that is limited.  The time
counts from the last report, or from the beginning of the supervision if that is later. -/
def idleLeft?
    (timeout? : Option Binary64)
    (precision : Precision)
    (now since : Rat)
    (lastReport? : Option Rat) :
    Option Rat :=
  match timeout? with
  | none => none
  | some .nan => some 0
  | some (.infinite isNegative) => if isNegative then some 0 else none
  | some (.finite isNegative significand exponent) =>
    let seconds := ((Binary64.finite isNegative significand exponent).toRat?).getD 0
    let report := lastReport?.getD since
    let last := if since ≤ report then report else since
    let left := precision.round (precision.round (last + seconds) - now)
    some (if 0 ≤ left then left else 0)

/-- The report that a member has been idle too long. -/
def idleMessage (timeout? : Option Binary64) : String :=
  let seconds := (timeout?.map Binary64.briefText).getD ""
  s!"Rule did not finish after {seconds}s without reporting"

namespace Member
namespace Course

/-- Let the supervisor wait until the task ends, the reporter is done, or the member has been idle
too long. -/
def await (course : Course) (since : Rat) (idleLeft? : Option Rat) : Course :=
  let course := (course.modify fun member =>
    { member with supervision := .waiting since }).emit (.cancel .idle)
  match idleLeft? with
  | some seconds => course.emit (.after seconds .idle)
  | none => course

/-- Let the reporter be done: the task has ended. -/
def settle (course : Course) (now : Rat) (ending : Ending) : Course :=
  let course := course.modify fun member => { member with supervision := .ended, watch := .ended }
  let course :=
    match ending with
    | .completed => course
    | .failed failure => course.use (·.fail now failure none)
    | .cancelled => course.use (·.report now .error "Rule was cancelled before it finished" none)
  course.use (·.finish)

/-- Leave a task alone that has not ended. -/
def abandon (course : Course) : Course :=
  (course.modify fun member =>
    { member with supervision := .ended, isLate := true, watch := .ended }).emit (.cancel .idle)

/-- Cancel the task. -/
def cancelTask (course : Course) : Course :=
  match course.member.task with
  | .resting step rest =>
    let course := course.modify fun member =>
      { member with task := .rested step rest, isCancelling := true }
    (course.emit (.cancel .wake)).emit (.soon .task)
  | .fresh _ => course.modify fun member => { member with isCancelling := true }
  | .rested _ _ => course.modify fun member => { member with isCancelling := true }
  | _ => course

/-- Stop a member that has been idle too long. -/
def expire (course : Course) (setting : Setting) (now : Rat) : Course :=
  let message := idleMessage setting.timeout?
  let course := course.cancelTask.use (·.report now .error message none)
  (course.use (·.finish)).abandon

end Course

/-- Go on with the supervisor. -/
def supervise (setting : Setting) (now : Rat) (member : Member) : Course :=
  let left := fun since =>
    idleLeft? setting.timeout? setting.precision now since member.reporter.lastReport?
  let course := Course.start member
  match member.supervision with
  | .fresh =>
    match member.task.ending? with
    | some ending => course.settle now ending
    | none =>
      let course := (course.modify fun member => { member with watch := .fresh }).emit
        (.soon .watch)
      course.await now (left now)
  | .woken since =>
    match member.task.ending? with
    | some ending => (course.emit (.cancel .idle)).settle now ending
    | none =>
      if member.reporter.isFinished then course.abandon
      else if left since = some 0 then course.expire setting now
      else course.await since (left since)
  | _ => course

/-- Tell the supervisor that it need not wait any longer. -/
def wakeSupervisor (member : Member) : Course :=
  let course := Course.start member
  match member.supervision with
  | .waiting since =>
    let course := course.modify fun member => { member with supervision := .woken since }
    (course.emit (.cancel .idle)).emit (.soon .supervisor)
  | _ => course

/-- Go on with the watch on the reporter: it ends when the reporter is done. -/
def watchReporter (member : Member) : Course :=
  let course := Course.start member
  let isOver :=
    (member.watch = .fresh && member.reporter.isFinished) || member.watch = .woken
  if isOver then
    (course.modify fun member => { member with watch := .ended }).emit (.soon .notice)
  else if member.watch = .fresh then course.modify fun member => { member with watch := .waiting }
  else course

end Member
end Linting
end MarkupLint
