import MarkupLint.Linting.Member

/-!
# Turns of a member

A member takes turns of its own: each turn changes the member and leads to effects, such as further
turns, timers and reports.
-/

namespace MarkupLint
namespace Linting
namespace Member

/-- A turn of a member. -/
inductive Turn where
  /-- Go on with the awaited steps. -/
  | task
  /-- The member has slept long enough. -/
  | wake
  /-- Go on with the supervisor. -/
  | supervisor
  /-- The supervisor has waited long enough. -/
  | idle
  /-- Go on with the watch on the reporter. -/
  | watch
  /-- Tell the supervisor that the task or the watch has ended. -/
  | notice
  /-- Look at the end of a task that came too late. -/
  | late
deriving DecidableEq, Repr, Inhabited

/-- What a turn of a member leads to. -/
inductive Effect where
  | soon (turn : Turn)
  | after (seconds : Rat) (turn : Turn)
  | cancel (turn : Turn)
  | delivered (diagnostic : Diagnostic)
  /-- The member is done from now on. -/
  | finished
  | log (record : LogRecord)
deriving DecidableEq, Repr, Inhabited

/-- A member in the middle of a turn, with the effects so far. -/
structure Course where
  member : Member
  effects : List Effect
deriving Repr, Inhabited

namespace Course

/-- The beginning of a turn. -/
def start (member : Member) : Course := ⟨member, []⟩

/-- Have an effect. -/
def emit (course : Course) (effect : Effect) : Course :=
  { course with effects := course.effects ++ [effect] }

/-- Change the member. -/
def modify (course : Course) (change : Member → Member) : Course :=
  { course with member := change course.member }

/-- Wake the watch on the reporter, which has become done. -/
def wakeWatch (course : Course) : Course :=
  if course.member.watch = .waiting then
    (course.modify fun member => { member with watch := .woken }).emit (.soon .watch)
  else course

/-- Have one effect of the reporter. -/
def absorb (course : Course) : Reporter.Effect → Course
  | .delivered diagnostic => course.emit (.delivered diagnostic)
  | .finished => course.wakeWatch.emit .finished
  | .dropped record => course.emit (.log record)

/-- Have the effects of the reporter, in order. -/
def absorbAll (course : Course) (effects : List Reporter.Effect) : Course :=
  effects.foldl absorb course

/-- Use the reporter. -/
def use (course : Course) (act : Reporter → Reporter × List Reporter.Effect) : Course :=
  let used := act course.member.reporter
  (course.modify fun member => { member with reporter := used.1 }).absorbAll used.2

end Course
end Member
end Linting
end MarkupLint
