import MarkupLint.Performance
import MarkupLint.Schedule

/-!
# Members of a linting

A member of a linting is one configured rule instance.  What it awaits is run as a task; a
supervisor waits until the task ends, the reporter is done, or the instance has been idle too long;
and a watch on the reporter tells the supervisor when the reporter is done.
-/

namespace MarkupLint
namespace Linting

/-- What stays the same while a linting goes on. -/
structure Setting where
  name : String
  document : Document
  /-- The seconds that an instance may be idle. -/
  timeout? : Option Binary64
  precision : Precision
deriving Repr, Inhabited

/-- How far the awaited steps of a member have come. -/
inductive Task where
  | absent
  /-- The steps have not begun; a turn is ready for them. -/
  | fresh (steps : List Step)
  /-- The member sleeps or hangs. -/
  | resting (step : Step) (rest : List Step)
  /-- The member need not sleep any longer; a turn is ready for it. -/
  | rested (step : Step) (rest : List Step)
  | ended (ending : Ending)
deriving Repr, Inhabited

namespace Task

/-- How the task ended, if it has. -/
def ending? : Task → Option Ending
  | ended ending => some ending
  | _ => none

end Task

/-- How far the supervisor of a member has come. -/
inductive Supervision where
  | absent
  | fresh
  /-- The supervisor, which began at the instant, waits. -/
  | waiting (since : Rat)
  /-- The supervisor need not wait any longer; a turn is ready for it. -/
  | woken (since : Rat)
  | ended
deriving DecidableEq, Repr, Inhabited

namespace Supervision

/-- Whether the supervisor has asked to be told when the task ends. -/
def isListening : Supervision → Bool
  | waiting _ => true
  | woken _ => true
  | _ => false

end Supervision

/-- How far the watch on the reporter of a member has come. -/
inductive Watch where
  | absent
  | fresh
  | waiting
  | woken
  | ended
deriving DecidableEq, Repr, Inhabited

/-- A configured rule instance in a linting. -/
structure Member where
  script : Script
  reporter : Reporter
  task : Task
  /-- Whether the task is to be cancelled at its next turn. -/
  isCancelling : Bool
  supervision : Supervision
  watch : Watch
  /-- Whether a failure of the task that comes too late to be reported is noted in the log. -/
  isLate : Bool
deriving Repr, Inhabited

namespace Member

/-- A member that has not been invoked. -/
def new (rule : String) (index : Nat) (script : Script) : Member :=
  ⟨script, .new rule index, .absent, false, .absent, .absent, false⟩

end Member

/-- What awaited steps lead to up to their next rest or their end. -/
structure Stretch where
  reporter : Reporter
  effects : List Reporter.Effect
  task : Task
deriving Repr, Inhabited

namespace Stretch

/-- Run steps up to the next rest or the end. -/
def run (document : Document) (now : Rat) (before : Performance) : List Step → Stretch
  | [] => ⟨before.reporter, before.effects, .ended .completed⟩
  | .act action :: rest =>
    let after := action.perform document now before
    match after.ending? with
    | some ending => ⟨after.reporter, after.effects, .ended ending⟩
    | none => run document now after rest
  | .sleep seconds onCancel swallows :: rest =>
    let step := Step.sleep seconds onCancel swallows
    ⟨before.reporter, before.effects,
      if seconds ≤ 0 then .rested step rest else .resting step rest⟩
  | .hang onCancel swallows :: rest =>
    ⟨before.reporter, before.effects, .resting (.hang onCancel swallows) rest⟩

end Stretch

namespace Member

/-- The steps that a task goes on with at its next turn, if it is ready for one: those behind its
rest, or those that follow a cancellation; a task that is cancelled before it begins ends at once. -/
def upcomingSteps? (member : Member) : Option (List Step) :=
  match member.task with
  | .fresh steps => some (if member.isCancelling then [.act .cancel] else steps)
  | .rested step rest => some (if member.isCancelling then step.afterCancel rest else rest)
  | _ => none

/-- The member after a stretch of its awaited steps. -/
def afterStretch (member : Member) (stretch : Stretch) : Member :=
  { member with reporter := stretch.reporter, task := stretch.task, isCancelling := false }

end Member

mutual

/-- The number of turns that a step may need, and more. -/
def stepCost : Step → Nat
  | .act _ => 1
  | .sleep _ onCancel _ => 4 + stepsCost onCancel
  | .hang onCancel _ => 4 + stepsCost onCancel

/-- The number of turns that steps may need, and more. -/
def stepsCost : List Step → Nat
  | [] => 0
  | step :: rest => stepCost step + stepsCost rest

end

namespace Member

/-- The number of turns that a member may need, and more. -/
def cost (member : Member) : Nat := 64 + 12 * stepsCost (member.script.awaited?.getD [])

end Member
end Linting
end MarkupLint
