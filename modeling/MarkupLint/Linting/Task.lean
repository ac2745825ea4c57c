import MarkupLint.Linting.Supervisor

/-!
# Invoking a member and running its task

A member is invoked once: its immediate actions are performed.  It is done when they end the script
or nothing is awaited; otherwise its awaited steps are run as a task, under a supervisor.
-/

namespace MarkupLint
namespace Linting
namespace Member

/-- Begin with the awaited steps. -/
def Course.launch (course : Course) (steps : List Step) : Course :=
  let course := course.modify fun member =>
    { member with task := .fresh steps, supervision := .fresh }
  (course.emit (.soon .task)).emit (.soon .supervisor)

/-- Go on behind the immediate actions, which may have ended the script. -/
def Course.proceed (course : Course) (now : Rat) (ending? : Option Ending)
    (awaited? : Option (List Step)) : Course :=
  match ending?, awaited? with
  | some (.failed failure), _ => (course.use (·.fail now failure none)).use (·.finish)
  | none, some steps => course.launch steps
  | _, _ => course.use (·.finish)

/-- Invoke a member; it answers with the failure that nobody handles, if that stops the run. -/
def invoke (setting : Setting) (now : Rat) (member : Member) : Course × Option Failure :=
  let performed := Action.performAll setting.document now (.start member.reporter)
    member.script.immediate
  let course := (Course.start member).use fun _ => (performed.reporter, performed.effects)
  match performed.ending?.bind Ending.escape? with
  | some failure => (course, some failure)
  | none => (course.proceed now performed.ending? member.script.awaited?, none)

/-- Have the effects of a stretch of the awaited steps, and see to the next turn. -/
def rest (member : Member) (stretch : Stretch) : Course :=
  let member := member.afterStretch stretch
  let course := (Course.start member).absorbAll stretch.effects
  match stretch.task with
  | .rested _ _ => course.emit (.soon .task)
  | .resting (.sleep seconds _ _) _ => course.emit (.after seconds .wake)
  | .ended _ =>
    if member.isLate then course.emit (.soon .late)
    else if member.supervision.isListening then course.emit (.soon .notice)
    else course
  | _ => course

/-- Go on with the awaited steps. -/
def runTask (setting : Setting) (now : Rat) (member : Member) : Course :=
  match member.upcomingSteps? with
  | none => Course.start member
  | some steps => member.rest (Stretch.run setting.document now (.start member.reporter) steps)

/-- Let a member go on that has slept long enough. -/
def wakeTask (member : Member) : Course :=
  let course := Course.start member
  match member.task with
  | .resting step rest =>
    (course.modify fun member => { member with task := .rested step rest }).emit (.soon .task)
  | _ => course

/-- Note the failure of a task that ended too late. -/
def noteLate (setting : Setting) (member : Member) : Course :=
  let course := Course.start member
  match member.task with
  | .ended (.failed failure) =>
    let reporter := member.reporter
    let message := s!"Rule '{reporter.rule}' (#{reporter.index}) failed on {setting.name} " ++
      s!"after it was done: {failure.display}"
    course.emit (.log ⟨.warning, "svglint.linting", message⟩)
  | _ => course

/-- Take a turn at an instant. -/
def take (setting : Setting) (now : Rat) (member : Member) : Turn → Course
  | .task => member.runTask setting now
  | .wake => member.wakeTask
  | .supervisor => member.supervise setting now
  | .idle => member.wakeSupervisor
  | .watch => member.watchReporter
  | .notice => member.wakeSupervisor
  | .late => member.noteLate setting

end Member
end Linting
end MarkupLint
