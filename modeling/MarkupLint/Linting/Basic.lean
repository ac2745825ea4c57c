import MarkupLint.Collection
import MarkupLint.Linting.Observer
import MarkupLint.Linting.Task
import MarkupLint.Rule.Instance

/-!
# Lintings

A linting runs rule instances on one document.  It is a machine that takes turns: each turn changes
its state and leads to effects, such as further turns, timers, reports and calls of observers.
-/

namespace MarkupLint
namespace Linting

/-- A turn of a linting. -/
inductive Turn where
  /-- Invoke the members, or come to the end when all of them are done. -/
  | run
  /-- Let the member with an index take a turn. -/
  | member (index : Nat) (turn : Member.Turn)
deriving DecidableEq, Repr, Inhabited

/-- What a turn leads to. -/
inductive Effect where
  | soon (turn : Turn)
  | after (seconds : Rat) (turn : Turn)
  | cancel (turn : Turn)
  | log (record : LogRecord)
  /-- The member with an index is invoked, and the log says so. -/
  | invoked (index : Nat) (record : LogRecord)
  /-- An observer has been called in a state with a number of diagnostics. -/
  | called (label : String) (state : LintState) (size : Nat)
  /-- The run has come to its end. -/
  | ended
deriving DecidableEq, Repr, Inhabited

/-- How a run came to its end. -/
inductive Outcome where
  | completed
  /-- The members are done, and observers of the end have failed. -/
  | failed (failure : ObserverFailure)
  /-- A member has ended with a failure that nobody handles while it was being invoked. -/
  | stopped (failure : Failure)
deriving DecidableEq, Repr, Inhabited

/-- How far a run has come. -/
inductive Phase where
  | unstarted
  | scheduled
  /-- The members are being invoked. -/
  | invoking
  /-- The members have been invoked, and not all of them are done. -/
  | waiting
  /-- All members are done; a turn is ready to come to the end. -/
  | settled
  | ended (outcome : Outcome)
deriving DecidableEq, Repr, Inhabited

end Linting

/-- A run of rule instances on one document. -/
structure Linting extends Linting.Setting where
  members : List Linting.Member
  diagnostics : Collection
  state : LintState
  phase : Linting.Phase
  /-- The number of members that are not done, once the run has begun. -/
  pending : Int
  audience : Linting.Audience
deriving Inhabited

namespace Linting

/-- Rules with their configured instances, in order. -/
abbrev RuleSet := Table (List Rule.Instance)

/-- The members for the instances of a rule. -/
def membersOf (document : Document) (rule : String) (instances : List Rule.Instance) :
    List Member :=
  instances.mapIdx fun index configured => .new rule index (configured.script document)

/-- A linting that has not been started. -/
def new
    (document : Document)
    (rules : RuleSet)
    (timeout? : Option Binary64)
    (precision : Precision) :
    Linting where
  name := document.file?.getD "<source>"
  document := document
  timeout? := timeout?
  precision := precision
  members := rules.flatMap fun rule => membersOf document rule.1 rule.2
  diagnostics := rules.keys.foldl Collection.declare .empty
  state := .running
  phase := .unstarted
  pending := 0
  audience := .empty

/-- Whether the linting has been started. -/
def isStarted (linting : Linting) : Bool := linting.phase != .unstarted

/-- The number of turns that the members may need, and more. -/
def cost (linting : Linting) : Nat :=
  linting.members.foldr (fun member total => member.cost + total) 0

/-- A linting in the middle of a turn, with the effects so far. -/
structure Progress where
  linting : Linting
  effects : List Effect
deriving Inhabited

namespace Progress

/-- The beginning of a turn. -/
def start (linting : Linting) : Progress := ⟨linting, []⟩

/-- Have an effect. -/
def emit (progress : Progress) (effect : Effect) : Progress :=
  { progress with effects := progress.effects ++ [effect] }

/-- A record of the log of lintings. -/
def record (level : LogLevel) (message : String) : LogRecord := ⟨level, "svglint.linting", message⟩

/-- Note something in the log. -/
def log (progress : Progress) (level : LogLevel) (message : String) : Progress :=
  progress.emit (.log (record level message))

/-- Change the linting. -/
def modify (progress : Progress) (change : Linting → Linting) : Progress :=
  { progress with linting := change progress.linting }

/-- The member with an index. -/
def member? (progress : Progress) (index : Nat) : Option Member := progress.linting.members[index]?

/-- Put a member in the place of the one with the index. -/
def setMember (progress : Progress) (index : Nat) (member : Member) : Progress :=
  progress.modify fun linting => { linting with members := linting.members.set index member }

/-- Have the effects of calls of observers. -/
def called (progress : Progress) (labels : List String) : Progress :=
  let linting := progress.linting
  labels.foldl (fun progress label =>
    progress.emit (.called label linting.state linting.diagnostics.size)) progress

/-- Count a member as done, and get ready for the end if it was the last one. -/
def countDone (progress : Progress) (index : Nat) : Progress :=
  match progress.member? index with
  | none => progress
  | some member =>
    let progress := progress.modify fun linting => { linting with pending := linting.pending - 1 }
    let linting := progress.linting
    let reporter := member.reporter
    let progress := progress.log .debug
      s!"Rule '{reporter.rule}' (#{reporter.index}) done on {linting.name}, {linting.pending} to go"
    if linting.pending = 0 && linting.phase = .waiting then
      (progress.modify fun linting => { linting with phase := .settled }).emit (.soon .run)
    else progress

/-- Have one effect of a turn of the member with an index. -/
def absorb (index : Nat) (progress : Progress) : Member.Effect → Progress
  | .soon turn => progress.emit (.soon (.member index turn))
  | .after seconds turn => progress.emit (.after seconds (.member index turn))
  | .cancel turn => progress.emit (.cancel (.member index turn))
  | .delivered diagnostic =>
    progress.modify fun linting =>
      { linting with diagnostics := linting.diagnostics.accept diagnostic }
  | .finished => progress.countDone index
  | .log record => progress.emit (.log record)

/-- Take over what the member with an index has done. -/
def follow (progress : Progress) (index : Nat) (course : Member.Course) : Progress :=
  course.effects.foldl (absorb index) (progress.setMember index course.member)

end Progress
end Linting
end MarkupLint
