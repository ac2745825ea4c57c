import MarkupLint.Failure

/-!
# Observers

An observer is called once when a linting reaches a milestone, or at once if the milestone lies
behind.  Being called, it may subscribe other observers, see what becomes of those that are called at
once, and fail.
-/

namespace MarkupLint
namespace Linting

/-- What observers wait for. -/
inductive Milestone where
  | started
  | done
deriving DecidableEq, Repr, Inhabited

namespace Milestone

/-- The word for a milestone. -/
def word : Milestone → String
  | started => "started"
  | done => "done"

/-- The milestone with the word. -/
def ofWord? (word : String) : Option Milestone :=
  [started, done].find? fun milestone => milestone.word == word

/-- The failure to find a milestone. -/
def unknown (word : String) : Failure := .ofValue s!"{Text.quoted word} is not a valid LintingEvent"

end Milestone

/-- What an observer does when it is called. -/
inductive Conduct where
  /-- Come to the end. -/
  | leave
  | fail (failure : Failure)
  /-- Subscribe another observer, known by a label.  If that is called at once, it may fail; with that
  in view, go on. -/
  | subscribe (milestone : Milestone) (label : String) (other : Conduct)
      (next : Option Failure → Conduct)
deriving Inhabited

/-- An observer, known by a label. -/
structure Observer where
  label : String
  conduct : Conduct
deriving Inhabited

namespace Conduct

/-- Subscribe another observer and go on unless that fails: its failure becomes one's own. -/
def relay (milestone : Milestone) (other : Observer) (rest : Conduct) : Conduct :=
  .subscribe milestone other.label other.conduct fun
    | some failure => .fail failure
    | none => rest

end Conduct

/-- The milestones behind and the observers that wait for the others. -/
structure Audience where
  isStarted : Bool
  isDone : Bool
  /-- The observers that wait for the start, in the order of subscription. -/
  forStart : List Observer
  forEnd : List Observer
deriving Inhabited

namespace Audience

/-- Nobody waits, and nothing has happened. -/
def empty : Audience := ⟨false, false, [], []⟩

/-- Whether a milestone lies behind. -/
def hasReached (audience : Audience) : Milestone → Bool
  | .started => audience.isStarted
  | .done => audience.isDone

/-- Let an observer wait for a milestone. -/
def enqueue (audience : Audience) (milestone : Milestone) (observer : Observer) : Audience :=
  match milestone with
  | .started => { audience with forStart := audience.forStart ++ [observer] }
  | .done => { audience with forEnd := audience.forEnd ++ [observer] }

/-- Take out the observers that wait for a milestone, which now lies behind. -/
def reach (audience : Audience) (milestone : Milestone) : Audience × List Observer :=
  match milestone with
  | .started => ({ audience with isStarted := true, forStart := [] }, audience.forStart)
  | .done => ({ audience with isDone := true, forEnd := [] }, audience.forEnd)

end Audience

/-- What calling an observer leads to: the labels of the observers called, in order, and the
failure that escapes. -/
structure Call where
  audience : Audience
  labels : List String
  failure? : Option Failure
deriving Inhabited

/-- Do what an observer does. -/
def Conduct.run : Conduct → Audience → Call
  | leave, audience => ⟨audience, [], none⟩
  | fail failure, audience => ⟨audience, [], some failure⟩
  | subscribe milestone label other next, audience =>
    if audience.hasReached milestone then
      let inner := other.run audience
      let behind := (next inner.failure?).run inner.audience
      ⟨behind.audience, label :: (inner.labels ++ behind.labels), behind.failure?⟩
    else (next none).run (audience.enqueue milestone ⟨label, other⟩)

/-- Call an observer. -/
def Observer.call (observer : Observer) (audience : Audience) : Call :=
  let called := observer.conduct.run audience
  ⟨called.audience, observer.label :: called.labels, called.failure?⟩

namespace Audience

/-- Subscribe an observer: it is called at once if the milestone lies behind. -/
def subscribe (audience : Audience) (milestone : Milestone) (observer : Observer) : Call :=
  if audience.hasReached milestone then observer.call audience
  else ⟨audience.enqueue milestone observer, [], none⟩

/-- What calling several observers leads to. -/
structure Round where
  audience : Audience
  labels : List String
  /-- The failures that have been handled. -/
  failures : List Failure
  /-- The failure that nobody handles and that has ended the round. -/
  escape? : Option Failure
deriving Inhabited

/-- Call observers one after another.  All of them are called unless one of them fails with what nobody
handles. -/
def callAll (audience : Audience) : List Observer → Round
  | [] => ⟨audience, [], [], none⟩
  | observer :: rest =>
    let first := observer.call audience
    match first.failure?.filter (!·.isException) with
    | some failure => ⟨first.audience, first.labels, [], some failure⟩
    | none =>
      let others := callAll first.audience rest
      ⟨others.audience, first.labels ++ others.labels, first.failure?.toList ++ others.failures,
        others.escape?⟩

/-- Reach a milestone: call the observers that wait for it, in the order of subscription. -/
def announce (audience : Audience) (milestone : Milestone) : Round :=
  let reached := audience.reach milestone
  reached.1.callAll reached.2

end Audience

/-- Failures of observers, raised together. -/
structure FailureGroup where
  message : String
  failures : List Failure
deriving DecidableEq, Repr, Inhabited

namespace FailureGroup

/-- The message with the number of failures. -/
def report (group : FailureGroup) : String :=
  let count := group.failures.length
  let plural := if count = 1 then "" else "s"
  s!"{group.message} ({count} sub-exception{plural})"

end FailureGroup

/-- What is raised when observers have failed. -/
inductive ObserverFailure where
  /-- The failures that have been handled, together. -/
  | grouped (group : FailureGroup)
  /-- The failure that nobody handles. -/
  | single (failure : Failure)
deriving DecidableEq, Repr, Inhabited

/-- What is raised behind a round of calls, if observers have failed. -/
def ObserverFailure.ofRound? (milestone : Milestone) (name : String) (round : Audience.Round) :
    Option ObserverFailure :=
  match round.escape?, round.failures with
  | some failure, _ => some (.single failure)
  | none, [] => none
  | none, failures =>
    some (.grouped
      ⟨s!"{failures.length} {milestone.word} observer(s) of {name} failed", failures⟩)

end Linting
end MarkupLint
