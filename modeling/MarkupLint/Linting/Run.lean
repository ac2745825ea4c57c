import MarkupLint.Linting.Basic

/-!
# Running a linting

All members are invoked in one turn, in order; a failure that nobody handles stops the run there.  A
member is done when its immediate actions end the script, or when its awaited steps have come to their
end.  When all members are done, the
diagnostics are frozen and the observers of the end are called.
-/

namespace MarkupLint
namespace Linting
namespace Progress

/-- Come to the end of the run. -/
def close (progress : Progress) (outcome : Outcome) : Progress :=
  (progress.modify fun linting => { linting with phase := .ended outcome }).emit .ended

/-- Freeze the diagnostics and call the observers of the end. -/
def finish (progress : Progress) : Progress :=
  let progress := progress.modify fun linting =>
    let frozen := linting.diagnostics.freeze
    { linting with diagnostics := frozen, state := frozen.state }
  let linting := progress.linting
  let progress := progress.log .debug s!"Linting of {linting.name} finished: {linting.state.word}"
  let round := linting.audience.announce .done
  let progress := progress.modify fun linting => { linting with audience := round.audience }
  let progress := progress.called round.labels
  match ObserverFailure.ofRound? .done linting.name round with
  | none => progress.close .completed
  | some failure => progress.close (.failed failure)

/-- Begin to invoke the members. -/
def enter (progress : Progress) : Progress :=
  progress.modify fun linting =>
    { linting with phase := .invoking, pending := linting.members.length }

/-- Invoke the member with an index; it answers with the failure that stops the run, if there is
one. -/
def invoke (progress : Progress) (index : Nat) (now : Rat) : Progress × Option Failure :=
  match progress.member? index with
  | none => (progress, none)
  | some member =>
    let reporter := member.reporter
    let linting := progress.linting
    let progress := progress.emit (.invoked index (record .debug
      s!"Running rule '{reporter.rule}' (#{reporter.index}) on {linting.name}"))
    let invoked := member.invoke linting.toSetting now
    (progress.follow index invoked.1, invoked.2)

/-- Invoke members one after another until one of them stops the run. -/
def invokeAll (progress : Progress) (now : Rat) : List Nat → Progress × Option Failure
  | [] => (progress, none)
  | index :: rest =>
    let invoked := progress.invoke index now
    if invoked.2.isNone then invokeAll invoked.1 now rest else invoked

/-- Invoke all members, in order, until one of them stops the run. -/
def invokeEvery (progress : Progress) (now : Rat) : Progress × Option Failure :=
  progress.enter.invokeAll now (List.range progress.linting.members.length)

/-- Begin the run. -/
def begin (progress : Progress) (now : Rat) : Progress :=
  let invoked := progress.invokeEvery now
  match invoked.2 with
  | some failure => invoked.1.close (.stopped failure)
  | none =>
    if invoked.1.linting.pending > 0 then
      invoked.1.modify fun linting => { linting with phase := .waiting }
    else invoked.1.finish

/-- Let the member with an index take a turn. -/
def takeMember (progress : Progress) (index : Nat) (now : Rat) (turn : Member.Turn) : Progress :=
  match progress.member? index with
  | none => progress
  | some member => progress.follow index (member.take progress.linting.toSetting now turn)

/-- Take a turn. -/
def take (progress : Progress) (now : Rat) : Turn → Progress
  | .run =>
    match progress.linting.phase with
    | .scheduled => progress.begin now
    | .settled => progress.finish
    | _ => progress
  | .member index turn => progress.takeMember index now turn

end Progress

/-- Take a turn at an instant. -/
def take (linting : Linting) (now : Rat) (turn : Turn) : Progress :=
  (Progress.start linting).take now turn

/-- Why a request to a linting fails. -/
inductive Refusal where
  | alreadyStarted (name : String)
  | notStarted (name : String)
  /-- Observers have failed. -/
  | failed (failure : ObserverFailure)
  /-- The run has been stopped by a failure that nobody handles. -/
  | stopped (failure : Failure)
deriving DecidableEq, Repr, Inhabited

/-- The failure that a refusal amounts to. -/
def Refusal.failure : Refusal → Failure
  | alreadyStarted name => .of "RuntimeError" [s!"Linting of {name} was already started"]
  | notStarted name => .of "RuntimeError" [s!"Linting of {name} has not been started"]
  | failed (.grouped group) => .of "ExceptionGroup" [group.report]
  | failed (.single failure) => failure
  | stopped failure => failure

/-- Start the linting: its run is scheduled and the observers of the start are called. -/
def start (linting : Linting) : Progress × Option Refusal :=
  if linting.isStarted then (Progress.start linting, some (.alreadyStarted linting.name))
  else
    let round := linting.audience.announce .started
    let progress := (Progress.start { linting with phase := .scheduled }).emit (.soon .run)
    let progress := progress.modify fun linting => { linting with audience := round.audience }
    let progress := progress.called round.labels
    (progress, (ObserverFailure.ofRound? .started linting.name round).map .failed)

/-- Subscribe an observer; the failure of an observer that is called at once is passed on. -/
def subscribe (linting : Linting) (milestone : Milestone) (observer : Observer) :
    Progress × Option Failure :=
  let call := linting.audience.subscribe milestone observer
  let progress := Progress.start { linting with audience := call.audience }
  (progress.called call.labels, call.failure?)

/-- The state that waiting for the end answers with, once there is an answer. -/
def answer? (linting : Linting) : Option (Except Refusal LintState) :=
  match linting.phase with
  | .unstarted => some (.error (.notStarted linting.name))
  | .ended .completed => some (.ok linting.state)
  | .ended (.failed failure) => some (.error (.failed failure))
  | .ended (.stopped failure) => some (.error (.stopped failure))
  | _ => none

end Linting
end MarkupLint
