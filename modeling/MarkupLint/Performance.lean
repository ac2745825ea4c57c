import MarkupLint.Reporter
import MarkupLint.Script
import MarkupLint.Selector.Select

/-!
# Performing actions

Actions are performed on a reporter, for a document, at one instant.  They go on until one of them
ends the script.
-/

namespace MarkupLint

/-- How performing actions comes to an end before the last of them. -/
inductive Ending where
  | completed
  | failed (failure : Failure)
  | cancelled
deriving DecidableEq, Repr, Inhabited

/-- The failure that goes past those who handle the failures of an instance that is being invoked, if
the actions of the instance have ended by one. -/
def Ending.escape? : Ending → Option Failure
  | completed => none
  | failed failure => if failure.isException then none else some failure
  | cancelled => some .cancelled

/-- What performing actions leads to. -/
structure Performance where
  reporter : Reporter
  /-- The effects in order. -/
  effects : List Reporter.Effect
  /-- How the script ended, unless it goes on. -/
  ending? : Option Ending
deriving Repr, Inhabited

namespace Performance

/-- Nothing performed. -/
def start (reporter : Reporter) : Performance := ⟨reporter, [], none⟩

/-- Go on with a use of the reporter. -/
def use (performance : Performance) (act : Reporter → Reporter × List Reporter.Effect) :
    Performance :=
  let used := act performance.reporter
  { performance with reporter := used.1, effects := performance.effects ++ used.2 }

/-- End the script. -/
def stop (performance : Performance) (ending : Ending) : Performance :=
  { performance with ending? := some ending }

/-- End the script with a failure. -/
def fail (performance : Performance) (failure : Failure) : Performance :=
  performance.stop (if failure.isCancellation then .cancelled else .failed failure)

end Performance

namespace Target

/-- The item of a list with an index; a negative index counts from the end. -/
def item? (items : List α) (index : Int) : Option α :=
  if index < 0 then
    if (-index).toNat ≤ items.length then items[items.length - (-index).toNat]? else none
  else items[index.toNat]?

/-- The description of what a report points to. -/
def resolve (document : Document) : Target → Except Failure (Option String)
  | nothing => .ok none
  | described description => .ok (some description)
  | selected selector index =>
    match document.select selector with
    | .error refusal => .error refusal.failure
    | .ok nodes =>
      match item? nodes index with
      | some node => .ok (some node.element.describe)
      | none => .error (.of "IndexError" ["list index out of range"])

end Target

namespace Action

/-- The report that a reporter makes of itself. -/
def statusMessage (reporter : Reporter) : String :=
  let finished := if reporter.isFinished then "True" else "False"
  s!"activity={reporter.activity} finished={finished}"

/-- Perform an action. -/
def perform (document : Document) (now : Rat) (before : Performance) : Action → Performance
  | report severity message target =>
    match target.resolve document with
    | .error failure => before.fail failure
    | .ok node? => before.use (·.report now severity message node?)
  | reportFailure failure target =>
    match target.resolve document with
    | .error other => before.fail other
    | .ok node? => before.use (·.fail now failure node?)
  | finish => before.use (·.finish)
  | fail failure => before.fail failure
  | reportEach selector message =>
    match document.select selector with
    | .error refusal => before.fail refusal.failure
    | .ok nodes =>
      nodes.foldl (fun performance node =>
        performance.use (·.report now .info message (some node.element.describe))) before
  | reportStatus =>
    before.use fun reporter => reporter.report now .info (statusMessage reporter) none
  | leave => before.stop .completed
  | cancel => before.stop .cancelled

/-- Perform actions until one of them ends the script. -/
def performAll (document : Document) (now : Rat) (before : Performance) :
    List Action → Performance
  | [] => before
  | action :: rest =>
    let after := action.perform document now before
    if after.ending?.isSome then after else performAll document now after rest

end Action
end MarkupLint
