import MarkupLint.Diagnostic
import MarkupLint.Failure

/-!
# Scripts

A script says what a rule instance does.  Its immediate actions take no time.  Behind them, it may
have steps that are awaited, which can also sleep or hang.
-/

namespace MarkupLint

/-- What a report points to. -/
inductive Target where
  | nothing
  | described (description : String)
  /-- The element with the index among those that a selector selects; a negative index counts from
  the last one. -/
  | selected (selector : String) (index : Int)
deriving DecidableEq, Repr, Inhabited

/-- An action that takes no time. -/
inductive Action where
  | report (severity : Severity) (message : String) (target : Target)
  /-- Report a failure without failing. -/
  | reportFailure (failure : Failure) (target : Target)
  | finish
  | fail (failure : Failure)
  /-- Report every selected element. -/
  | reportEach (selector : String) (message : String)
  /-- Report what the reporter knows of itself. -/
  | reportStatus
  /-- Come to the end of the script at once. -/
  | leave
  /-- End as cancelled. -/
  | cancel
deriving DecidableEq, Repr, Inhabited

/-- A step that may take time. -/
inductive Step where
  | act (action : Action)
  /-- Sleep for some seconds.  When cancelled there, the script goes on with other steps, and ends
  as cancelled behind them unless it swallows the cancellation. -/
  | sleep (seconds : Rat) (onCancel : List Step) (swallows : Bool)
  /-- Never go on by itself; cancelled like a sleep. -/
  | hang (onCancel : List Step) (swallows : Bool)
deriving Repr, Inhabited

/-- What a rule instance does. -/
structure Script where
  immediate : List Action
  /-- The steps behind the immediate actions, if something is awaited. -/
  awaited? : Option (List Step)
deriving Repr, Inhabited

namespace Step

/-- The steps that follow when a script is cancelled at a step with the others behind it. -/
def afterCancel (step : Step) (rest : List Step) : List Step :=
  match step with
  | act _ => [act .cancel]
  | sleep _ onCancel swallows => onCancel ++ if swallows then rest else [act .cancel]
  | hang onCancel swallows => onCancel ++ if swallows then rest else [act .cancel]

end Step
end MarkupLint
