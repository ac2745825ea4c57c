import MarkupLint.Performance
import MarkupLint.Value

/-!
# Checking elements

A check of elements expects of each of its selectors that some elements, no elements, or a certain
number of elements are selected.
-/

namespace MarkupLint
namespace Rule

/-- What is expected of the number of selected elements. -/
inductive Expectation where
  | some
  | none
  | exactly (count : Nat)
  /-- The least and the greatest number. -/
  | between (low high : Int)
deriving DecidableEq, Repr, Inhabited

/-- A check of elements: selectors with what is expected of them. -/
structure ElementCheck where
  expectations : List (String × Expectation)
deriving DecidableEq, Repr, Inhabited

/-- Why a configuration is no check of elements. -/
inductive ElementFault where
  | notTable (typeName : String)
  | negativeCount (selector : String)
  | emptyRange (selector : String)
  | unknownExpectation (selector : String) (display : String)
  /-- The value that is no expectation cannot be shown. -/
  | notShowable
deriving DecidableEq, Repr, Inhabited

namespace ElementFault

/-- The wording of a fault. -/
def message : ElementFault → String
  | notTable typeName => s!"elm: config must be a table of selectors, got {typeName}"
  | negativeCount selector => s!"elm: count for '{selector}' must not be negative"
  | emptyRange selector => s!"elm: range for '{selector}' has min > max"
  | unknownExpectation selector display =>
    s!"elm: expectation for '{selector}' must be a boolean, an integer " ++
      s!"or a [min, max] pair, got {display}"
  | notShowable => Text.tooManyDigitsToShow

end ElementFault

namespace Expectation

/-- The expectation of a selector that a value stands for. -/
def ofValue (selector : String) : Value → Except ElementFault Expectation
  | .boolean true => .ok .some
  | .boolean false => .ok .none
  | .integer count =>
    if count < 0 then .error (.negativeCount selector) else .ok (.exactly count.toNat)
  | value =>
    match value.items? with
    | Option.some [.integer low, .integer high] =>
      if low > high then .error (.emptyRange selector) else .ok (.between low high)
    | _ =>
      if value.isShowable then .error (.unknownExpectation selector value.display)
      else .error .notShowable

/-- Whether a number of selected elements is as expected. -/
def isMet (expectation : Expectation) (count : Nat) : Bool :=
  match expectation with
  | .some => 0 < count
  | .none => count = 0
  | .exactly expected => count = expected
  | .between low high => low ≤ count && count ≤ high

/-- A report about a number of elements, which may be too long to be shown. -/
def countReport (bounds : List Int) (message : String) : Action :=
  if bounds.all Text.isShowable then .report .error message .nothing
  else .fail (.ofValue Text.tooManyDigitsToShow)

/-- What is reported about the elements that a selector selects. -/
def reports (expectation : Expectation) (selector : String) (nodes : List Node) : List Action :=
  let count := nodes.length
  if expectation.isMet count then []
  else
    match expectation with
    | .some => [.report .error s!"Expected element '{selector}', none found" .nothing]
    | .none =>
      nodes.map fun node =>
        .report .error s!"Element '{selector}' is not allowed" (.described node.element.describe)
    | .exactly expected =>
      [countReport [expected] s!"Found {count} elements for '{selector}', expected {expected}"]
    | .between low high =>
      [countReport [low, high]
        s!"Found {count} elements for '{selector}', expected between {low} and {high}"]

theorem reports_of_isMet
    {expectation : Expectation}
    {nodes : List Node}
    (met : expectation.isMet nodes.length = true)
    (selector : String) :
    expectation.reports selector nodes = [] := by
  simp [reports, met]

end Expectation

namespace ElementCheck

/-- The check that a value stands for. -/
def ofValue : Value → Except ElementFault ElementCheck
  | .table entries => do
    let expectations ← entries.mapM fun entry =>
      (Expectation.ofValue entry.1 entry.2).map (entry.1, ·)
    return ⟨expectations⟩
  | value => .error (.notTable value.typeName)

/-- What the check does for one selector of a document. -/
def actionsFor (document : Document) (selector : String) (expectation : Expectation) :
    List Action :=
  match document.select selector with
  | .error refusal => [.fail refusal.failure]
  | .ok nodes => expectation.reports selector nodes

/-- What the check does on a document. -/
def actions (check : ElementCheck) (document : Document) : List Action :=
  check.expectations.flatMap fun entry => actionsFor document entry.1 entry.2

end ElementCheck
end Rule
end MarkupLint
