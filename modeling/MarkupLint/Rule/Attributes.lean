import MarkupLint.Performance
import MarkupLint.Value

/-!
# Checking attributes

A check of attributes looks at the elements that its selector selects.  It requires, forbids or
restricts attributes by name, and with a white list it forbids all attributes it does not name.
-/

namespace MarkupLint
namespace Rule

/-- What is demanded of an attribute. -/
inductive Constraint where
  | required
  | forbidden
  | exactly (value : String)
  /-- One of some values, which are sorted and differ from each other. -/
  | oneOf (values : List String)
deriving DecidableEq, Repr, Inhabited

/-- A check of attributes. -/
structure AttributeCheck where
  selector : String
  constraints : List (String × Constraint)
  isWhitelist : Bool
deriving DecidableEq, Repr, Inhabited

/-- Why a configuration is no check of attributes. -/
inductive AttributeFault where
  | notTable (typeName : String)
  | selectorNotText
  | whitelistNotBoolean
  | unknownConstraint (name : String) (display : String)
  /-- The value that is no constraint cannot be shown. -/
  | notShowable
deriving DecidableEq, Repr, Inhabited

/-- The key of the selector in a configuration. -/
def selectorKey : String := "rule::selector"

/-- The key of the white list in a configuration. -/
def whitelistKey : String := "rule::whitelist"

namespace AttributeFault

/-- The wording of a fault. -/
def message : AttributeFault → String
  | notTable typeName => s!"attr: config must be a table of attributes, got {typeName}"
  | selectorNotText => s!"attr: '{selectorKey}' must be a string"
  | whitelistNotBoolean => s!"attr: '{whitelistKey}' must be a boolean"
  | unknownConstraint name display =>
    s!"attr: constraint for '{name}' must be a boolean, a string or a list " ++
      s!"of strings, got {display}"
  | notShowable => Text.tooManyDigitsToShow

end AttributeFault

/-- Insert a text into a sorted list, unless it is there. -/
def insertSorted (value : String) : List String → List String
  | [] => [value]
  | other :: rest =>
    if value = other then other :: rest
    else if value < other then value :: other :: rest
    else other :: insertSorted value rest

/-- The texts of a list, sorted and each once. -/
def sortedSet (values : List String) : List String :=
  values.foldl (fun sorted value => insertSorted value sorted) []

namespace Constraint

/-- The constraint of an attribute that a value stands for. -/
def ofValue (name : String) (value : Value) : Except AttributeFault Constraint :=
  let unknown : Except AttributeFault Constraint :=
    if value.isShowable then .error (.unknownConstraint name value.display)
    else .error .notShowable
  match value with
  | .boolean true => .ok required
  | .boolean false => .ok forbidden
  | .text wanted => .ok (exactly wanted)
  | value =>
    match value.items?.bind (·.mapM textOf?) with
    | some values => .ok (oneOf (sortedSet values))
    | none => unknown
where
  /-- The text that a value is. -/
  textOf? : Value → Option String
    | .text value => some value
    | _ => none

/-- The report about an attribute of an element, if the attribute is not as demanded. -/
def report? (constraint : Constraint) (name : String) (element : Element) : Option String :=
  match constraint, element.attributes.value? name with
  | .forbidden, none => none
  | .forbidden, some _ => some s!"Attribute '{name}' is not allowed"
  | _, none => some s!"Expected attribute '{name}', not found"
  | .required, some _ => none
  | .exactly wanted, some value =>
    if value = wanted then none
    else some s!"Expected attribute '{name}' to be '{wanted}', was '{value}'"
  | .oneOf values, some value =>
    if values.contains value then none
    else
      let options := String.intercalate ", " (values.map fun value => s!"'{value}'")
      some s!"Expected attribute '{name}' to be one of {options}, was '{value}'"

end Constraint

namespace AttributeCheck

/-- The value of a key, or another value if the key is missing. -/
def setting (entries : List (String × Value)) (key : String) (missing : Value) : Value :=
  (Table.value? entries key).getD missing

/-- The check that a value stands for. -/
def ofValue : Value → Except AttributeFault AttributeCheck
  | .table entries =>
    match setting entries selectorKey (.text "*"), setting entries whitelistKey (.boolean false) with
    | .text selector, .boolean isWhitelist => do
      let named := entries.filter fun entry => entry.1 ≠ selectorKey ∧ entry.1 ≠ whitelistKey
      let constraints ← named.mapM fun entry =>
        (Constraint.ofValue entry.1 entry.2).map (entry.1, ·)
      return ⟨selector, constraints, isWhitelist⟩
    | .text _, _ => .error .whitelistNotBoolean
    | _, _ => .error .selectorNotText
  | value => .error (.notTable value.typeName)

/-- Whether a white list lets an attribute pass. -/
def allows (check : AttributeCheck) (name : String) : Bool :=
  check.constraints.any fun entry => entry.1 = name && entry.2 ≠ .forbidden

/-- The reports about one element, the constraints before the white list. -/
def reports (check : AttributeCheck) (element : Element) : List String :=
  let constrained := check.constraints.filterMap fun entry => entry.2.report? entry.1 element
  let extra :=
    if check.isWhitelist then
      (element.attributes.keys.filter fun name => !check.allows name).map fun name =>
        s!"Attribute '{name}' is not allowed"
    else []
  constrained ++ extra

/-- What the check does on a document. -/
def actions (check : AttributeCheck) (document : Document) : List Action :=
  match document.select check.selector with
  | .error refusal => [.fail refusal.failure]
  | .ok nodes =>
    nodes.flatMap fun node =>
      (check.reports node.element).map fun message =>
        .report .error message (.described node.element.describe)

end AttributeCheck
end Rule
end MarkupLint
