import MarkupLint.Rule.Attributes
import MarkupLint.Rule.Elements

/-!
# Rules and their instances

A rule makes instances of configuration values.  What an instance does on a document is a script.  A
registry finds rules by their names.
-/

namespace MarkupLint
namespace Rule

/-- A configured rule. -/
inductive Instance where
  | elements (check : ElementCheck)
  | attributes (check : AttributeCheck)
  | custom (script : Script)
  /-- An instance of a rule that comes from elsewhere. -/
  | foreign (script : Document → Script)
deriving Inhabited

namespace Instance

/-- What the instance does on a document. -/
def script (configured : Instance) (document : Document) : Script :=
  match configured with
  | elements check => ⟨check.actions document, none⟩
  | attributes check => ⟨check.actions document, none⟩
  | custom script => script
  | foreign script => script document

end Instance

/-- A rule. -/
inductive Definition where
  | elements
  | attributes
  | custom
  /-- A rule that comes from elsewhere: its name, and how it makes instances. -/
  | foreign (name : String) (make : Value → Except Failure Instance)
deriving Inhabited

namespace Definition

/-- The name by which a configuration refers to the rule. -/
def name : Definition → String
  | elements => "elm"
  | attributes => "attr"
  | custom => "custom"
  | foreign name _ => name

/-- Make an instance of a configuration value. -/
def instantiate (definition : Definition) (config : Value) : Except Failure Instance :=
  match definition with
  | elements =>
    match ElementCheck.ofValue config with
    | .ok check => .ok (.elements check)
    | .error fault => .error (.ofValue fault.message)
  | attributes =>
    match AttributeCheck.ofValue config with
    | .ok check => .ok (.attributes check)
    | .error fault => .error (.ofValue fault.message)
  | custom =>
    match config with
    | .script script => .ok (.custom script)
    | other => .error (.ofValue s!"custom: config must be a callable, got {other.typeName}")
  | foreign _ make => make config

end Definition

/-! ## Registries -/

/-- Rules by name. -/
abbrev Registry := Table Definition

namespace Registry

/-- Add a rule in place of the rule of the same name, if there is one. -/
def register (registry : Registry) (definition : Definition) : Registry :=
  registry.set definition.name definition

/-- The registry of some rules. -/
def ofDefinitions (definitions : List Definition) : Registry :=
  definitions.foldl register []

/-- The rules that are always there. -/
def builtin : Registry := ofDefinitions [.elements, .attributes, .custom]

/-- The refusal of a value that is no rule. -/
def refusal (value : Value) : Failure :=
  .ofType s!"{value.typeName} does not provide 'name' and 'instantiate'"

/-- The failure to find a rule. -/
def unknown (name : String) : Failure := .of "UnknownRuleError" [s!"Unknown rule '{name}'"]

/-- The rule of a name. -/
def resolve (registry : Registry) (name : String) : Except Failure Definition :=
  match registry.value? name with
  | some definition => .ok definition
  | none => .error (unknown name)

/-- The names of the rules, sorted. -/
def names (registry : Registry) : List String := sortedSet registry.keys

/-- Whether a value is the name of a rule; what cannot be a key of a table cannot be looked up. -/
def contains (registry : Registry) (value : Value) : Except Failure Bool :=
  match value.unhashable?, value with
  | some typeName, _ => .error (.ofType s!"unhashable type: '{typeName}'")
  | none, .text name => .ok (registry.hasKey name)
  | none, _ => .ok false

end Registry
end Rule
end MarkupLint
