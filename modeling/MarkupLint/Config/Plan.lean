import MarkupLint.Config.Settings
import MarkupLint.Linting.Basic

/-!
# Plans

A plan is a configuration whose rules have been made into instances.  A rule with the value false
is disabled, a rule with a list has an instance for each item, and a rule with any other value has
one instance.  Rules that are not registered are left out.
-/

namespace MarkupLint
namespace Config

/-- A configuration that is ready to be used. -/
structure Plan where
  rules : Linting.RuleSet
  ignore : List String
  timeout? : Option Binary64
deriving Inhabited

/-- What reading the rules leads to. -/
structure RuleReading where
  result : Except Stop Linting.RuleSet
  logs : List LogRecord
deriving Inhabited

/-- A log record about a configuration. -/
def record (level : LogLevel) (message : String) : LogRecord :=
  ⟨level, "svglint.config", message⟩

/-- The values for which a rule has instances. -/
def instanceValues : Value → List Value
  | .list items => items
  | value => [value]

/-- Whether a failure means that a rule rejects its configuration: it is a wrong value or a value of a
wrong type. -/
def isRejection (failure : Failure) : Bool := failure.isOf .type || failure.isOf .value

/-- What a failure of a rule means: an error of the configuration, if the rule rejects it. -/
def stopOf (rule : String) (failure : Failure) : Stop :=
  if isRejection failure then .error ⟨.invalidRule rule failure, none⟩ else .failure failure

/-- The instances that a rule makes of a value. -/
def makeInstances (definition : Rule.Definition) (rule : String) (value : Value) :
    Except Stop (List Rule.Instance) :=
  ((instanceValues value).mapM definition.instantiate).mapError (stopOf rule)

/-- Add a rule in front of those that are read behind it. -/
def RuleReading.withRule (rule : String) (instances : List Rule.Instance) (rest : RuleReading) :
    RuleReading :=
  { rest with result := rest.result.map ((rule, instances) :: ·) }

/-- Note something in front of what is noted behind it. -/
def RuleReading.withRecord (record : LogRecord) (rest : RuleReading) : RuleReading :=
  { rest with logs := record :: rest.logs }

/-- What is noted of a rule that is disabled. -/
def disabledRecord (rule : String) : LogRecord := record .debug s!"Rule '{rule}' is disabled"

/-- What is noted of a rule that there is not. -/
def unknownRecord (rule : String) : LogRecord := record .warning s!"Unknown rule '{rule}'."

/-- Read the rules of a configuration with those of a registry, up to the first error. -/
def readRuleSet (registry : Rule.Registry) : Table Value → RuleReading
  | [] => ⟨.ok [], []⟩
  | (rule, value) :: rest =>
    match value with
    | .boolean false => (readRuleSet registry rest).withRecord (disabledRecord rule)
    | value =>
      match registry.resolve rule with
      | .error _ => (readRuleSet registry rest).withRecord (unknownRecord rule)
      | .ok definition =>
        match makeInstances definition rule value with
        | .ok instances => (readRuleSet registry rest).withRule rule instances
        | .error stop => ⟨.error stop, []⟩

namespace Plan

/-- The number of instances of all rules. -/
def instanceCount (plan : Plan) : Nat :=
  plan.rules.foldr (fun rule total => rule.2.length + total) 0

/-- The plan of settings, and what is noted meanwhile. -/
def ofSettings (registry : Rule.Registry) (settings : Settings) :
    Except Stop Plan × List LogRecord :=
  let reading := readRuleSet registry settings.rules
  (reading.result.map fun rules => ⟨rules, settings.ignore, settings.timeout?⟩, reading.logs)

/-- Whether a value counts as no configuration at all. -/
def isNothing : Value → Bool
  | .null => true
  | .boolean value => !value
  | .integer value => value == 0
  | .float (.finite _ significand _) => significand == 0
  | .text value => value.isEmpty
  | .list items => items.isEmpty
  | .tuple items => items.isEmpty
  | .table entries => entries.isEmpty
  | _ => false

/-- The plan that a value describes, and what is noted meanwhile. -/
def ofValue (registry : Rule.Registry) (value : Value) : Except Stop Plan × List LogRecord :=
  match Settings.ofValue (if isNothing value then .table [] else value) none with
  | .error stop => (.error stop, [])
  | .ok settings => ofSettings registry settings

/-- What can be given as a configuration: a value that is yet to be validated, settings, or a
plan. -/
inductive Given where
  | value (value : Value)
  | settings (settings : Settings)
  | plan (plan : Plan)
deriving Inhabited

/-- The plan for what is given as a configuration, and what is noted meanwhile. -/
def ofGiven (registry : Rule.Registry) : Given → Except Stop Plan × List LogRecord
  | .value value => ofValue registry value
  | .settings settings => ofSettings registry settings
  | .plan plan => (.ok plan, [])

end Plan
end Config
end MarkupLint
