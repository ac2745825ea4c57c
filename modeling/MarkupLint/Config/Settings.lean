import MarkupLint.Rule.Instance
import MarkupLint.Toml.Fault
import MarkupLint.Value

/-!
# Settings

A configuration is a table with the rules, the patterns of files to ignore, and the seconds after
which an idle rule is stopped.  Every part may be left out, and there may be no other parts.
-/

namespace MarkupLint
namespace Config

/-- A validated configuration. -/
structure Settings where
  rules : Table Value
  ignore : List String
  timeout? : Option Binary64
  /-- The file that the configuration comes from. -/
  path? : Option String
deriving Repr, Inhabited

/-- A constraint that a configuration violates. -/
inductive Problem where
  | rulesNotTable (typeName : String)
  | ignoreNotTexts
  | timeoutNotPositive
  | unknownKeys (keys : List String)
deriving DecidableEq, Repr, Inhabited

namespace Problem

/-- The wording of a problem. -/
def message : Problem → String
  | rulesNotTable typeName => s!"rules must be a table, got {typeName}"
  | ignoreNotTexts => "ignore must be a list of strings"
  | timeoutNotPositive => "timeout must be a positive number"
  | unknownKeys keys =>
    "unknown configuration keys: " ++ (Value.list (keys.map .text)).display

end Problem

/-- Why there is no configuration. -/
inductive Fault where
  | notTable (typeName : String)
  | problems (problems : List Problem)
  | invalidRule (rule : String) (failure : Failure)
  | fileNotFound
  | sectionNotTable
  | invalidToml (refusal : Toml.Refusal)
  | unreadable (message : String)
deriving DecidableEq, Repr, Inhabited

namespace Fault

/-- The wording of a fault. -/
def message : Fault → String
  | .notTable typeName => s!"Configuration must be a table, got {typeName}"
  | .problems found =>
    "Configuration errors:\n" ++
      String.intercalate "\n" (found.map fun problem => "  - " ++ problem.message)
  | .invalidRule rule failure => s!"Invalid configuration for rule '{rule}': {failure.message}"
  | .fileNotFound => "Configuration file not found"
  | .sectionNotTable => "[tool.svglint] must be a table"
  | .invalidToml refusal => s!"Invalid TOML: {refusal.message}"
  | .unreadable message => s!"Cannot read config file: {message}"

end Fault

/-- An error of a configuration, with the file it is in. -/
structure Error where
  fault : Fault
  path? : Option String
deriving DecidableEq, Repr, Inhabited

/-- What stops a configuration from being used: an error of the configuration, or a failure that
is none. -/
inductive Stop where
  | error (error : Error)
  | failure (failure : Failure)
deriving DecidableEq, Repr, Inhabited

/-- The values of the parts that are left out. -/
def defaults : Table Value := [("rules", .table []), ("ignore", .list []), ("timeout", .null)]

/-- A configuration with the values of the parts that it leaves out. -/
def mergeDefaults (config : Table Value) : Table Value :=
  config.foldl (fun merged entry => merged.set entry.1 entry.2) defaults

/-- The text that a value is. -/
def textOf? : Value → Option String
  | .text value => some value
  | _ => none

/-- The rules that a value describes. -/
def readRules : Value → Except Problem (Table Value)
  | .table rules => .ok rules
  | value => .error (.rulesNotTable value.typeName)

/-- The patterns that a value describes. -/
def readIgnore (value : Value) : Except Problem (List String) :=
  match value.items?.bind (·.mapM textOf?) with
  | some patterns => .ok patterns
  | none => .error .ignoreNotTexts

/-- The failure of an integer that is out of the range of binary numbers. -/
def integerTooLarge : Failure := .of "OverflowError" ["int too large to convert to float"]

/-- The limit of idle seconds that a value describes; an integer out of range fails. -/
def readTimeout : Value → Except Failure (Except Problem (Option Binary64))
  | .null => .ok (.ok none)
  | .integer seconds =>
    if seconds ≤ 0 then .ok (.error .timeoutNotPositive)
    else
      match Binary64.ofInt seconds with
      | .infinite _ => .error integerTooLarge
      | number => .ok (.ok (some number))
  | .float seconds =>
    .ok (if seconds.isPositive then .ok (some seconds) else .error .timeoutNotPositive)
  | _ => .ok (.error .timeoutNotPositive)

/-- The keys of parts that no configuration has, sorted. -/
def unknownKeys (config : Table Value) : List String :=
  (Rule.sortedSet config.keys).filter fun key => !defaults.hasKey key

/-- The problem of a part, if it has one. -/
def problemOf {α : Type} : Except Problem α → List Problem
  | .error problem => [problem]
  | .ok _ => []

namespace Settings

/-- The settings without a configuration. -/
def standard : Settings := ⟨[], [], none, none⟩

/-- The settings that a value describes.  Every violated constraint is named. -/
def ofValue (value : Value) (path? : Option String) : Except Stop Settings :=
  match value with
  | .table config =>
    let merged := mergeDefaults config
    let part := fun key => (merged.value? key).getD .null
    let rules := readRules (part "rules")
    let ignore := readIgnore (part "ignore")
    match readTimeout (part "timeout") with
    | .error failure => .error (.failure failure)
    | .ok timeout =>
      let unknown := unknownKeys config
      let unknownProblem := if unknown.isEmpty then [] else [Problem.unknownKeys unknown]
      match rules, ignore, timeout, unknownProblem with
      | .ok rules, .ok ignore, .ok timeout?, [] => .ok ⟨rules, ignore, timeout?, path?⟩
      | rules, ignore, timeout, unknownProblem =>
        let problems :=
          problemOf rules ++ problemOf ignore ++ problemOf timeout ++ unknownProblem
        .error (.error ⟨.problems problems, path?⟩)
  | other => .error (.error ⟨.notTable other.typeName, path?⟩)

end Settings
end Config
end MarkupLint
