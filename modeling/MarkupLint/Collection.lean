import MarkupLint.Diagnostic
import MarkupLint.Table

/-!
# Collections of diagnostics

A collection groups diagnostics by rule.  The groups are in the order in which their rules were
first named, and the diagnostics of a group in the order in which they were added.  Once frozen, a
collection accepts no diagnostic.
-/

namespace MarkupLint

/-- Diagnostics grouped by rule. -/
structure Collection where
  groups : Table (List Diagnostic)
  isFrozen : Bool
deriving DecidableEq, Repr, Inhabited

namespace Collection

/-- The collection without groups. -/
def empty : Collection := ⟨[], false⟩

/-- Reserve a place for the group of a rule. -/
def declare (collection : Collection) (rule : String) : Collection :=
  if collection.groups.hasKey rule then collection
  else { collection with groups := collection.groups.set rule [] }

/-- Add a diagnostic to the group of its rule; a frozen collection refuses it. -/
def add? (collection : Collection) (diagnostic : Diagnostic) : Option Collection :=
  if collection.isFrozen then none
  else
    let group := (collection.groups.value? diagnostic.rule).getD []
    some
      { collection with
        groups := collection.groups.set diagnostic.rule (group ++ [diagnostic]) }

/-- The collection with a diagnostic more, if it accepts it. -/
def accept (collection : Collection) (diagnostic : Diagnostic) : Collection :=
  (collection.add? diagnostic).getD collection

/-- The wording of the refusal of a frozen collection. -/
def frozenMessage : String := "Cannot add diagnostics to a frozen collection"

/-- Accept no more diagnostics. -/
def freeze (collection : Collection) : Collection := { collection with isFrozen := true }

/-- All diagnostics, group by group. -/
def diagnostics (collection : Collection) : List Diagnostic :=
  collection.groups.flatMap fun group => group.2

/-- The number of diagnostics. -/
def size (collection : Collection) : Nat := collection.diagnostics.length

/-- The number of diagnostics of a severity. -/
def count (collection : Collection) (severity : Severity) : Nat :=
  collection.diagnostics.countP fun diagnostic => diagnostic.severity == severity

/-- The final state that follows from the diagnostics. -/
def state (collection : Collection) : LintState :=
  .ofSeverities (collection.diagnostics.map (·.severity))

@[simp] theorem add?_freeze (collection : Collection) (diagnostic : Diagnostic) :
    collection.freeze.add? diagnostic = none := rfl

@[simp] theorem diagnostics_freeze (collection : Collection) :
    collection.freeze.diagnostics = collection.diagnostics := rfl

end Collection
end MarkupLint
