import MarkupLint.Toml.Fault
import MarkupLint.Value

/-!
# Documents in the making

A key leads from a table through nested tables.  Tables on the way that do not exist are made; a
value that is no table is in the way.  Where arrays of tables may be entered, the key leads to the
last table of an array.

While statements are read, some keys are marked: arrays and tables written as a value are closed,
and keys declared by a header are not declared again.  The tables on the way to a key with points
count as declared only from the next header on.
-/

namespace MarkupLint
namespace Toml

/-- The items with a change of the last one, if that is a table. -/
def changeLast
    (change : Table Value → Except Cause (Table Value)) :
    List Value → Except Cause (List Value)
  | [] => .error .occupied
  | [.table entries] => (change entries).map fun changed => [.table changed]
  | [_] => .error .occupied
  | item :: second :: rest =>
    (changeLast change (second :: rest)).map fun changed => item :: changed

/-- Change the table that a key leads to. -/
def changeAt
    (entersArrays : Bool)
    (change : Table Value → Except Cause (Table Value)) :
    Key → Table Value → Except Cause (Table Value)
  | [], table => change table
  | name :: rest, table =>
    let changeRest := changeAt entersArrays change rest
    match table.value? name with
    | none => (changeRest []).map fun changed => table.set name (.table changed)
    | some (.table entries) =>
      (changeRest entries).map fun changed => table.set name (.table changed)
    | some (.list items) =>
      if entersArrays then
        (changeLast changeRest items).map fun changed => table.set name (.list changed)
      else .error .occupied
    | some _ => .error .occupied

/-- Leave a table as it is. -/
def unchanged (table : Table Value) : Except Cause (Table Value) := .ok table

/-- Give a name of a table a value, unless it has one. -/
def addEntry (taken : Cause) (name : String) (value : Value) (table : Table Value) :
    Except Cause (Table Value) :=
  if table.hasKey name then .error taken else .ok (table.set name value)

/-- Add an empty table to the array that a name of a table stands for. -/
def addTable (name : String) (table : Table Value) : Except Cause (Table Value) :=
  match table.value? name with
  | none => .ok (table.set name (.list [.table []]))
  | some (.list items) => .ok (table.set name (.list (items ++ [.table []])))
  | some _ => .error .occupied

/-- Refuse a text at the place where a rest begins if there is a cause. -/
def orRefuse {α : Type} (rest : List Char) (result : Except Cause α) : Except Fault α :=
  result.mapError fun cause => ⟨cause, rest.length⟩

/-- The names of a key but the last one. -/
def parentOf (key : Key) : Key := key.dropLast

/-- The last name of a key. -/
def lastOf (key : Key) : String := key.getLast?.getD ""

/-- Whether a value is a table or an array. -/
def isContainer : Value → Bool
  | .table _ => true
  | .list _ => true
  | _ => false

@[simp] theorem changeAt_nil
    (entersArrays : Bool)
    (change : Table Value → Except Cause (Table Value))
    (table : Table Value) :
    changeAt entersArrays change [] table = change table := rfl

/-! ## Marked keys -/

/-- A document in the making. -/
structure Draft where
  table : Table Value
  /-- The key of the table that the statements belong to. -/
  header : Key
  /-- The keys of arrays and tables that are written as a value; nothing is added to them. -/
  closed : List Key
  /-- The keys that no header may declare again. -/
  declared : List Key
  /-- The keys that count as declared from the next header on. -/
  pending : List Key
deriving Repr, Inhabited

namespace Draft

/-- A document without statements. -/
def empty : Draft := ⟨[], [], [], [], []⟩

/-- Whether the key leads to a closed value or into one. -/
def isClosed (draft : Draft) (key : Key) : Bool := draft.closed.any (·.isPrefixOf key)

/-- Whether the key is declared. -/
def isDeclared (draft : Draft) (key : Key) : Bool := draft.declared.contains key

/-- Begin with a header. -/
def beginHeader (draft : Draft) : Draft :=
  { draft with declared := draft.declared ++ draft.pending, pending := [] }

/-- Remove the marks of a key and of those that lead on from it. -/
def release (draft : Draft) (key : Key) : Draft :=
  { draft with
    closed := draft.closed.filter fun other => !key.isPrefixOf other
    declared := draft.declared.filter fun other => !key.isPrefixOf other }

/-- Declare the table of a header. -/
def declareTable (draft : Draft) (key : Key) : Except Cause Draft :=
  if draft.isDeclared key || draft.isClosed key then .error (.declaredTwice key)
  else
    (changeAt true unchanged key draft.table).map fun table =>
      { draft with table := table, header := key, declared := key :: draft.declared }

/-- Declare another table of the array of a header. -/
def declareItem (draft : Draft) (key : Key) : Except Cause Draft :=
  if draft.isClosed key then .error (.immutable key)
  else
    let draft := draft.release key
    (changeAt true (addTable (lastOf key)) (parentOf key) draft.table).map fun table =>
      { draft with table := table, header := key, declared := key :: draft.declared }

/-- The keys that lead to a key with points, without the key itself and without the header alone,
the shortest first. -/
def stations (header key : Key) : List Key :=
  (List.range (key.length - 1)).map fun count => header ++ key.take (count + 1)

/-- Give a key a value in the table of the header. -/
def assign (draft : Draft) (key : Key) (value : Value) : Except Cause Draft :=
  let stations := stations draft.header key
  match stations.find? draft.isDeclared with
  | some station => .error (.redefined station)
  | none =>
    let parent := draft.header ++ parentOf key
    if draft.isClosed parent then .error (.immutable parent)
    else
      (changeAt true (addEntry .occupied (lastOf key) value) parent draft.table).map fun table =>
        { draft with
          table := table
          pending := draft.pending ++ stations
          closed :=
            if isContainer value then (draft.header ++ key) :: draft.closed else draft.closed }

end Draft
end Toml
end MarkupLint
