import MarkupLint.Collection
import MarkupLint.Failure
import MarkupLint.Proofs.Table

/-!
# Runs of operations on a collection

A collection is used by declaring rules, adding diagnostics, freezing it and listing its
diagnostics, in any order.  A frozen collection refuses every diagnostic from then on, and what it
lists, counts and concludes stays as it is.  It still makes room for rules that are declared: only
empty groups, behind the groups that it has.
-/

namespace MarkupLint
namespace Collection

/-- What the user of a collection can do with it. -/
inductive Operation where
  | declare (rule : String)
  | add (diagnostic : Diagnostic)
  | freeze
  | iterate
deriving DecidableEq, Repr

/-- What the user of a collection gets to see of an operation. -/
inductive Answer where
  | silence
  | listing (diagnostics : List Diagnostic)
  | refusal (failure : Failure)
deriving DecidableEq, Repr

/-- The failure with which a frozen collection refuses a diagnostic. -/
def frozenFailure : Failure := .of "RuntimeError" [frozenMessage]

/-- Carry out an operation. -/
def perform (collection : Collection) : Operation → Collection × Answer
  | .declare rule => (collection.declare rule, .silence)
  | .add diagnostic =>
    match collection.add? diagnostic with
    | some added => (added, .silence)
    | none => (collection, .refusal frozenFailure)
  | .freeze => (collection.freeze, .silence)
  | .iterate => (collection, .listing collection.diagnostics)

/-- The collection after some operations. -/
def performAll (collection : Collection) (operations : List Operation) : Collection :=
  operations.foldl (fun current operation => (current.perform operation).1) collection

/-- What some operations answer, one after another. -/
def answers (collection : Collection) : List Operation → List Answer
  | [] => []
  | operation :: rest =>
    (collection.perform operation).2 :: answers (collection.perform operation).1 rest

/-- The rules that are declared by some operations, in order. -/
def declared (operations : List Operation) : List String :=
  operations.filterMap fun
    | .declare rule => some rule
    | _ => none

/-- What a frozen collection with these diagnostics answers. -/
def Operation.frozenAnswer (diagnostics : List Diagnostic) : Operation → Answer
  | .declare _ | .freeze => .silence
  | .add _ => .refusal frozenFailure
  | .iterate => .listing diagnostics

@[simp] theorem performAll_nil (collection : Collection) : collection.performAll [] = collection :=
  rfl

@[simp] theorem performAll_cons
    (collection : Collection)
    (operation : Operation)
    (rest : List Operation) :
    collection.performAll (operation :: rest) =
      (collection.perform operation).1.performAll rest :=
  rfl

theorem performAll_append
    (collection : Collection)
    (first second : List Operation) :
    collection.performAll (first ++ second) = (collection.performAll first).performAll second := by
  rw [performAll, List.foldl_append]
  rfl

/-! ## Frozen collections -/

/-- Rules as groups without diagnostics. -/
def emptyGroups (rules : List String) : Table (List Diagnostic) := rules.map (·, [])

@[simp] theorem keys_emptyGroups (rules : List String) : (emptyGroups rules).keys = rules := by
  simp [emptyGroups, Table.keys, Function.comp_def]

theorem keys_append_emptyGroups (groups : Table (List Diagnostic)) (rules : List String) :
    Table.keys (groups ++ emptyGroups rules) = groups.keys ++ rules := by
  rw [Table.keys, List.map_append]
  exact congrArg (_ ++ ·) (keys_emptyGroups rules)

theorem flatMap_emptyGroups (rules : List String) :
    ((emptyGroups rules).flatMap fun group => group.2) = [] := by
  simp [emptyGroups]

theorem emptyGroups_append (first second : List String) :
    emptyGroups (first ++ second) = emptyGroups first ++ emptyGroups second :=
  List.map_append

theorem groups_declare (collection : Collection) (rule : String) :
    (collection.declare rule).groups = collection.groups ++
      emptyGroups (if rule ∈ collection.groups.keys then [] else [rule]) := by
  cases known : collection.groups.hasKey rule with
  | true => simp [declare, known, Table.hasKey_iff.mp known, emptyGroups]
  | false =>
    have unknown : rule ∉ collection.groups.keys := by
      simp [← Table.hasKey_iff, known]
    simp [declare, known, unknown, emptyGroups, Table.set_eq_append known]

@[simp] theorem isFrozen_declare (collection : Collection) (rule : String) :
    (collection.declare rule).isFrozen = collection.isFrozen := by
  rw [declare]
  split <;> rfl

/-- The rules of an operation that get a new group in a collection with these groups. -/
def Operation.newcomers (known : List String) : Operation → List String
  | .declare rule => if rule ∈ known then [] else [rule]
  | _ => []

/-- An operation leaves a frozen collection frozen, and at most an empty group comes to it. -/
theorem perform_of_isFrozen
    {collection : Collection}
    (frozen : collection.isFrozen = true)
    (operation : Operation) :
    collection.perform operation =
      (⟨collection.groups ++ emptyGroups (operation.newcomers collection.groups.keys), true⟩,
        operation.frozenAnswer collection.diagnostics) := by
  obtain ⟨groups, isFrozen⟩ := collection
  obtain rfl : isFrozen = true := frozen
  cases operation with
  | declare rule =>
    have declaring : declare ⟨groups, true⟩ rule =
        ⟨(declare ⟨groups, true⟩ rule).groups, (declare ⟨groups, true⟩ rule).isFrozen⟩ := rfl
    rw [perform, declaring, groups_declare, isFrozen_declare]
    rfl
  | add diagnostic => simp [perform, add?, Operation.newcomers, Operation.frozenAnswer, emptyGroups]
  | freeze =>
    simp [perform, freeze, Operation.newcomers, Operation.frozenAnswer, emptyGroups]
  | iterate => simp [perform, Operation.newcomers, Operation.frozenAnswer, emptyGroups]

/-- The rules that some operations declare and that are not known, in order and each only once. -/
def newcomers (known : List String) (operations : List Operation) : List String :=
  ((declared operations).filter (· ∉ known)).eraseDups

theorem newcomers_append_singleton
    (known : List String)
    (operations : List Operation)
    (operation : Operation) :
    newcomers known (operations ++ [operation]) =
      newcomers known operations ++ operation.newcomers (known ++ newcomers known operations) := by
  have split : newcomers known (operations ++ [operation]) =
      ((declared operations).filter (· ∉ known) ++
        (declared [operation]).filter (· ∉ known)).eraseDups := by
    rw [newcomers, declared, List.filterMap_append, List.filter_append]
    rfl
  rw [split]
  cases operation with
  | declare rule =>
    have declares : declared [.declare rule] = [rule] := rfl
    rw [declares, List.filter_singleton, Operation.newcomers]
    by_cases old : rule ∈ known
    · simp [old, newcomers]
    · have fresh : decide (rule ∉ known) = true := decide_eq_true old
      rw [fresh, cond_true, Table.eraseDups_append_singleton, newcomers]
      simp only [List.mem_append, List.mem_eraseDups, old, false_or]
  | _ => exact (List.append_nil _).symm ▸ (List.append_nil _).symm

/-- Operations leave a frozen collection frozen, and only empty groups come to it. -/
theorem performAll_of_isFrozen
    {collection : Collection}
    (frozen : collection.isFrozen = true)
    (operations : List Operation) :
    collection.performAll operations =
      ⟨collection.groups ++ emptyGroups (newcomers collection.groups.keys operations), true⟩ := by
  induction operations using List.reverseRecOn with
  | nil =>
    obtain ⟨groups, isFrozen⟩ := collection
    obtain rfl : isFrozen = true := frozen
    simp [newcomers, declared, emptyGroups]
  | append_singleton operations operation ih =>
    rw [performAll_append, ih, performAll_cons, performAll_nil, perform_of_isFrozen rfl,
      keys_append_emptyGroups, newcomers_append_singleton, emptyGroups_append, List.append_assoc]

theorem diagnostics_performAll_of_isFrozen
    {collection : Collection}
    (frozen : collection.isFrozen = true)
    (operations : List Operation) :
    (collection.performAll operations).diagnostics = collection.diagnostics := by
  rw [performAll_of_isFrozen frozen, diagnostics, List.flatMap_append, flatMap_emptyGroups,
    List.append_nil]
  rfl

theorem answers_of_isFrozen
    {collection : Collection}
    (frozen : collection.isFrozen = true)
    (operations : List Operation) :
    collection.answers operations =
      operations.map fun operation => operation.frozenAnswer collection.diagnostics := by
  induction operations generalizing collection with
  | nil => rfl
  | cons operation rest ih =>
    have after : (collection.perform operation).1.isFrozen = true := by
      rw [perform_of_isFrozen frozen]
    have kept : (collection.perform operation).1.diagnostics = collection.diagnostics :=
      diagnostics_performAll_of_isFrozen frozen [operation]
    rw [answers, ih after, kept, perform_of_isFrozen frozen, List.map_cons]

/-- Nothing that a user sees of a frozen collection changes, apart from empty groups of rules that
are declared too late. -/
structure StaysFrozen (frozen : Collection) (operations : List Operation) : Prop where
  isFrozen : (frozen.performAll operations).isFrozen = true
  answers : frozen.answers operations =
    operations.map fun operation => operation.frozenAnswer frozen.diagnostics
  diagnostics : (frozen.performAll operations).diagnostics = frozen.diagnostics
  size : (frozen.performAll operations).size = frozen.size
  count : ∀ severity, (frozen.performAll operations).count severity = frozen.count severity
  state : (frozen.performAll operations).state = frozen.state
  groups : (frozen.performAll operations).groups =
    frozen.groups ++ emptyGroups (newcomers frozen.groups.keys operations)
  unchanged_iff : frozen.performAll operations = frozen ↔
    ∀ rule ∈ declared operations, rule ∈ frozen.groups.keys

theorem newcomers_eq_nil_iff {known : List String} {operations : List Operation} :
    newcomers known operations = [] ↔ ∀ rule ∈ declared operations, rule ∈ known := by
  simp only [List.eq_nil_iff_forall_not_mem, newcomers, List.mem_eraseDups, List.mem_filter,
    decide_eq_true_iff, not_and, not_not]

/-- Once a collection is frozen, every diagnostic is refused, and whatever is done with it, it has
the same diagnostics, counts and state as before.  Its groups are the same with the same content in
the same order, but behind them comes an empty group for each rule that is declared for the first
time afterwards: the collection stays as it is just if no such rule is declared. -/
theorem staysFrozen_performAll
    (history operations : List Operation) :
    StaysFrozen (empty.performAll (history ++ [.freeze])) operations := by
  have frozen : (empty.performAll (history ++ [.freeze])).isFrozen = true := by
    rw [performAll_append]
    rfl
  generalize empty.performAll (history ++ [.freeze]) = collection at frozen
  have kept := diagnostics_performAll_of_isFrozen frozen operations
  have after := performAll_of_isFrozen frozen operations
  refine ⟨by rw [after], answers_of_isFrozen frozen operations, kept, ?_, fun severity => ?_, ?_,
    by rw [after], ?_⟩
  · rw [size, kept, size]
  · rw [count, kept, count]
  · rw [state, kept, state]
  · obtain ⟨groups, isFrozen⟩ := collection
    obtain rfl : isFrozen = true := frozen
    rw [after, ← newcomers_eq_nil_iff]
    simp [emptyGroups]

/-- A rule that is declared after the freeze gets a group. -/
theorem groups_of_late_declaration :
    (empty.performAll [.freeze, .declare "a"]).groups = [("a", [])] ∧
      (empty.performAll [.freeze]).groups = [] := by
  decide

end Collection
end MarkupLint
