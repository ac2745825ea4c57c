import MarkupLint.Proofs.Collection
import MarkupLint.Proofs.Traversal
import Mathlib.Data.List.Perm.Basic

/-!
# Collections as groupings

A collection groups the diagnostics that it accepts: the groups are in the order in which their rules
were first named, and each holds the diagnostics of its rule in the order in which they were added.
How those of different rules were interleaved does not matter, and neither the counts nor the state
depend on any order.
-/

namespace MarkupLint

theorem LintState.ofSeverities_eq_of_perm {first second : List Severity} (same : first.Perm second) :
    ofSeverities first = ofSeverities second := by
  simp only [ofSeverities, List.contains_iff_mem, same.mem_iff]

/-- Diagnostics that are the same by any feature of theirs differ only in their interleaving. -/
theorem Diagnostic.perm_of_filter_eq
    {feature : Type}
    [DecidableEq feature]
    {first second : List Diagnostic}
    (of : Diagnostic → feature)
    (same : ∀ value, first.filter (of · = value) = second.filter (of · = value)) :
    first.Perm second := by
  rw [List.perm_iff_count]
  intro diagnostic
  have counted : ∀ diagnostics : List Diagnostic, diagnostics.count diagnostic =
      (diagnostics.filter (of · = of diagnostic)).count diagnostic :=
    fun diagnostics => (List.count_filter (by simp)).symm
  rw [counted, same, ← counted]

/-- Reports grouped by rules are all of the reports. -/
theorem perm_flatMap_filter
    {names : List String}
    {reports : List Diagnostic}
    (distinct : names.Nodup)
    (named : ∀ report ∈ reports, report.rule ∈ names) :
    (names.flatMap fun name => reports.filter (·.rule = name)).Perm reports := by
  induction names generalizing reports with
  | nil =>
    have none : reports = [] := List.eq_nil_iff_forall_not_mem.mpr fun report known => by
      simpa using named report known
    rw [none]
    exact .nil
  | cons first rest ih =>
    rw [List.nodup_cons] at distinct
    have others : (rest.flatMap fun name => reports.filter (·.rule = name)) =
        rest.flatMap fun name =>
          (reports.filter fun report => !decide (report.rule = first)).filter (·.rule = name) := by
      refine List.flatMap_congr fun name later => ?_
      rw [List.filter_filter]
      refine List.filter_congr fun report _ => ?_
      have different : name ≠ first := by
        rintro rfl
        exact distinct.1 later
      by_cases same : report.rule = name <;> simp [same, different]
    rw [List.flatMap_cons, others]
    refine (List.Perm.append_left _ (ih distinct.2 fun report known => ?_)).trans
      (List.filter_append_perm (·.rule = first) reports)
    obtain ⟨held, different⟩ := List.mem_filter.mp known
    exact (List.mem_cons.mp (named report held)).resolve_left (by simpa using different)

/-- The rule and the index of the instance that reports. -/
def Diagnostic.key (diagnostic : Diagnostic) : String × Int := (diagnostic.rule, diagnostic.index)

namespace Collection

/-! ## Groups -/

/-- The diagnostics of a rule, in order. -/
def group (collection : Collection) (rule : String) : List Diagnostic :=
  (collection.groups.value? rule).getD []

/-- The diagnostics of an instance of a rule, in order. -/
def attributed (collection : Collection) (key : String × Int) : List Diagnostic :=
  ((collection.groups.value? key.1).getD []).filter fun diagnostic => diagnostic.index = key.2

theorem isFrozen_accept (collection : Collection) (diagnostic : Diagnostic) :
    (collection.accept diagnostic).isFrozen = collection.isFrozen := by
  cases frozen : collection.isFrozen <;> simp [accept, add?, frozen]

theorem isFrozen_foldl_accept (diagnostics : List Diagnostic) (collection : Collection) :
    (diagnostics.foldl accept collection).isFrozen = collection.isFrozen := by
  induction diagnostics generalizing collection with
  | nil => rfl
  | cons diagnostic rest ih => rw [List.foldl_cons, ih, isFrozen_accept]

theorem group_accept
    {collection : Collection}
    (unfrozen : collection.isFrozen = false)
    (diagnostic : Diagnostic)
    (rule : String) :
    (collection.accept diagnostic).group rule =
      collection.group rule ++ [diagnostic].filter (·.rule = rule) := by
  simp only [accept, add?, unfrozen, group, Bool.false_eq_true, if_false, Option.getD_some,
    Table.value?_set]
  by_cases same : diagnostic.rule = rule
  · simp [same]
  · simp [same, Ne.symm same]

theorem attributed_eq (collection : Collection) (key : String × Int) :
    collection.attributed key = (collection.group key.1).filter (·.index = key.2) :=
  rfl

theorem attributed_accept
    {collection : Collection}
    (unfrozen : collection.isFrozen = false)
    (diagnostic : Diagnostic)
    (key : String × Int) :
    (collection.accept diagnostic).attributed key =
      collection.attributed key ++ if diagnostic.key = key then [diagnostic] else [] := by
  rw [attributed_eq, attributed_eq, group_accept unfrozen, List.filter_append]
  by_cases same : diagnostic.rule = key.1
  · by_cases index_eq : diagnostic.index = key.2 <;>
      simp [Diagnostic.key, Prod.ext_iff, same, index_eq]
  · simp [Diagnostic.key, Prod.ext_iff, same]

theorem attributed_foldl_accept
    {collection : Collection}
    {diagnostics : List Diagnostic}
    {own : String × Int}
    (unfrozen : collection.isFrozen = false)
    (all : ∀ diagnostic ∈ diagnostics, diagnostic.key = own)
    (key : String × Int) :
    (diagnostics.foldl accept collection).attributed key =
      collection.attributed key ++ if own = key then diagnostics else [] := by
  induction diagnostics generalizing collection with
  | nil => simp
  | cons diagnostic rest ih =>
    have later : (collection.accept diagnostic).isFrozen = false := by rw [isFrozen_accept, unfrozen]
    have others : ∀ other ∈ rest, other.key = own := by
      intro other known
      exact all other (List.mem_cons_of_mem _ known)
    rw [List.foldl_cons, ih later others, attributed_accept unfrozen,
      all diagnostic List.mem_cons_self]
    split <;> simp

/-- The state follows from the counts of errors and warnings. -/
theorem state_eq (collection : Collection) :
    collection.state =
      if 0 < collection.count .error then .error
      else if 0 < collection.count .warn then .warning
      else .passing := by
  have occurs : ∀ severity, 0 < collection.count severity ↔
      (collection.diagnostics.map (·.severity)).contains severity = true := by
    intro severity
    rw [count, List.countP_pos_iff, List.contains_iff_mem, List.mem_map]
    simp
  simp only [state, LintState.ofSeverities, occurs]

theorem group_foldl_accept
    {collection : Collection}
    (unfrozen : collection.isFrozen = false)
    (diagnostics : List Diagnostic)
    (rule : String) :
    (diagnostics.foldl accept collection).group rule =
      collection.group rule ++ diagnostics.filter (·.rule = rule) := by
  induction diagnostics generalizing collection with
  | nil => rw [List.foldl_nil, List.filter_nil, List.append_nil]
  | cons diagnostic rest ih =>
    have later : (collection.accept diagnostic).isFrozen = false := by rw [isFrozen_accept, unfrozen]
    rw [List.foldl_cons, ih later, group_accept unfrozen, List.append_assoc, ← List.filter_append,
      List.singleton_append]

/-- A diagnostic of a rule that has a group makes no new group. -/
theorem keys_groups_accept
    {collection : Collection}
    {diagnostic : Diagnostic}
    (known : diagnostic.rule ∈ collection.groups.keys) :
    (collection.accept diagnostic).groups.keys = collection.groups.keys := by
  cases frozen : collection.isFrozen
  · simp [accept, add?, frozen, Table.keys_set, known]
  · simp [accept, add?, frozen]

/-- A diagnostic is attributed to nobody else. -/
theorem attributed_accept_of_ne
    {diagnostic : Diagnostic}
    {key : String × Int}
    (different : diagnostic.key ≠ key)
    (collection : Collection) :
    (collection.accept diagnostic).attributed key = collection.attributed key := by
  cases frozen : collection.isFrozen
  · rw [attributed_accept frozen, if_neg different, List.append_nil]
  · simp [accept, add?, frozen]

/-- A collection has what it accepts. -/
theorem mem_diagnostics_foldl_accept
    {collection : Collection}
    {accepted : List Diagnostic}
    {diagnostic : Diagnostic}
    (unfrozen : collection.isFrozen = false) :
    diagnostic ∈ (accepted.foldl accept collection).diagnostics ↔
      diagnostic ∈ collection.diagnostics ∨ diagnostic ∈ accepted := by
  induction accepted generalizing collection with
  | nil => simp
  | cons first rest ih =>
    have later : (collection.accept first).isFrozen = false := by rw [isFrozen_accept, unfrozen]
    have here : diagnostic ∈ (collection.accept first).diagnostics ↔
        diagnostic ∈ collection.diagnostics ∨ diagnostic = first := by
      simp only [accept, add?, unfrozen, Bool.false_eq_true, if_false, Option.getD_some]
      exact Table.mem_flatMap_set_append
    rw [List.foldl_cons, ih later, here, List.mem_cons, or_assoc]

theorem state_eq_error_iff {collection : Collection} :
    collection.state = .error ↔
      ∃ diagnostic ∈ collection.diagnostics, diagnostic.severity = .error := by
  have occurs : (collection.diagnostics.map (·.severity)).contains .error = true ↔
      ∃ diagnostic ∈ collection.diagnostics, diagnostic.severity = .error := by
    rw [List.contains_iff_mem, List.mem_map]
  rw [← occurs, state, LintState.ofSeverities]
  split
  · next some => exact ⟨fun _ => some, fun _ => rfl⟩
  · next none =>
    refine ⟨fun same => ?_, fun some => absurd some none⟩
    split at same <;> contradiction

section

variable {first second : Collection}

/-- When each instance has the same diagnostics, only their interleaving may differ. -/
theorem group_perm
    (same : ∀ key, first.attributed key = second.attributed key)
    (rule : String) :
    (first.group rule).Perm (second.group rule) :=
  Diagnostic.perm_of_filter_eq (·.index) fun index => same (rule, index)

theorem diagnostics_perm
    (keys_eq : first.groups.keys = second.groups.keys)
    (distinct : first.groups.keys.Nodup)
    (same : ∀ rule, (first.group rule).Perm (second.group rule)) :
    first.diagnostics.Perm second.diagnostics := by
  have secondDistinct := distinct
  rw [keys_eq] at secondDistinct
  rw [diagnostics, diagnostics, Table.flatMap_eq distinct, Table.flatMap_eq secondDistinct, keys_eq]
  exact List.Perm.flatMap_left _ fun rule _ => same rule

theorem count_eq_of_perm (same : first.diagnostics.Perm second.diagnostics) (severity : Severity) :
    first.count severity = second.count severity :=
  same.countP_eq _

theorem state_eq_of_perm (same : first.diagnostics.Perm second.diagnostics) :
    first.state = second.state :=
  LintState.ofSeverities_eq_of_perm (same.map _)

end

/-! ## What operations make of a collection -/

/-- The diagnostic that an operation adds, unless the collection is frozen. -/
def Operation.added? (isFrozen : Bool) : Operation → Option Diagnostic
  | add diagnostic => if isFrozen then none else some diagnostic
  | _ => none

/-- The rule that an operation declares, or of which it adds a diagnostic. -/
def Operation.named? (isFrozen : Bool) : Operation → Option String
  | declare rule => some rule
  | operation => (operation.added? isFrozen).map (·.rule)

/-- The diagnostics that are added before the collection is frozen, in order. -/
def accepted (operations : List Operation) : List Diagnostic :=
  (operations.takeWhile (· ≠ .freeze)).filterMap (·.added? false)

/-- The rules that are declared, or of which a diagnostic is accepted, in order. -/
def named (operations : List Operation) : List String :=
  (operations.takeWhile (· ≠ .freeze)).filterMap (·.named? false) ++
    (operations.dropWhile (· ≠ .freeze)).filterMap (·.named? true)

theorem accepted_append_singleton (operations : List Operation) (operation : Operation) :
    accepted (operations ++ [operation]) =
      accepted operations ++ (operation.added? (decide (.freeze ∈ operations))).toList := by
  by_cases frozen : .freeze ∈ operations
  · obtain ⟨before, behind, rfl, fresh⟩ := List.eq_append_cons_of_mem frozen
    rw [List.append_assoc, List.cons_append, accepted, accepted, takeWhile_ne_append fresh,
      takeWhile_ne_append fresh, decide_eq_true frozen]
    cases operation <;> simp [Operation.added?]
  · rw [accepted, accepted, takeWhile_ne_eq_self frozen,
      List.takeWhile_append_of_pos (ne_of_mem_of_notMem frozen), List.filterMap_append,
      decide_eq_false frozen]
    cases operation <;> simp [Operation.added?]

theorem named_append_singleton (operations : List Operation) (operation : Operation) :
    named (operations ++ [operation]) =
      named operations ++ (operation.named? (decide (.freeze ∈ operations))).toList := by
  by_cases frozen : .freeze ∈ operations
  · obtain ⟨before, behind, rfl, fresh⟩ := List.eq_append_cons_of_mem frozen
    rw [List.append_assoc, List.cons_append, named, named, takeWhile_ne_append fresh,
      takeWhile_ne_append fresh, dropWhile_ne_append fresh, dropWhile_ne_append fresh,
      ← List.cons_append, List.filterMap_append, List.append_assoc, decide_eq_true frozen]
    cases operation <;> simp [Operation.named?, Operation.added?]
  · rw [named, named, takeWhile_ne_eq_self frozen, dropWhile_ne_eq_nil frozen,
      List.takeWhile_append_of_pos (ne_of_mem_of_notMem frozen),
      List.dropWhile_append_of_pos (ne_of_mem_of_notMem frozen), List.filterMap_append,
      decide_eq_false frozen]
    cases operation <;> simp [Operation.named?, Operation.added?]

/-- The rule of an accepted diagnostic is named. -/
theorem rule_mem_named
    {operations : List Operation}
    {diagnostic : Diagnostic}
    (known : diagnostic ∈ accepted operations) :
    diagnostic.rule ∈ named operations := by
  obtain ⟨operation, held, adds⟩ := List.mem_filterMap.mp known
  refine List.mem_append_left _ (List.mem_filterMap.mpr ⟨operation, held, ?_⟩)
  cases operation with
  | declare rule => contradiction
  | _ => exact congrArg (Option.map (·.rule)) adds

variable {collection : Collection}

theorem isFrozen_perform (operation : Operation) :
    (collection.perform operation).1.isFrozen =
      (collection.isFrozen || decide (operation = .freeze)) := by
  cases operation with
  | declare rule => simp [perform]
  | freeze => simp [perform, freeze]
  | iterate => simp [perform]
  | add diagnostic => cases frozen : collection.isFrozen <;> simp [perform, add?, frozen]

/-- What an operation names comes behind the groups, unless it has a group. -/
theorem keys_perform (operation : Operation) :
    (collection.perform operation).1.groups.keys = collection.groups.keys ++
      (operation.named? collection.isFrozen).toList.filter (· ∉ collection.groups.keys) := by
  cases operation with
  | declare rule =>
    rw [perform, groups_declare, keys_append_emptyGroups]
    by_cases known : rule ∈ collection.groups.keys <;> simp [Operation.named?, known]
  | add diagnostic =>
    cases frozen : collection.isFrozen with
    | true => simp [perform, add?, frozen, Operation.named?, Operation.added?]
    | false =>
      simp only [perform, add?, frozen, Bool.false_eq_true, if_false, Table.keys_set]
      by_cases known : diagnostic.rule ∈ collection.groups.keys <;>
        simp [Operation.named?, Operation.added?, known]
  | _ => simp [perform, freeze, Operation.named?, Operation.added?]

theorem group_declare (collection : Collection) (declaredRule rule : String) :
    (collection.declare declaredRule).group rule = collection.group rule := by
  unfold declare
  split
  · rfl
  · next unknown =>
    have none : collection.groups.value? declaredRule = Option.none := by
      simpa [Table.hasKey] using unknown
    rw [group, Table.value?_set]
    split
    · next same =>
      rw [group, same, none]
      rfl
    · rfl

/-- What an operation adds comes to the group of its rule. -/
theorem group_perform (operation : Operation) (rule : String) :
    (collection.perform operation).1.group rule = collection.group rule ++
      (operation.added? collection.isFrozen).toList.filter (·.rule = rule) := by
  cases operation with
  | declare declaredRule =>
    rw [perform, group_declare]
    exact (List.append_nil _).symm
  | add diagnostic =>
    cases frozen : collection.isFrozen with
    | true => simp [perform, add?, frozen, Operation.added?]
    | false =>
      have performed : (collection.perform (.add diagnostic)).1 = collection.accept diagnostic := by
        simp [perform, accept, add?, frozen]
      rw [performed, group_accept frozen]
      rfl
  | _ => exact (List.append_nil _).symm

theorem isFrozen_performAll (operations : List Operation) :
    (empty.performAll operations).isFrozen = decide (.freeze ∈ operations) := by
  induction operations using List.reverseRecOn with
  | nil => rfl
  | append_singleton operations operation ih =>
    rw [performAll_append, performAll_cons, performAll_nil, isFrozen_perform, ih, ← Bool.decide_or]
    simp [eq_comm]

/-- The groups are in the order in which their rules are named. -/
theorem keys_performAll (operations : List Operation) :
    (empty.performAll operations).groups.keys = (named operations).eraseDups := by
  induction operations using List.reverseRecOn with
  | nil => rfl
  | append_singleton operations operation ih =>
    rw [performAll_append, performAll_cons, performAll_nil, keys_perform, ih, isFrozen_performAll,
      named_append_singleton, Table.eraseDups_append_toList]

/-- The group of a rule has its accepted diagnostics. -/
theorem group_performAll (operations : List Operation) (rule : String) :
    (empty.performAll operations).group rule = (accepted operations).filter (·.rule = rule) := by
  induction operations using List.reverseRecOn with
  | nil => rfl
  | append_singleton operations operation ih =>
    rw [performAll_append, performAll_cons, performAll_nil, group_perform, ih, isFrozen_performAll,
      accepted_append_singleton, List.filter_append]

theorem nodup_keys_performAll (operations : List Operation) :
    (empty.performAll operations).groups.keys.Nodup := by
  rw [keys_performAll]
  exact Table.nodup_eraseDups _

theorem value?_eq (collection : Collection) (rule : String) :
    collection.groups.value? rule =
      if rule ∈ collection.groups.keys then some (collection.group rule) else none := by
  have known : (collection.groups.value? rule).isSome = true ↔ rule ∈ collection.groups.keys :=
    Table.hasKey_iff
  simp only [group, ← known]
  cases collection.groups.value? rule <;> rfl

theorem groups_eq_map (distinct : collection.groups.keys.Nodup) :
    collection.groups = collection.groups.keys.map fun rule => (rule, collection.group rule) := by
  have each : ∀ entry ∈ collection.groups, (entry.1, collection.group entry.1) = entry := by
    intro entry held
    rw [group, (Table.value?_eq_some_iff distinct).mpr held]
    rfl
  rw [Table.keys, List.map_map]
  exact ((List.map_congr_left each).trans (List.map_id _)).symm

/-- The diagnostics are the groups, one behind the other. -/
theorem diagnostics_performAll (operations : List Operation) :
    (empty.performAll operations).diagnostics =
      (empty.performAll operations).groups.keys.flatMap fun rule =>
        (accepted operations).filter (·.rule = rule) := by
  rw [diagnostics, Table.flatMap_eq (nodup_keys_performAll operations)]
  exact List.flatMap_congr fun rule _ => group_performAll operations rule

/-- The diagnostics are the accepted ones in another order. -/
theorem perm_accepted (operations : List Operation) :
    (empty.performAll operations).diagnostics.Perm (accepted operations) := by
  rw [diagnostics_performAll]
  refine perm_flatMap_filter (nodup_keys_performAll operations) fun diagnostic known => ?_
  rw [keys_performAll, List.mem_eraseDups]
  exact rule_mem_named known

/-- What has become of an empty collection by some operations. -/
structure Groups (operations : List Operation) : Prop where
  /-- Before the freeze, a diagnostic is accepted. -/
  granted : ∀ before diagnostic after, operations = before ++ .add diagnostic :: after →
    .freeze ∉ before → ((empty.performAll before).perform (.add diagnostic)).2 = .silence
  /-- From the freeze on, a diagnostic is refused, and the collection stays as it is. -/
  refused : ∀ before diagnostic after, operations = before ++ .add diagnostic :: after →
    .freeze ∈ before → (empty.performAll before).perform (.add diagnostic) =
      (empty.performAll before, .refusal frozenFailure)
  isFrozen_iff : (empty.performAll operations).isFrozen = true ↔ .freeze ∈ operations
  keys_eq : (empty.performAll operations).groups.keys = (named operations).eraseDups
  groups_eq : (empty.performAll operations).groups =
    (named operations).eraseDups.map fun rule => (rule, (accepted operations).filter (·.rule = rule))
  /-- Iterating goes through the groups, one behind the other. -/
  diagnostics_eq : (empty.performAll operations).diagnostics =
    (named operations).eraseDups.flatMap fun rule =>
      (accepted operations).filter (·.rule = rule)
  size_eq : (empty.performAll operations).size = (accepted operations).length
  count_eq : ∀ severity, (empty.performAll operations).count severity =
    (accepted operations).countP (·.severity = severity)
  /-- The state tells which severities occur: an error, else a warning, else neither. -/
  state_eq : (empty.performAll operations).state =
    if ∃ diagnostic ∈ accepted operations, diagnostic.severity = .error then .error
    else if ∃ diagnostic ∈ accepted operations, diagnostic.severity = .warn then .warning
    else .passing

theorem groups_of_operations (operations : List Operation) : Groups operations := by
  have frozen_eq := isFrozen_performAll
  have keys_eq := keys_performAll operations
  have perm := perm_accepted operations
  have count_eq : ∀ severity, (empty.performAll operations).count severity =
      (accepted operations).countP (·.severity = severity) := by
    intro severity
    rw [count, perm.countP_eq]
    simp only [beq_eq_decide]
  refine {
    keys_eq, count_eq
    granted := fun before diagnostic _ _ fresh => ?_
    refused := fun before diagnostic _ _ frozen => ?_
    isFrozen_iff := by rw [frozen_eq, decide_eq_true_iff]
    groups_eq := ?_
    diagnostics_eq := by rw [diagnostics_performAll, keys_eq]
    size_eq := perm.length_eq
    state_eq := ?_ }
  · have unfrozen : (empty.performAll before).isFrozen = false := by
      rw [frozen_eq, decide_eq_false fresh]
    simp [perform, add?, unfrozen]
  · have isFrozen : (empty.performAll before).isFrozen = true := by
      rw [frozen_eq, decide_eq_true frozen]
    simp [perform, add?, isFrozen]
  · rw [groups_eq_map (nodup_keys_performAll operations), keys_eq]
    exact List.map_congr_left fun rule _ => by rw [group_performAll]
  · have occurs : ∀ severity, 0 < (empty.performAll operations).count severity ↔
        ∃ diagnostic ∈ accepted operations, diagnostic.severity = severity := by
      intro severity
      rw [count_eq, List.countP_pos_iff]
      simp only [decide_eq_true_iff]
    simp only [state_eq, occurs]

/-! ## Interleavings -/

/-- Operations without declarations add the same diagnostics of each rule, in the same order. -/
structure Interleaved (first second : List Operation) : Prop where
  first_declared : declared first = []
  second_declared : declared second = []
  accepted_eq : ∀ rule,
    (accepted first).filter (·.rule = rule) = (accepted second).filter (·.rule = rule)

/-- The collection after some rules have been declared and other operations have followed. -/
def afterDeclaring (rules : List String) (operations : List Operation) : Collection :=
  empty.performAll (rules.map .declare ++ operations)

/-- Declaring rules one after another is using a collection. -/
theorem foldl_declare (rules : List String) :
    rules.foldl declare empty = afterDeclaring rules [] := by
  rw [afterDeclaring, List.append_nil, performAll, List.foldl_map]
  rfl

/-- Two collections are equal if both or neither are frozen, and each rule has the same group in both
or in neither.  As with tables in general, the order of the groups does not count. -/
structure IsEqual (first second : Collection) : Prop where
  isFrozen_eq : first.isFrozen = second.isFrozen
  value?_eq : ∀ rule, first.groups.value? rule = second.groups.value? rule

theorem accepted_declare_append (rules : List String) (operations : List Operation) :
    accepted (rules.map .declare ++ operations) = accepted operations := by
  have goesOn : ∀ operation ∈ rules.map Operation.declare, decide (operation ≠ .freeze) = true := by
    simp
  rw [accepted, List.takeWhile_append_of_pos goesOn, List.filterMap_append, List.filterMap_map]
  simp [Operation.added?, accepted]

theorem named_declare_append (rules : List String) (operations : List Operation) :
    named (rules.map .declare ++ operations) = rules ++ named operations := by
  have goesOn : ∀ operation ∈ rules.map Operation.declare, decide (operation ≠ .freeze) = true := by
    simp
  rw [named, List.takeWhile_append_of_pos goesOn, List.dropWhile_append_of_pos goesOn,
    List.filterMap_append, List.filterMap_map]
  simp [Function.comp_def, Operation.named?, named]

/-- Without declarations, only diagnostics name rules. -/
theorem named_eq
    {operations : List Operation}
    (undeclaring : declared operations = []) :
    named operations = (accepted operations).map (·.rule) := by
  have named?_eq : ∀ operation ∈ operations, ∀ isFrozen,
      operation.named? isFrozen = (operation.added? isFrozen).map (·.rule) := by
    intro operation held isFrozen
    cases operation with
    | declare rule =>
      have none := List.filterMap_eq_nil_iff.mp undeclaring _ held
      contradiction
    | _ => rfl
  have late : (operations.dropWhile (· ≠ .freeze)).filterMap (·.named? true) = [] := by
    refine List.filterMap_eq_nil_iff.mpr fun operation held => ?_
    rw [named?_eq operation ((List.dropWhile_suffix _).subset held)]
    cases operation <;> rfl
  rw [named, late, List.append_nil, accepted, List.map_filterMap]
  refine List.filterMap_congr fun operation held => ?_
  rw [named?_eq operation ((List.takeWhile_prefix _).subset held)]

section

variable {rules : List String} {first second : List Operation}

theorem keys_afterDeclaring (undeclaring : declared first = []) :
    (afterDeclaring rules first).groups.keys =
      (rules ++ (accepted first).map (·.rule)).eraseDups := by
  rw [afterDeclaring, keys_performAll, named_declare_append, named_eq undeclaring]

theorem group_afterDeclaring (rule : String) :
    (afterDeclaring rules first).group rule = (accepted first).filter (·.rule = rule) := by
  rw [afterDeclaring, group_performAll, accepted_declare_append]

theorem isFrozen_afterDeclaring :
    (afterDeclaring rules first).isFrozen = decide (.freeze ∈ first) := by
  rw [afterDeclaring, isFrozen_performAll]
  simp

theorem perm_afterDeclaring : (afterDeclaring rules first).diagnostics.Perm (accepted first) := by
  have perm := perm_accepted (rules.map .declare ++ first)
  rwa [accepted_declare_append] at perm

namespace Interleaved

theorem mem_rules_iff (interleaved : Interleaved first second) (rule : String) :
    rule ∈ (accepted first).map (·.rule) ↔ rule ∈ (accepted second).map (·.rule) := by
  have named : ∀ diagnostics : List Diagnostic,
      rule ∈ diagnostics.map (·.rule) ↔ diagnostics.filter (·.rule = rule) ≠ [] := by
    intro diagnostics
    simp [List.filter_eq_nil_iff]
  rw [named, named, interleaved.accepted_eq]

theorem perm (interleaved : Interleaved first second) :
    (accepted first).Perm (accepted second) :=
  Diagnostic.perm_of_filter_eq (·.rule) interleaved.accepted_eq

end Interleaved

/-- What the collections have in common that come of the same declarations and of interleaved
operations. -/
structure Concur (rules : List String) (first second : List Operation) : Prop where
  groups_eq : ∀ rule, (afterDeclaring rules first).groups.value? rule =
    (afterDeclaring rules second).groups.value? rule
  size_eq : (afterDeclaring rules first).size = (afterDeclaring rules second).size
  count_eq : ∀ severity,
    (afterDeclaring rules first).count severity = (afterDeclaring rules second).count severity
  state_eq : (afterDeclaring rules first).state = (afterDeclaring rules second).state
  /-- They are equal if both or neither are frozen. -/
  isEqual_iff : IsEqual (afterDeclaring rules first) (afterDeclaring rules second) ↔
    (.freeze ∈ first ↔ .freeze ∈ second)
  /-- If all rules are declared that are used, the order of the groups is the same as well. -/
  eq_of_declared : (∀ diagnostic ∈ accepted first, diagnostic.rule ∈ rules) →
    (.freeze ∈ first ↔ .freeze ∈ second) →
      afterDeclaring rules first = afterDeclaring rules second

/-- The groups are in the order of the declarations if no other rule is used. -/
theorem groups_of_declared
    (undeclaring : declared first = [])
    (all : ∀ diagnostic ∈ accepted first, diagnostic.rule ∈ rules) :
    (afterDeclaring rules first).groups =
      rules.eraseDups.map fun rule => (rule, (accepted first).filter (·.rule = rule)) := by
  have distinct : (afterDeclaring rules first).groups.keys.Nodup := nodup_keys_performAll _
  rw [groups_eq_map distinct, keys_afterDeclaring undeclaring,
    Table.eraseDups_append_of_subset (List.forall_mem_map.mpr all)]
  exact List.map_congr_left fun rule _ => by rw [group_afterDeclaring]

theorem concur_of_interleaved (interleaved : Interleaved first second) (rules : List String) :
    Concur rules first second := by
  have group_eq : ∀ rule,
      (afterDeclaring rules first).group rule = (afterDeclaring rules second).group rule := by
    intro rule
    rw [group_afterDeclaring, group_afterDeclaring, interleaved.accepted_eq]
  have mem_keys_iff : ∀ rule, rule ∈ (afterDeclaring rules first).groups.keys ↔
      rule ∈ (afterDeclaring rules second).groups.keys := by
    intro rule
    rw [keys_afterDeclaring interleaved.first_declared,
      keys_afterDeclaring interleaved.second_declared, List.mem_eraseDups, List.mem_eraseDups,
      List.mem_append, List.mem_append, interleaved.mem_rules_iff]
  have groups_eq : ∀ rule, (afterDeclaring rules first).groups.value? rule =
      (afterDeclaring rules second).groups.value? rule := by
    intro rule
    simp only [value?_eq, mem_keys_iff, group_eq]
  have perm : (afterDeclaring rules first).diagnostics.Perm
      (afterDeclaring rules second).diagnostics :=
    perm_afterDeclaring.trans (interleaved.perm.trans perm_afterDeclaring.symm)
  have isFrozen_iff : (afterDeclaring rules first).isFrozen =
      (afterDeclaring rules second).isFrozen ↔ (.freeze ∈ first ↔ .freeze ∈ second) := by
    rw [isFrozen_afterDeclaring, isFrozen_afterDeclaring, decide_eq_decide]
  refine {
    groups_eq
    size_eq := perm.length_eq
    count_eq := count_eq_of_perm perm
    state_eq := state_eq_of_perm perm
    isEqual_iff := ⟨fun same => isFrozen_iff.mp same.isFrozen_eq,
      fun alike => ⟨isFrozen_iff.mpr alike, groups_eq⟩⟩
    eq_of_declared := fun all alike => ?_ }
  have allSecond : ∀ diagnostic ∈ accepted second, diagnostic.rule ∈ rules :=
    fun diagnostic known => all diagnostic (interleaved.perm.mem_iff.mpr known)
  have tables_eq : (afterDeclaring rules first).groups = (afterDeclaring rules second).groups := by
    rw [groups_of_declared interleaved.first_declared all,
      groups_of_declared interleaved.second_declared allSecond]
    exact List.map_congr_left fun rule _ => by rw [interleaved.accepted_eq]
  rw [Collection.mk.injEq]
  exact ⟨tables_eq, isFrozen_iff.mpr alike⟩

end

/-- A collection groups what it accepts, and however the operations of different rules are
interleaved, the collection is the same. -/
theorem grouping_of_operations :
    (∀ operations, Groups operations) ∧
      ∀ rules first second, Interleaved first second → Concur rules first second :=
  ⟨groups_of_operations, fun rules _ _ interleaved => concur_of_interleaved interleaved rules⟩

/-- Two rules are declared, and it does not matter which of them is the first to report. -/
theorem grouping_of_shuffled :
    afterDeclaring ["b", "a"]
        [.add ⟨"a", 0, .warn, "", none⟩, .add ⟨"b", 0, .error, "", none⟩,
          .add ⟨"a", 1, .info, "", none⟩, .freeze] =
      afterDeclaring ["b", "a"]
        [.add ⟨"b", 0, .error, "", none⟩, .add ⟨"a", 0, .warn, "", none⟩,
          .add ⟨"a", 1, .info, "", none⟩, .freeze] := by
  have interleaved : Interleaved
      [.add ⟨"a", 0, .warn, "", none⟩, .add ⟨"b", 0, .error, "", none⟩,
        .add ⟨"a", 1, .info, "", none⟩, .freeze]
      [.add ⟨"b", 0, .error, "", none⟩, .add ⟨"a", 0, .warn, "", none⟩,
        .add ⟨"a", 1, .info, "", none⟩, .freeze] := by
    refine ⟨rfl, rfl, fun rule => ?_⟩
    by_cases first : "a" = rule
    · subst first
      rfl
    · simp [accepted, Operation.added?, List.filter_cons, first]
  exact (grouping_of_operations.2 ["b", "a"] _ _ interleaved).eq_of_declared
    (by decide) (by decide)

end Collection
end MarkupLint
