import MarkupLint.Batch.Run
import MarkupLint.Proofs.Linting.Configured
import MarkupLint.Proofs.Traversal

/-!
# What becomes of a configuration

A configuration can be given as a value or as settings, which is what validating a value leads to.
Both ways lead to the same plan, or to the same refusal, except for values that count as no
configuration.  The rules of settings are then made into instances, entry by entry: disabled rules
and rules that are not known are passed over, and the first entry that fails settles the error.
-/

namespace MarkupLint
namespace Config

/-! ## Values and settings -/

/-- What settings are used for, done with a value: it is validated first. -/
def validated (value : Value) (use : Settings → Except Stop α × List LogRecord) :
    Except Stop α × List LogRecord :=
  match Settings.ofValue value none with
  | .error stop => (.error stop, [])
  | .ok settings => use settings

/-- The plan without rules, patterns and limit. -/
def Plan.bare : Plan := ⟨[], [], none⟩

/-- The values that are no tables and count as no configuration all the same. -/
inductive IsOverlooked : Value → Prop where
  | null : IsOverlooked .null
  | no : IsOverlooked (.boolean false)
  | zero : IsOverlooked (.integer 0)
  | floatZero (isNegative : Bool) (exponent : Int) :
      IsOverlooked (.float (.finite isNegative 0 exponent))
  | noText : IsOverlooked (.text "")
  | noItems : IsOverlooked (.list [])
  | noTuple : IsOverlooked (.tuple [])

theorem IsOverlooked.isNothing {value : Value} (overlooked : IsOverlooked value) :
    Plan.isNothing value = true := by
  cases overlooked <;> rfl

theorem IsOverlooked.ofValue_eq {value : Value} (overlooked : IsOverlooked value) :
    Settings.ofValue value none = .error (.error ⟨.notTable value.typeName, none⟩) := by
  cases overlooked <;> rfl

/-- A value that counts as no configuration is overlooked or the empty table. -/
theorem isNothing_cases {value : Value} (nothing : Plan.isNothing value = true) :
    IsOverlooked value ∨ value = .table [] := by
  cases value with
  | null => exact .inl .null
  | boolean flag =>
    cases flag with
    | false => exact .inl .no
    | true => contradiction
  | integer number =>
    obtain rfl : number = 0 := eq_of_beq nothing
    exact .inl .zero
  | float number =>
    cases number with
    | finite isNegative significand exponent =>
      obtain rfl : significand = 0 := eq_of_beq nothing
      exact .inl (.floatZero isNegative exponent)
    | infinite isNegative => contradiction
    | nan => contradiction
  | text text =>
    obtain rfl : text = "" := String.isEmpty_iff.mp nothing
    exact .inl .noText
  | list items =>
    obtain rfl : items = [] := List.isEmpty_iff.mp nothing
    exact .inl .noItems
  | tuple items =>
    obtain rfl : items = [] := List.isEmpty_iff.mp nothing
    exact .inl .noTuple
  | table entries =>
    obtain rfl : entries = [] := List.isEmpty_iff.mp nothing
    exact .inr rfl
  | dateTime | date | time | script => contradiction

theorem Plan.ofValue_eq
    (registry : Rule.Registry)
    {value : Value}
    (read : ¬ IsOverlooked value) :
    Plan.ofValue registry value = validated value (Plan.ofSettings registry) := by
  have same : (if Plan.isNothing value then .table [] else value) = value := by
    cases nothing : Plan.isNothing value with
    | false => rfl
    | true => exact ((isNothing_cases nothing).resolve_left read).symm
  rw [Plan.ofValue, same]
  rfl

theorem IsOverlooked.plan_eq
    {value : Value}
    (overlooked : IsOverlooked value)
    (registry : Rule.Registry) :
    Plan.ofValue registry value = (.ok .bare, []) := by
  rw [Plan.ofValue, overlooked.isNothing]
  rfl

theorem IsOverlooked.validated_eq
    {value : Value}
    (overlooked : IsOverlooked value)
    (use : Settings → Except Stop α × List LogRecord) :
    validated value use = (.error (.error ⟨.notTable value.typeName, none⟩), []) := by
  rw [validated, overlooked.ofValue_eq]

theorem lintDocument_value_eq
    (registry : Rule.Registry)
    (document : Document)
    (precision : Precision)
    (precedence : Precedence Linting.SessionTurn)
    {value : Value}
    (read : ¬ IsOverlooked value) :
    Batch.lintDocument registry document (.value value) precision precedence =
      validated value fun settings =>
        Batch.lintDocument registry document (.settings settings) precision precedence := by
  rw [Batch.lintDocument, Plan.ofGiven, Plan.ofValue_eq registry read]
  unfold validated
  cases Settings.ofValue value none <;> rfl

/-- A value that is given leads to what it leads to if it is validated first. -/
structure Coincides (registry : Rule.Registry) (value : Value) : Prop where
  plan : Plan.ofGiven registry (.value value) =
    validated value fun settings => Plan.ofGiven registry (.settings settings)
  document : ∀ document precision precedence,
    Batch.lintDocument registry document (.value value) precision precedence =
      validated value fun settings =>
        Batch.lintDocument registry document (.settings settings) precision precedence
  source : ∀ source precision precedence,
    Batch.lintSource registry source (.value value) precision precedence =
      (Document.read source none).map fun document =>
        validated value fun settings =>
          Batch.lintDocument registry document (.settings settings) precision precedence

/-- A value is refused if it is validated first, and else taken for the plan without rules. -/
structure Slips (registry : Rule.Registry) (value : Value) : Prop where
  validated : ∀ {α : Type} (use : Settings → Except Stop α × List LogRecord),
    validated value use = (.error (.error ⟨.notTable value.typeName, none⟩), [])
  plan : Plan.ofGiven registry (.value value) = (.ok .bare, [])
  document : ∀ document precision precedence,
    Batch.lintDocument registry document (.value value) precision precedence =
      Batch.lintDocument registry document (.plan .bare) precision precedence
  source : ∀ source precision precedence,
    Batch.lintSource registry source (.value value) precision precedence =
      Batch.lintSource registry source (.plan .bare) precision precedence

/-- A value leads to the same plan, the same error and the same linting whether or not it is
validated first, unless it is no table and counts as no configuration: then validating it refuses it,
and only then. -/
theorem coincides_or_slips (registry : Rule.Registry) (value : Value) :
    (¬ IsOverlooked value ∧ Coincides registry value) ∨
      (IsOverlooked value ∧ Slips registry value ∧ ¬ Coincides registry value) := by
  by_cases overlooked : IsOverlooked value
  · have plan_eq : Plan.ofGiven registry (.value value) = (.ok .bare, []) :=
      overlooked.plan_eq registry
    have document_eq : ∀ document precision precedence,
        Batch.lintDocument registry document (.value value) precision precedence =
          Batch.lintDocument registry document (.plan .bare) precision precedence := by
      intro document precision precedence
      rw [Batch.lintDocument, plan_eq]
      rfl
    refine .inr ⟨overlooked, ⟨overlooked.validated_eq, plan_eq, document_eq, ?_⟩, ?_⟩
    · intro source precision precedence
      simp only [Batch.lintSource, document_eq]
    · intro coincides
      have accepted := coincides.plan
      rw [plan_eq, overlooked.validated_eq] at accepted
      cases congrArg Prod.fst accepted
  · refine .inl ⟨overlooked, Plan.ofValue_eq registry overlooked, ?_, ?_⟩
    · exact fun document precision precedence =>
      lintDocument_value_eq registry document precision precedence overlooked
    · intro source precision precedence
      simp only [Batch.lintSource, lintDocument_value_eq registry _ precision precedence overlooked]

/-- A list without items is no table, and yet it is taken for a configuration. -/
theorem ofValue_of_noItems :
    Plan.ofValue .builtin (.list []) = (.ok ⟨[], [], none⟩, []) ∧
      validated (.list []) (Plan.ofSettings .builtin) =
        (.error (.error ⟨.notTable "list", none⟩), []) :=
  ⟨rfl, rfl⟩

/-! ## Rules and instances -/

/-- Whether the value of a rule disables it. -/
def isDisabling : Value → Bool
  | .boolean value => !value
  | _ => false

/-- A rule that is to make instances of a value: its name in the configuration, and the rule that the
name stands for. -/
structure Assignment where
  rule : String
  definition : Rule.Definition
  value : Value

namespace Assignment

variable {assignment : Assignment}

/-- The rule makes instances: one of each item of a list in order, or else one. -/
def Makes (assignment : Assignment) (instances : List Rule.Instance) : Prop :=
  List.Forall₂ (fun item made => assignment.definition.instantiate item = .ok made)
    (instanceValues assignment.value) instances

/-- The rule fails at an item, but not at those in front of it. -/
def FailsWith (assignment : Assignment) (failure : Failure) : Prop :=
  ∃ before item behind, instanceValues assignment.value = before ++ item :: behind ∧
    (∀ earlier ∈ before, ∃ made, assignment.definition.instantiate earlier = .ok made) ∧
      assignment.definition.instantiate item = .error failure

/-- The rule rejects its value, by the failure that means a wrong type or the one that means a wrong
value, or by a kind of these. -/
def RejectsWith (assignment : Assignment) (failure : Failure) : Prop :=
  assignment.FailsWith failure ∧ (failure.isOf .type = true ∨ failure.isOf .value = true)

/-- The rule fails in another way. -/
def BreaksWith (assignment : Assignment) (failure : Failure) : Prop :=
  assignment.FailsWith failure ∧ ¬(failure.isOf .type = true ∨ failure.isOf .value = true)

/-- What an assignment leads to. -/
def perform (assignment : Assignment) : Except Stop (String × List Rule.Instance) :=
  (makeInstances assignment.definition assignment.rule assignment.value).map (assignment.rule, ·)

theorem perform_eq_ok_iff {entry : String × List Rule.Instance} :
    assignment.perform = .ok entry ↔ entry.1 = assignment.rule ∧ assignment.Makes entry.2 := by
  rw [Makes, ← mapM_eq_ok_iff, perform, makeInstances]
  cases (instanceValues assignment.value).mapM assignment.definition.instantiate with
  | ok instances => simp [Except.map, Except.mapError, Prod.ext_iff, eq_comm]
  | error failure => simp [Except.map, Except.mapError]

theorem perform_eq_error_iff {stop : Stop} :
    assignment.perform = .error stop ↔
      ∃ failure, assignment.FailsWith failure ∧ stop = stopOf assignment.rule failure := by
  simp only [FailsWith, ← mapM_eq_error_iff, perform, makeInstances]
  cases (instanceValues assignment.value).mapM assignment.definition.instantiate with
  | ok instances => simp [Except.map, Except.mapError]
  | error failure =>
    simp only [Except.map, Except.mapError, Except.error.injEq, exists_eq_left']
    exact eq_comm

theorem perform_eq_error_error_iff {error : Error} :
    assignment.perform = .error (.error error) ↔
      ∃ failure, assignment.RejectsWith failure ∧
        error = ⟨.invalidRule assignment.rule failure, none⟩ := by
  rw [perform_eq_error_iff]
  refine exists_congr fun failure => ?_
  rw [RejectsWith, and_assoc, ← Bool.or_eq_true, ← isRejection, stopOf]
  cases isRejection failure <;> simp

theorem perform_eq_error_failure_iff {failure : Failure} :
    assignment.perform = .error (.failure failure) ↔ assignment.BreaksWith failure := by
  rw [perform_eq_error_iff, BreaksWith, ← Bool.or_eq_true, ← isRejection]
  constructor
  · rintro ⟨other, failed, same⟩
    rw [stopOf] at same
    split at same
    · contradiction
    · next accepted =>
      cases same
      exact ⟨failed, accepted⟩
  · rintro ⟨failed, accepted⟩
    exact ⟨failure, failed, by rw [stopOf, if_neg accepted]⟩

end Assignment

section

variable (registry : Rule.Registry)

/-- The assignment in an entry, if the entry is enabled and its rule is known. -/
def assignment? (entry : String × Value) : Option Assignment :=
  if isDisabling entry.2 then none
  else (registry.value? entry.1).map fun definition => ⟨entry.1, definition, entry.2⟩

/-- The assignments in rules, in order. -/
def assignments (rules : Table Value) : List Assignment := rules.filterMap (assignment? registry)

/-- An entry is one at which reading the rules ends. -/
def Ends (entry : String × Value) : Prop :=
  ∃ assignment failure, assignment? registry entry = some assignment ∧ assignment.FailsWith failure

/-- What is noted of an entry. -/
def note? (entry : String × Value) : Option LogRecord :=
  if isDisabling entry.2 then some (disabledRecord entry.1)
  else if registry.hasKey entry.1 then none
  else some (unknownRecord entry.1)

end

variable {registry : Rule.Registry}

theorem readRuleSet_cons (rule : String) (value : Value) (rest : Table Value) :
    readRuleSet registry ((rule, value) :: rest) =
      if isDisabling value then (readRuleSet registry rest).withRecord (disabledRecord rule)
      else
        match registry.resolve rule with
        | .error _ => (readRuleSet registry rest).withRecord (unknownRecord rule)
        | .ok definition =>
          match makeInstances definition rule value with
          | .ok instances => (readRuleSet registry rest).withRule rule instances
          | .error stop => ⟨.error stop, []⟩ := by
  cases value with
  | boolean flag => cases flag <;> rfl
  | _ => rfl

/-- Entries without an assignment are passed over, and noted. -/
theorem readRuleSet_of_none
    {entry : String × Value}
    (none : assignment? registry entry = none)
    (rest : Table Value) :
    ∃ record, note? registry entry = some record ∧
      readRuleSet registry (entry :: rest) = (readRuleSet registry rest).withRecord record := by
  obtain ⟨rule, value⟩ := entry
  rw [readRuleSet_cons]
  simp only [assignment?, note?] at none ⊢
  split
  · exact ⟨_, rfl, rfl⟩
  · next enabled =>
    rw [if_neg enabled, Option.map_eq_none_iff] at none
    refine ⟨unknownRecord rule, ?_, ?_⟩
    · rw [Table.hasKey, none]
      rfl
    · rw [Rule.Registry.resolve, none]

/-- Entries with an assignment are not noted, and lead to what the assignment leads to. -/
theorem readRuleSet_of_some
    {entry : String × Value}
    {assignment : Assignment}
    (assigned : assignment? registry entry = some assignment)
    (rest : Table Value) :
    note? registry entry = none ∧ assignment.rule = entry.1 ∧
      readRuleSet registry (entry :: rest) =
        match assignment.perform with
        | .ok made => (readRuleSet registry rest).withRule made.1 made.2
        | .error stop => ⟨.error stop, []⟩ := by
  obtain ⟨rule, value⟩ := entry
  rw [readRuleSet_cons]
  simp only [assignment?, note?] at assigned ⊢
  split at assigned
  · contradiction
  · next enabled =>
    obtain ⟨definition, known, rfl⟩ := Option.map_eq_some_iff.mp assigned
    refine ⟨by simp [enabled, Table.hasKey, known], rfl, ?_⟩
    simp only [if_neg enabled, Rule.Registry.resolve, known, Assignment.perform]
    cases makeInstances definition rule value <;> rfl

/-- Reading rules carries out the assignments in them, up to the first one that fails. -/
theorem result_readRuleSet (rules : Table Value) :
    (readRuleSet registry rules).result = (assignments registry rules).mapM (·.perform) := by
  induction rules with
  | nil => rfl
  | cons entry rest ih =>
    cases assigned : assignment? registry entry with
    | none =>
      obtain ⟨record, -, same⟩ := readRuleSet_of_none assigned rest
      rw [same, assignments, List.filterMap_cons_none assigned]
      exact ih
    | some assignment =>
      obtain ⟨-, -, same⟩ := readRuleSet_of_some assigned rest
      rw [same, assignments, List.filterMap_cons_some assigned, List.mapM_cons]
      cases assignment.perform with
      | error stop => rfl
      | ok made =>
        simp only [RuleReading.withRule, ih, assignments]
        cases (rest.filterMap (assignment? registry)).mapM (·.perform) <;> rfl

/-- What is noted is noted of the entries in front of the one at which the reading ends. -/
theorem exists_noted (rules : Table Value) :
    ∃ met rest, rules = met ++ rest ∧ (∀ entry ∈ met, ¬ Ends registry entry) ∧
      (∀ entry ∈ rest.head?, Ends registry entry) ∧
        (readRuleSet registry rules).logs = met.filterMap (note? registry) := by
  induction rules with
  | nil => exact ⟨[], [], rfl, by simp, by simp, rfl⟩
  | cons entry rules ih =>
    obtain ⟨met, rest, split, quiet, last, logs_eq⟩ := ih
    cases assigned : assignment? registry entry with
    | none =>
      obtain ⟨record, noted, same⟩ := readRuleSet_of_none assigned rules
      refine ⟨entry :: met, rest, by rw [split]; rfl, List.forall_mem_cons.mpr ⟨?_, quiet⟩, last, ?_⟩
      · rintro ⟨assignment, failure, other, -⟩
        rw [assigned] at other
        contradiction
      · rw [same, List.filterMap_cons_some noted, ← logs_eq]
        rfl
    | some assignment =>
      obtain ⟨unnoted, -, same⟩ := readRuleSet_of_some assigned rules
      cases performed : assignment.perform with
      | error stop =>
        obtain ⟨failure, failed, -⟩ := Assignment.perform_eq_error_iff.mp performed
        refine ⟨[], entry :: rules, rfl, by simp, ?_, ?_⟩
        · rintro _ ⟨⟩
          exact ⟨assignment, failure, assigned, failed⟩
        · rw [same, performed]
          rfl
      | ok made =>
        refine ⟨entry :: met, rest, by rw [split]; rfl, List.forall_mem_cons.mpr ⟨?_, quiet⟩, last, ?_⟩
        · rintro ⟨_, failure, other, failed⟩
          obtain rfl : assignment = _ := Option.some.inj (assigned.symm.trans other)
          have stopped : assignment.perform = .error _ :=
            Assignment.perform_eq_error_iff.mpr ⟨failure, failed, rfl⟩
          rw [performed] at stopped
          contradiction
        · rw [same, performed, List.filterMap_cons_none unnoted, ← logs_eq]
          rfl

/-! ## Errors -/

theorem exists_perform_eq_ok_iff (assignment : Assignment) :
    (∃ entry, assignment.perform = .ok entry) ↔ ∃ instances, assignment.Makes instances := by
  simp only [Assignment.perform_eq_ok_iff, Prod.exists, exists_eq_left, exists_and_left]

/-- An error of the configuration means that a rule rejects its value, and that no rule in front of it
fails in another way. -/
theorem exists_mapM_perform_eq_error_iff {assignments : List Assignment} :
    (∃ error, assignments.mapM (·.perform) = .error (.error error)) ↔
      ∃ before rejecting behind, assignments = before ++ rejecting :: behind ∧
        (∃ failure, rejecting.RejectsWith failure) ∧
          ∀ earlier ∈ before, ∀ failure, ¬ earlier.BreaksWith failure := by
  have rejects_iff : ∀ assignment : Assignment, (∃ failure, assignment.RejectsWith failure) ↔
      ∃ error, assignment.perform = .error (.error error) := by
    intro assignment
    simp only [Assignment.perform_eq_error_error_iff]
    exact ⟨fun ⟨failure, rejects⟩ => ⟨_, failure, rejects, rfl⟩,
      fun ⟨_, failure, rejects, _⟩ => ⟨failure, rejects⟩⟩
  simp only [rejects_iff, ← Assignment.perform_eq_error_failure_iff]
  induction assignments with
  | nil => simp [pure, Except.pure]
  | cons assignment rest ih =>
    simp only [mapM_cons_eq_error_iff]
    constructor
    · rintro ⟨error, here | ⟨made, passed, later⟩⟩
      · exact ⟨[], assignment, rest, rfl, ⟨error, here⟩, List.forall_mem_nil _⟩
      · obtain ⟨before, rejecting, behind, rfl, rejected, sound⟩ := ih.mp ⟨error, later⟩
        refine ⟨assignment :: before, rejecting, behind, rfl, rejected,
          List.forall_mem_cons.mpr ⟨?_, sound⟩⟩
        simp [passed]
    · rintro ⟨before, rejecting, behind, same, ⟨error, rejected⟩, sound⟩
      cases before with
      | nil =>
        obtain ⟨rfl, -⟩ := List.cons.inj same
        exact ⟨error, .inl rejected⟩
      | cons first before =>
        obtain ⟨rfl, rfl⟩ := List.cons.inj same
        obtain ⟨unbroken, others⟩ := List.forall_mem_cons.mp sound
        obtain ⟨later, failed⟩ := ih.mpr ⟨before, rejecting, behind, rfl, ⟨error, rejected⟩, others⟩
        cases performed : assignment.perform with
        | ok made => exact ⟨later, .inr ⟨made, rfl, failed⟩⟩
        | error stop =>
          cases stop with
          | error own => exact ⟨own, .inl rfl⟩
          | failure failure => exact absurd performed (unbroken failure)

/-! ## Log -/

theorem unknownRecord_injective : Function.Injective unknownRecord := by
  intro rule other same
  have shown : toString rule = toString other := by
    simpa [unknownRecord, record] using same
  exact shown

theorem disabledRecord_injective : Function.Injective disabledRecord := by
  intro rule other same
  have shown : toString rule = toString other := by
    simpa [disabledRecord, record] using same
  exact shown

theorem disabledRecord_ne_unknownRecord (rule other : String) :
    disabledRecord rule ≠ unknownRecord other := by
  simp [disabledRecord, unknownRecord, record]

theorem note?_eq_some_iff {entry : String × Value} {record : LogRecord} :
    note? registry entry = some record ↔
      (isDisabling entry.2 = true ∧ disabledRecord entry.1 = record) ∨
        (isDisabling entry.2 = false ∧ registry.hasKey entry.1 = false ∧
          unknownRecord entry.1 = record) := by
  rw [note?]
  cases isDisabling entry.2 <;> cases registry.hasKey entry.1 <;> simp

/-- What is noted tells the rule. -/
theorem fst_eq_of_note?
    {entry other : String × Value}
    {record : LogRecord}
    (noted : note? registry entry = some record)
    (again : note? registry other = some record) :
    entry.1 = other.1 := by
  rcases note?_eq_some_iff.mp noted with ⟨-, rfl⟩ | ⟨-, -, rfl⟩ <;>
    rcases note?_eq_some_iff.mp again with ⟨-, same⟩ | ⟨-, -, same⟩
  · exact (disabledRecord_injective same).symm
  · exact absurd same.symm (disabledRecord_ne_unknownRecord _ _)
  · exact absurd same (disabledRecord_ne_unknownRecord _ _)
  · exact (unknownRecord_injective same).symm

/-- Of different rules, nothing is noted twice. -/
theorem nodup_filterMap_note? {entries : Table Value} (distinct : entries.keys.Nodup) :
    (entries.filterMap (note? registry)).Nodup := by
  refine List.Pairwise.filterMap (note? registry) ?_ (List.pairwise_map.mp distinct)
  rintro entry other different record noted _ again rfl
  exact different (fst_eq_of_note? noted again)

/-! ## The rules of settings -/

/-- Reading the rules of settings is carrying out the assignments in them.  Disabled and unknown rules
are noted and leave no other trace. -/
structure Plans (registry : Rule.Registry) (rules : Table Value) : Prop where
  accepted_iff : ∀ set, (readRuleSet registry rules).result = .ok set ↔
    List.Forall₂ (fun assignment entry => entry.1 = assignment.rule ∧ assignment.Makes entry.2)
      (assignments registry rules) set
  refused_iff : ∀ error, (readRuleSet registry rules).result = .error (.error error) ↔
    ∃ before rejecting behind failure,
      assignments registry rules = before ++ rejecting :: behind ∧
        (∀ earlier ∈ before, ∃ instances, earlier.Makes instances) ∧
          rejecting.RejectsWith failure ∧
            error = ⟨.invalidRule rejecting.rule failure, none⟩
  failed_iff : ∀ failure, (readRuleSet registry rules).result = .error (.failure failure) ↔
    ∃ before failing behind, assignments registry rules = before ++ failing :: behind ∧
      (∀ earlier ∈ before, ∃ instances, earlier.Makes instances) ∧ failing.BreaksWith failure
  rejected_iff : (∃ error, (readRuleSet registry rules).result = .error (.error error)) ↔
    ∃ before rejecting behind, assignments registry rules = before ++ rejecting :: behind ∧
      (∃ failure, rejecting.RejectsWith failure) ∧
        ∀ earlier ∈ before, ∀ failure, ¬ earlier.BreaksWith failure
  removed : ∀ drops : String × Value → Bool,
    (∀ entry ∈ rules, drops entry = true → assignment? registry entry = none) →
      (readRuleSet registry (rules.filter fun entry => !drops entry)).result =
        (readRuleSet registry rules).result
  noted : ∃ met rest, rules = met ++ rest ∧ (∀ entry ∈ met, ¬ Ends registry entry) ∧
    (∀ entry ∈ rest.head?, Ends registry entry) ∧
      (readRuleSet registry rules).logs = met.filterMap (note? registry) ∧
        ∀ entry ∈ met, isDisabling entry.2 = false → registry.hasKey entry.1 = false →
          (readRuleSet registry rules).logs.count (unknownRecord entry.1) = 1
  groups : ∀ set, (readRuleSet registry rules).result = .ok set →
    ∀ document timeout? precision precedence requests turns,
      ((Linting.Session.new (.new document set timeout? precision) precedence requests).goOn
        turns).linting.diagnostics.groups.keys = (assignments registry rules).map (·.rule)

theorem assignments_filter
    {rules : Table Value}
    {drops : String × Value → Bool}
    (idle : ∀ entry ∈ rules, drops entry = true → assignment? registry entry = none) :
    assignments registry (rules.filter fun entry => !drops entry) = assignments registry rules := by
  rw [assignments, List.filterMap_filter]
  refine List.filterMap_congr fun entry held => ?_
  cases dropped : drops entry with
  | false => rfl
  | true => exact (idle entry held dropped).symm

/-- The rules with an assignment are in the order of the entries. -/
theorem rules_assignments_sublist (rules : Table Value) :
    ((assignments registry rules).map (·.rule)).Sublist rules.keys := by
  induction rules with
  | nil => exact .slnil
  | cons entry rest ih =>
    cases assigned : assignment? registry entry with
    | none =>
      rw [assignments, List.filterMap_cons_none assigned]
      exact ih.cons entry.1
    | some assignment =>
      obtain ⟨-, same, -⟩ := readRuleSet_of_some assigned rest
      rw [assignments, List.filterMap_cons_some assigned, List.map_cons, same]
      exact ih.cons_cons entry.1

/-- For all rules, of which no two have the same name, and whatever registry there is: the rules that
are enabled and known make their instances, in order, and nothing else matters to the result.  What
stops the reading is the first failure.  It is an error of the configuration that names the rule just if
it means a wrong type or a wrong value. -/
theorem plans_of_distinct
    (registry : Rule.Registry)
    {rules : Table Value}
    (distinct : rules.keys.Nodup) :
    Plans registry rules := by
  have accepted_iff : ∀ set, (readRuleSet registry rules).result = .ok set ↔
      List.Forall₂ (fun assignment entry => entry.1 = assignment.rule ∧ assignment.Makes entry.2)
        (assignments registry rules) set := by
    intro set
    simp only [result_readRuleSet, mapM_eq_ok_iff, Assignment.perform_eq_ok_iff]
  refine ⟨accepted_iff, fun error => ?_, fun failure => ?_, ?_, fun drops idle => ?_, ?_,
    fun set accepted => ?_⟩
  · simp only [result_readRuleSet, mapM_eq_error_iff, exists_perform_eq_ok_iff,
      Assignment.perform_eq_error_error_iff, exists_and_left]
  · simp only [result_readRuleSet, mapM_eq_error_iff, exists_perform_eq_ok_iff,
      Assignment.perform_eq_error_failure_iff]
  · rw [result_readRuleSet, exists_mapM_perform_eq_error_iff]
  · rw [result_readRuleSet, result_readRuleSet, assignments_filter idle]
  · obtain ⟨met, rest, rfl, quiet, last, logs_eq⟩ := @exists_noted registry rules
    refine ⟨met, rest, rfl, quiet, last, logs_eq, fun entry held enabled unknown => ?_⟩
    have front : (Table.keys met).Nodup := by
      rw [Table.keys, List.map_append] at distinct
      exact distinct.of_append_left
    rw [logs_eq]
    refine List.count_eq_one_of_mem (nodup_filterMap_note? front) (List.mem_filterMap.mpr ?_)
    exact ⟨entry, held, note?_eq_some_iff.mpr (.inr ⟨enabled, unknown, rfl⟩)⟩
  · intro document timeout? precision precedence requests turns
    have keys_eq : set.keys = (assignments registry rules).map (·.rule) := by
      rw [Table.keys, ← List.forall₂_eq_eq_eq, List.forall₂_map_left_iff,
        List.forall₂_map_right_iff]
      exact ((accepted_iff set).mp accepted).flip.imp fun _ _ made => made.1
    rw [← keys_eq]
    refine Linting.Session.keys_groups_goOn ?_ requests turns
    rw [keys_eq]
    exact distinct.sublist (rules_assignments_sublist rules)

/-- An instance that reports nothing. -/
def silent : Rule.Instance := .foreign fun _ => ⟨[], none⟩

/-- A failure that is a kind of wrong value. -/
def outOfRange : Failure := ⟨"RangeError", ["too far"], .ordinary [.value]⟩

/-- A rule that rejects truth values and breaks down at texts. -/
def picky (name : String) : Rule.Definition :=
  .foreign name fun value =>
    match value with
    | .boolean _ => .error outOfRange
    | .text _ => .error (.of "OSError" ["down"])
    | _ => .ok silent

/-- A registry that knows some rules. -/
def shelf : Rule.Registry := .ofDefinitions [picky "a", picky "b", picky "off"]

/-- Rules with two instances, with none, disabled, and not known. -/
def mixture : Table Value :=
  [("b", .list [.null, .integer 1]), ("off", .boolean false), ("c", .null), ("a", .list [])]

/-- Rules of which one is not known, one rejects its second value, and one breaks down. -/
def faultyMixture : Table Value :=
  [("c", .text "x"), ("b", .list [.null, .boolean false]), ("a", .text "x")]

theorem plans_of_mixture :
    (mixture.keys.Nodup ∧
      (readRuleSet shelf mixture).result = .ok [("b", [silent, silent]), ("a", [])] ∧
      (readRuleSet shelf mixture).logs = [disabledRecord "off", unknownRecord "c"] ∧
      (readRuleSet shelf [mixture[0], mixture[3]]).result = (readRuleSet shelf mixture).result ∧
      ∀ document timeout? precision precedence requests turns,
        ((Linting.Session.new (.new document [("b", [silent, silent]), ("a", [])] timeout? precision)
            precedence requests).goOn turns).linting.diagnostics.groups.keys = ["b", "a"]) ∧
      faultyMixture.keys.Nodup ∧
        (readRuleSet shelf faultyMixture).result =
          .error (.error ⟨.invalidRule "b" outOfRange, none⟩) := by
  have distinct : mixture.keys.Nodup := by decide
  have plans := plans_of_distinct shelf distinct
  refine ⟨⟨distinct, rfl, rfl,
    plans.removed (fun entry => entry.1 == "off" || entry.1 == "c") ?_, plans.groups _ rfl⟩, ?_⟩
  · intro entry held dropped
    simp only [mixture, List.mem_cons, List.not_mem_nil, or_false] at held
    rcases held with rfl | rfl | rfl | rfl
    · simp at dropped
    · rfl
    · rfl
    · simp at dropped
  · have again : faultyMixture.keys.Nodup := by decide
    refine ⟨again, ((plans_of_distinct shelf again).refused_iff _).mpr ?_⟩
    refine ⟨[], ⟨"b", picky "b", .list [.null, .boolean false]⟩,
      [⟨"a", picky "a", .text "x"⟩], outOfRange, rfl, List.forall_mem_nil _, ⟨?_, .inr rfl⟩, rfl⟩
    exact ⟨[.null], .boolean false, [], rfl, by simpa using ⟨silent, rfl⟩, rfl⟩

end Config
end MarkupLint
