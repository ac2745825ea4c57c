import MarkupLint.Proofs.Config.Loading
import MarkupLint.Proofs.Number.Binary64
import MarkupLint.Proofs.Rule.SortedSet
import MarkupLint.Proofs.Table
import MarkupLint.Proofs.Text.Quoted

/-!
# Which configurations are valid

A table is a configuration if it meets four constraints: on its rules, its patterns, its limit of idle
seconds and its keys.  If it violates some, each of them is named in a line of its own.  Only a number
of seconds that is too large for a binary number stops the reading before anything is named.
-/

namespace MarkupLint
namespace Config

/-- A value is a number above zero.  Truth values are no numbers. -/
inductive IsPositiveNumber : Value → Prop where
  | integer
      (number : Int)
      (positive : 0 < number) :
      IsPositiveNumber (.integer number)
  | finite
      (number : Binary64)
      (value : Rat)
      (value_eq : number.toRat? = some value)
      (positive : 0 < value) :
      IsPositiveNumber (.float number)
  | infinite : IsPositiveNumber (.float (.infinite false))

/-- The keys of the parts that a configuration can have. -/
def partKeys : List String := ["rules", "ignore", "timeout"]

/-- The constraints on a configuration. -/
inductive Demand where
  | rules
  | ignore
  | timeout
  | keys
deriving DecidableEq

namespace Demand

/-- The constraints in the order in which they are checked. -/
def all : List Demand := [rules, ignore, timeout, keys]

/-- A configuration meets a constraint.  Parts that it leaves out violate nothing. -/
def IsMet (config : Table Value) : Demand → Prop
  | rules => ∀ value, config.value? "rules" = some value → ∃ entries, value = .table entries
  | ignore => ∀ value, config.value? "ignore" = some value →
      ∃ patterns : List String, value.items? = some (patterns.map .text)
  | timeout => ∀ value, config.value? "timeout" = some value →
      value = .null ∨ IsPositiveNumber value
  | keys => ∀ key ∈ config.keys, key ∈ partKeys

/-- What is said of a configuration that violates a constraint. -/
def problem (config : Table Value) : Demand → Problem
  | rules => .rulesNotTable ((config.value? "rules").getD (.table [])).typeName
  | ignore => .ignoreNotTexts
  | timeout => .timeoutNotPositive
  | keys => .unknownKeys ((config.keys.filter fun key => key ∉ partKeys).mergeSort (· ≤ ·))

end Demand

/-- These are the constraints that a configuration violates, in order. -/
structure AreViolated (config : Table Value) (violated : List Demand) : Prop where
  inOrder : violated.Sublist Demand.all
  mem_iff : ∀ demand, demand ∈ violated ↔ ¬demand.IsMet config

/-- The limit of idle seconds is a whole number that is nearer to infinity than to a binary number. -/
def Overflows (config : Table Value) : Prop :=
  ∃ seconds, config.value? "timeout" = some (.integer seconds) ∧ (2 : Int) ^ 1024 - 2 ^ 970 ≤ seconds

/-- The binary number that a value stands for. -/
def binary64? : Value → Option Binary64
  | .integer number => some (.ofInt number)
  | .float number => some number
  | _ => none

/-- Settings hold what a configuration says, and the defaults of the parts that it leaves out. -/
structure Settings.Holds (settings : Settings) (config : Table Value) : Prop where
  rules_eq : (config.value? "rules").getD (.table []) = .table settings.rules
  ignore_eq : ((config.value? "ignore").getD (.list [])).items? = some (settings.ignore.map .text)
  timeout_eq : settings.timeout? = (config.value? "timeout").bind binary64?

theorem isTooLong_iff {seconds : Int} :
    IsTooLong seconds ↔ (2 : Int) ^ 1024 - 2 ^ 970 ≤ seconds := by
  refine ⟨fun ⟨positive, infinite⟩ => (Binary64.ofInt_eq_infinite_iff positive).mp infinite,
    fun large => ?_⟩
  have limit : (2 : Int) ^ 970 < 2 ^ 1024 := pow_lt_pow_right₀ one_lt_two (by decide)
  have positive : 0 < seconds := (sub_pos.mpr limit).trans_le large
  exact ⟨positive, (Binary64.ofInt_eq_infinite_iff positive).mpr large⟩

/-! ## Reading the parts -/

variable {config : Table Value}

theorem value?_mergeDefaults (distinct : config.keys.Nodup) (key : String) :
    (mergeDefaults config).value? key = (config.value? key).or (defaults.value? key) := by
  rw [mergeDefaults, Table.value?_foldl_set, Table.value?_reverse distinct]

theorem textOf?_eq_some_iff (value : Value) (text : String) :
    textOf? value = some text ↔ value = .text text := by
  cases value <;> simp [textOf?]

theorem unknownKeys_eq (distinct : config.keys.Nodup) :
    unknownKeys config = (config.keys.filter fun key => key ∉ partKeys).mergeSort (· ≤ ·) := by
  have known : ∀ key, (!defaults.hasKey key) = decide (key ∉ partKeys) := by
    intro key
    rw [Bool.eq_iff_iff, Bool.not_eq_true', ← Bool.not_eq_true, Table.hasKey_iff]
    simp [defaults, Table.keys, partKeys]
  simp only [unknownKeys, known]
  exact Rule.filter_sortedSet distinct _

theorem readRules_eq_ok_iff {value : Value} {entries : Table Value} :
    readRules value = .ok entries ↔ value = .table entries := by
  cases value <;> simp [readRules]

theorem readIgnore_eq_ok_iff {value : Value} {patterns : List String} :
    readIgnore value = .ok patterns ↔ value.items? = some (patterns.map .text) := by
  have mapped : value.items?.bind (·.mapM textOf?) = some patterns ↔
      value.items? = some (patterns.map .text) := by
    simp only [Option.bind_eq_some_iff, mapM_eq_some_iff textOf?_eq_some_iff, exists_eq_right]
  rw [← mapped, readIgnore]
  cases value.items?.bind (·.mapM textOf?) <;> simp

theorem isPositiveNumber_integer_iff {number : Int} :
    IsPositiveNumber (.integer number) ↔ 0 < number :=
  ⟨fun (.integer _ positive) => positive, .integer number⟩

theorem isPositiveNumber_float_iff {number : Binary64} :
    IsPositiveNumber (.float number) ↔ number.isPositive = true := by
  rw [Binary64.isPositive_iff]
  constructor
  · rintro (_ | ⟨_, value, value_eq, positive⟩ | _)
    · exact .inr ⟨value, value_eq, positive⟩
    · exact .inl rfl
  · rintro (rfl | ⟨value, value_eq, positive⟩)
    · exact .infinite
    · exact .finite number value value_eq positive

/-- What a limit of idle seconds is read as that is not too large. -/
theorem readTimeout_cases {value : Value} {timeout : Except Problem (Option Binary64)}
    (read : readTimeout value = .ok timeout) :
    ((value = .null ∨ IsPositiveNumber value) ∧ timeout = .ok (binary64? value)) ∨
      (¬(value = .null ∨ IsPositiveNumber value) ∧ timeout = .error .timeoutNotPositive) := by
  cases value with
  | null =>
    cases read
    exact .inl ⟨.inl rfl, rfl⟩
  | integer seconds =>
    simp only [readTimeout] at read
    split at read
    · next small =>
      cases read
      exact .inr ⟨by simpa [isPositiveNumber_integer_iff] using small, rfl⟩
    · next large =>
      split at read
      · contradiction
      · cases read
        exact .inl ⟨.inr (.integer seconds (by omega)), rfl⟩
  | float seconds =>
    cases read
    cases positive : seconds.isPositive <;>
      simp [binary64?, isPositiveNumber_float_iff, positive]
  | _ =>
    cases read
    refine .inr ⟨?_, rfl⟩
    rintro (same | same) <;> cases same

/-! ## Checking one constraint -/

/-- The outcome of checking one constraint: what the part says, or its problem. -/
inductive Checks (config : Table Value) (demand : Demand) (Means : α → Prop) :
    Except Problem α → Prop where
  | met
      (value : α)
      (isMet : demand.IsMet config)
      (means : Means value) :
      Checks config demand Means (.ok value)
  | violated
      (isViolated : ¬demand.IsMet config) :
      Checks config demand Means (.error (demand.problem config))

theorem part_mergeDefaults
    (distinct : config.keys.Nodup)
    (key : String)
    {default : Value}
    (known : defaults.value? key = some default) :
    ((mergeDefaults config).value? key).getD .null = (config.value? key).getD default := by
  rw [value?_mergeDefaults distinct, known]
  cases config.value? key <;> rfl

/-- What holds of the default of a part need only be checked where the part is given. -/
theorem forall_value?_iff {key : String} {default : Value} {Holds : Value → Prop}
    (holds : Holds default) :
    (∀ value, config.value? key = some value → Holds value) ↔
      Holds ((config.value? key).getD default) := by
  cases config.value? key <;> simp [holds]

/-- A check that succeeds exactly with what the part says, and otherwise names its problem. -/
theorem checks_of_ok_iff
    {demand : Demand}
    {Means : α → Prop}
    {outcome : Except Problem α}
    (ok_iff : ∀ value, outcome = .ok value ↔ Means value)
    (isMet_iff : demand.IsMet config ↔ ∃ value, Means value)
    (named : ∀ problem, outcome = .error problem → problem = demand.problem config) :
    Checks config demand Means outcome := by
  cases outcome with
  | ok value =>
    have means := (ok_iff value).mp rfl
    exact .met value (isMet_iff.mpr ⟨value, means⟩) means
  | error problem =>
    rw [named problem rfl]
    refine .violated fun met => ?_
    obtain ⟨value, means⟩ := isMet_iff.mp met
    cases (ok_iff value).mpr means

theorem checks_rules :
    Checks config .rules (fun rules => (config.value? "rules").getD (.table []) = .table rules)
      (readRules ((config.value? "rules").getD (.table []))) := by
  refine checks_of_ok_iff (fun _ => readRules_eq_ok_iff) (forall_value?_iff ⟨[], rfl⟩) ?_
  intro problem refused
  unfold readRules at refused
  split at refused <;> cases refused
  rfl

theorem checks_ignore :
    Checks config .ignore
      (fun patterns =>
        ((config.value? "ignore").getD (.list [])).items? = some (patterns.map .text))
      (readIgnore ((config.value? "ignore").getD (.list []))) := by
  refine checks_of_ok_iff (fun _ => readIgnore_eq_ok_iff) (forall_value?_iff ⟨[], rfl⟩) ?_
  intro problem refused
  unfold readIgnore at refused
  split at refused <;> cases refused
  rfl

theorem checks_timeout
    {timeout : Except Problem (Option Binary64)}
    (read : readTimeout ((config.value? "timeout").getD .null) = .ok timeout) :
    Checks config .timeout (fun seconds? => seconds? = (config.value? "timeout").bind binary64?)
      timeout := by
  have isMet_iff : Demand.timeout.IsMet config ↔
      (config.value? "timeout").getD .null = .null ∨
        IsPositiveNumber ((config.value? "timeout").getD .null) :=
    forall_value?_iff (.inl rfl)
  have bind_eq : binary64? ((config.value? "timeout").getD .null) =
      (config.value? "timeout").bind binary64? := by
    cases config.value? "timeout" <;> rfl
  rw [← bind_eq]
  rcases readTimeout_cases read with ⟨met, rfl⟩ | ⟨violated, rfl⟩
  · exact .met _ (isMet_iff.mpr met) rfl
  · exact .violated (mt isMet_iff.mp violated)

/-- The check of the keys, which says nothing if they are known. -/
def readKeys (config : Table Value) : Except Problem Unit :=
  if (unknownKeys config).isEmpty then .ok () else .error (.unknownKeys (unknownKeys config))

theorem checks_keys (distinct : config.keys.Nodup) :
    Checks config .keys (fun _ => True) (readKeys config) := by
  have known_iff : Demand.keys.IsMet config ↔ unknownKeys config = [] := by
    rw [unknownKeys_eq distinct, ← List.length_eq_zero_iff, List.length_mergeSort,
      List.length_eq_zero_iff, List.filter_eq_nil_iff]
    simp [Demand.IsMet]
  unfold readKeys
  split
  · next none =>
    exact .met () (known_iff.mpr (List.isEmpty_iff.mp none)) trivial
  · next some =>
    rw [unknownKeys_eq distinct]
    exact .violated fun met => some (List.isEmpty_iff.mpr (known_iff.mp met))

/-! ## Collecting the problems -/

open Classical in
/-- Of the constraints, those that a configuration violates. -/
noncomputable def violatedOf (config : Table Value) (demands : List Demand) : List Demand :=
  demands.filter fun demand => ¬demand.IsMet config

theorem areViolated_violatedOf (config : Table Value) :
    AreViolated config (violatedOf config Demand.all) where
  inOrder := List.filter_sublist
  mem_iff demand := by
    have held : demand ∈ Demand.all := by cases demand <;> decide
    simp [violatedOf, held]

theorem AreViolated.eq_nil_iff {violated : List Demand} (are : AreViolated config violated) :
    violated = [] ↔ ∀ demand : Demand, demand.IsMet config := by
  simp [List.eq_nil_iff_forall_not_mem, are.mem_iff]

theorem Checks.of_ok
    {demand : Demand}
    {Means : α → Prop}
    {value : α}
    (checks : Checks config demand Means (.ok value)) :
    demand.IsMet config ∧ Means value := by
  cases checks with
  | met _ isMet means => exact ⟨isMet, means⟩

theorem Checks.problemOf_eq
    {demand : Demand}
    {Means : α → Prop}
    {outcome : Except Problem α}
    (checks : Checks config demand Means outcome) :
    problemOf outcome = (violatedOf config [demand]).map (·.problem config) := by
  cases checks with
  | met value isMet means => simp [problemOf, violatedOf, isMet]
  | violated isViolated => simp [problemOf, violatedOf, isViolated]

/-- The settings of parts whose checks all succeed, or else the problems of the parts. -/
def collect
    (path? : Option String)
    (rules : Except Problem (Table Value))
    (ignore : Except Problem (List String))
    (timeout : Except Problem (Option Binary64))
    (keys : Except Problem Unit) : Except Stop Settings :=
  match rules, ignore, timeout, keys with
  | .ok rules, .ok ignore, .ok timeout?, .ok () => .ok ⟨rules, ignore, timeout?, path?⟩
  | rules, ignore, timeout, keys =>
    .error (.error ⟨.problems (problemOf rules ++ problemOf ignore ++ problemOf timeout ++
      problemOf keys), path?⟩)

theorem ofValue_eq_collect
    (distinct : config.keys.Nodup)
    (path? : Option String)
    {timeout : Except Problem (Option Binary64)}
    (read : readTimeout ((config.value? "timeout").getD .null) = .ok timeout) :
    Settings.ofValue (.table config) path? =
      collect path? (readRules ((config.value? "rules").getD (.table [])))
        (readIgnore ((config.value? "ignore").getD (.list []))) timeout (readKeys config) := by
  simp only [Settings.ofValue, part_mergeDefaults distinct "rules" rfl,
    part_mergeDefaults distinct "ignore" rfl, part_mergeDefaults distinct "timeout" rfl, read]
  have keys_cases :
      (if (unknownKeys config).isEmpty then [] else [Problem.unknownKeys (unknownKeys config)]) =
        problemOf (readKeys config) := by
    unfold readKeys
    split <;> rfl
  rw [keys_cases]
  generalize readRules ((config.value? "rules").getD (.table [])) = rules
  generalize readIgnore ((config.value? "ignore").getD (.list [])) = ignore
  generalize readKeys config = keys
  cases rules <;> cases ignore <;> cases timeout <;> cases keys <;> rfl

/-- All checks succeed, or there is a problem. -/
theorem collect_cases
    (path? : Option String)
    (rules : Except Problem (Table Value))
    (ignore : Except Problem (List String))
    (timeout : Except Problem (Option Binary64))
    (keys : Except Problem Unit) :
    (∃ settings, rules = .ok settings.rules ∧ ignore = .ok settings.ignore ∧
        timeout = .ok settings.timeout? ∧ keys = .ok () ∧ settings.path? = path? ∧
        collect path? rules ignore timeout keys = .ok settings) ∨
      ∃ problems, problems = problemOf rules ++ problemOf ignore ++ problemOf timeout ++
          problemOf keys ∧ problems ≠ [] ∧
        collect path? rules ignore timeout keys = .error (.error ⟨.problems problems, path?⟩) := by
  cases rules with
  | error problem => exact .inr ⟨_, rfl, by simp [problemOf], rfl⟩
  | ok rules =>
    cases ignore with
    | error problem => exact .inr ⟨_, rfl, by simp [problemOf], rfl⟩
    | ok ignore =>
      cases timeout with
      | error problem => exact .inr ⟨_, rfl, by simp [problemOf], rfl⟩
      | ok timeout? =>
        cases keys with
        | error problem => exact .inr ⟨_, rfl, by simp [problemOf], rfl⟩
        | ok _ =>
          exact .inl ⟨⟨rules, ignore, timeout?, path?⟩, rfl, rfl, rfl, rfl, rfl, rfl⟩

/-! ## The lines of an error -/

theorem newline_notMem_typeName (value : Value) : '\n' ∉ value.typeName.toList := by
  cases value <;> simp [Value.typeName]

theorem displayItems_texts (texts : List String) :
    Value.displayItems (texts.map .text) = texts.map Text.quoted := by
  induction texts with
  | nil => rfl
  | cons text rest ih =>
    simp only [List.map_cons, Value.displayItems, Value.display, ih]

theorem newline_notMem_message (demand : Demand) :
    '\n' ∉ (demand.problem config).message.toList := by
  have appended : ∀ {front back : String}, '\n' ∉ front.toList → '\n' ∉ back.toList →
      '\n' ∉ (front ++ back).toList := by
    intro front back front_free back_free
    rw [String.toList_append, List.mem_append, not_or]
    exact ⟨front_free, back_free⟩
  cases demand with
  | rules => exact appended (by decide) (newline_notMem_typeName _)
  | ignore => exact (by decide : '\n' ∉ "ignore must be a list of strings".toList)
  | timeout => exact (by decide : '\n' ∉ "timeout must be a positive number".toList)
  | keys =>
    refine appended (by decide) (appended (appended (by decide) ?_) (by decide))
    rw [displayItems_texts]
    refine Text.notMem_intercalate (by decide) ?_
    simp only [List.forall_mem_map]
    exact fun text _ => Text.newline_notMem_quoted text

/-- The line in which a problem is shown. -/
def problemLine (problem : Problem) : String := "  - " ++ problem.message

theorem splitOn_message
    {problems : List Problem}
    (some : problems ≠ [])
    (unbroken : ∀ problem ∈ problems, '\n' ∉ problem.message.toList) :
    (Fault.problems problems).message.toList.splitOn '\n' =
      "Configuration errors:".toList :: problems.map fun problem => (problemLine problem).toList := by
  have message_eq : (Fault.problems problems).message =
      String.intercalate "\n" ("Configuration errors:" :: problems.map problemLine) := by
    rw [String.intercalate_cons_of_ne_nil (by simpa using some)]
    rfl
  rw [message_eq, String.toList_intercalate]
  refine (List.splitOn_intercalate '\n' ?_ (by simp)).trans (by simp)
  simp only [List.map_cons, List.forall_mem_cons, List.map_map, List.forall_mem_map]
  refine ⟨by decide, fun problem held => ?_⟩
  simp [problemLine, unbroken problem held]

/-! ## What a configuration is read as -/

theorem overflows_iff :
    Overflows config ↔
      ∃ seconds, (config.value? "timeout").getD .null = .integer seconds ∧ IsTooLong seconds := by
  simp only [isTooLong_iff, Overflows]
  generalize (2 : Int) ^ 1024 - 2 ^ 970 = limit
  cases config.value? "timeout" <;> simp

theorem ofValue_eq_failure_iff
    (distinct : config.keys.Nodup)
    {path? : Option String}
    {failure : Failure} :
    Settings.ofValue (.table config) path? = .error (.failure failure) ↔
      failure = integerTooLarge ∧ Overflows config := by
  have default_eq : defaults.value? "timeout" = some .null := rfl
  rw [Settings.ofValue_eq_failure_iff, value?_mergeDefaults distinct, default_eq, overflows_iff]
  cases config.value? "timeout" <;> simp

/-- With a limit of idle seconds that fits, a table is read as settings that hold what it says, or its
violated constraints are named. -/
theorem ofValue_cases
    (distinct : config.keys.Nodup)
    (path? : Option String)
    (fits : ¬Overflows config) :
    (∃ settings, Settings.ofValue (.table config) path? = .ok settings ∧
        (∀ demand : Demand, demand.IsMet config) ∧ settings.Holds config ∧
        settings.path? = path?) ∨
      ∃ violated, AreViolated config violated ∧ violated ≠ [] ∧
        Settings.ofValue (.table config) path? =
          .error (.error ⟨.problems (violated.map (·.problem config)), path?⟩) := by
  cases read : readTimeout ((config.value? "timeout").getD .null) with
  | error failure => exact absurd (overflows_iff.mpr (readTimeout_eq_error_iff.mp read).2) fits
  | ok timeout =>
    have checked_rules := @checks_rules config
    have checked_ignore := @checks_ignore config
    have checked_timeout := checks_timeout read
    have checked_keys := checks_keys distinct
    rw [ofValue_eq_collect distinct path? read]
    generalize readRules ((config.value? "rules").getD (.table [])) = rules at *
    generalize readIgnore ((config.value? "ignore").getD (.list [])) = ignore at *
    generalize readKeys config = keys at *
    rcases collect_cases path? rules ignore timeout keys with
      ⟨settings, rfl, rfl, rfl, rfl, path_eq, collected⟩ | ⟨problems, same, some, collected⟩
    · refine .inl ⟨settings, collected, ?_, ?_, path_eq⟩
      · rintro (_ | _ | _ | _)
        · exact checked_rules.of_ok.1
        · exact checked_ignore.of_ok.1
        · exact checked_timeout.of_ok.1
        · exact checked_keys.of_ok.1
      · exact ⟨checked_rules.of_ok.2, checked_ignore.of_ok.2, checked_timeout.of_ok.2⟩
    · have areViolated := areViolated_violatedOf config
      have problems_eq : problems = (violatedOf config Demand.all).map (·.problem config) := by
        have split : violatedOf config Demand.all = violatedOf config [.rules] ++
            violatedOf config [.ignore] ++ violatedOf config [.timeout] ++
            violatedOf config [.keys] := by
          simp only [violatedOf, ← List.filter_append]
          rfl
        rw [same, checked_rules.problemOf_eq, checked_ignore.problemOf_eq,
          checked_timeout.problemOf_eq, checked_keys.problemOf_eq, split]
        simp only [List.map_append]
      refine .inr ⟨_, areViolated, fun none => some ?_, problems_eq ▸ collected⟩
      rw [problems_eq, none, List.map_nil]

/-- A table is read as a configuration exactly if it meets the constraints and its limit of idle
seconds fits into a binary number.  The settings hold what it says.  Otherwise each constraint that it
violates has its line in the error, in order, and nothing else is raised but the failure of a limit of
idle seconds that is too large. -/
theorem validation (distinct : config.keys.Nodup) (path? : Option String) :
    ((∃ settings, Settings.ofValue (.table config) path? = .ok settings) ↔
        (∀ demand : Demand, demand.IsMet config) ∧ ¬Overflows config) ∧
      (∀ settings, Settings.ofValue (.table config) path? = .ok settings →
        settings.Holds config ∧ settings.path? = path?) ∧
      (∀ error, Settings.ofValue (.table config) path? = .error (.error error) →
        ∃ violated, AreViolated config violated ∧ violated ≠ [] ∧
          error = ⟨.problems (violated.map (·.problem config)), path?⟩ ∧
          error.fault.message.toList.splitOn '\n' = "Configuration errors:".toList ::
            violated.map fun demand => (problemLine (demand.problem config)).toList) ∧
      ∀ failure, Settings.ofValue (.table config) path? = .error (.failure failure) ↔
        failure = integerTooLarge ∧ Overflows config := by
  have failure_iff := @ofValue_eq_failure_iff config distinct path?
  by_cases overflows : Overflows config
  · have failed := failure_iff.mpr ⟨rfl, overflows⟩
    refine ⟨?_, ?_, ?_, fun _ => failure_iff⟩ <;> simp [failed, overflows]
  · rcases ofValue_cases distinct path? overflows with
      ⟨settings, read, met, holds, path_eq⟩ | ⟨violated, areViolated, some, refused⟩
    · refine ⟨?_, ?_, ?_, fun _ => failure_iff⟩
      · exact iff_of_true ⟨settings, read⟩ ⟨met, overflows⟩
      · intro other same
        cases read.symm.trans same
        exact ⟨holds, path_eq⟩
      · intro error failed
        cases read.symm.trans failed
    · refine ⟨?_, ?_, ?_, fun _ => failure_iff⟩
      · refine iff_of_false (by simp [refused]) fun ⟨met, _⟩ => some ?_
        exact areViolated.eq_nil_iff.mpr met
      · intro settings read
        cases refused.symm.trans read
      · intro error failed
        cases refused.symm.trans failed
        refine ⟨violated, areViolated, some, rfl, ?_⟩
        rw [splitOn_message (by simpa using some), List.map_map]
        · rfl
        · simp only [List.forall_mem_map]
          exact fun demand _ => newline_notMem_message demand

/-- A table that violates three constraints. -/
def faulty : Table Value :=
  [("timeout", .integer 0), ("rules", .integer 5), ("retries", .boolean true)]

theorem validation_of_faulty :
    faulty.keys.Nodup ∧
      ∃ error violated, Settings.ofValue (.table faulty) none = .error (.error error) ∧
        AreViolated faulty violated ∧ violated.length = 3 ∧
        error.fault.message.toList.splitOn '\n' = "Configuration errors:".toList ::
          violated.map fun demand => (problemLine (demand.problem faulty)).toList := by
  have distinct : faulty.keys.Nodup := by decide
  obtain ⟨-, -, refused, -⟩ := @validation faulty distinct none
  have read : Settings.ofValue (.table faulty) none = .error (.error ⟨.problems
      [.rulesNotTable "int", .timeoutNotPositive, .unknownKeys ["retries"]], none⟩) := rfl
  obtain ⟨violated, areViolated, -, same, lines⟩ := refused _ read
  refine ⟨distinct, _, violated, read, areViolated, ?_, lines⟩
  have problems_eq := Fault.problems.inj (Error.mk.inj same).1
  simpa using (congrArg List.length problems_eq).symm

/-- The violated constraint on the rules is not named beside a number of seconds that is too large. -/
theorem failure_of_long_timeout :
    Settings.ofValue (.table [("rules", .integer 5), ("timeout", .integer (10 ^ 400))]) none =
      .error (.failure integerTooLarge) := by
  refine (ofValue_eq_failure_iff (by decide)).mpr ⟨rfl, 10 ^ 400, rfl, ?_⟩
  calc (2 : Int) ^ 1024 - 2 ^ 970
    _ ≤ 2 ^ 1024 := sub_le_self _ (by positivity)
    _ ≤ 2 ^ (3 * 400) := pow_le_pow_right₀ one_le_two (by decide)
    _ = 8 ^ 400 := by rw [pow_mul]; rfl
    _ ≤ 10 ^ 400 := pow_le_pow_left₀ (by decide) (by decide) 400

end Config
end MarkupLint
