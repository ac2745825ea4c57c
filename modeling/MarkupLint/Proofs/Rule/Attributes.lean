import MarkupLint.Proofs.Document.Tree
import MarkupLint.Proofs.Rule.Builtin
import MarkupLint.Proofs.Rule.SortedSet
import MarkupLint.Proofs.Selector.Inside
import MarkupLint.Proofs.Table
import MarkupLint.Proofs.Traversal

/-!
# What a check of attributes reports

A check of attributes goes through the selected elements.  Of each it reports the attributes that
are not as its configuration demands, and nothing of an element that satisfies the configuration.
An attribute is reported once, unless a configuration both forbids it and leaves it off its white
list.
-/

namespace MarkupLint
namespace Rule

/-- The value of an attribute, or that there is none, is as a configured value demands. -/
def Meets : Value → Option String → Prop
  | .boolean true, attribute? => attribute?.isSome = true
  | .boolean false, attribute? => attribute? = none
  | .text wanted, attribute? => attribute? = some wanted
  | .list items, attribute? | .tuple items, attribute? =>
    ∃ value, attribute? = some value ∧ .text value ∈ items
  | _, _ => False

/-- A configuration names an attribute and demands something of it. -/
def Names (entries : Table Value) (name : String) (demand : Value) : Prop :=
  (name, demand) ∈ entries ∧ name ≠ selectorKey ∧ name ≠ whitelistKey

/-- A configuration makes a white list of the attributes that it names. -/
def IsListing (entries : Table Value) : Prop :=
  entries.value? whitelistKey = some (.boolean true)

/-- An element satisfies a configuration. -/
structure Satisfies (entries : Table Value) (element : Element) : Prop where
  named : ∀ name demand, Names entries name demand →
    Meets demand (element.attributes.value? name)
  listed : IsListing entries → ∀ name ∈ element.attributes.keys,
    ∃ demand, Names entries name demand ∧ demand ≠ .boolean false

/-- The attribute of an element is not as a configuration demands by its name. -/
def Breaks (entries : Table Value) (element : Element) (name : String) : Prop :=
  ∃ demand, Names entries name demand ∧ ¬Meets demand (element.attributes.value? name)

/-- An element has an attribute that is not on the white list of a configuration. -/
def IsUnlisted (entries : Table Value) (element : Element) (name : String) : Prop :=
  IsListing entries ∧ name ∈ element.attributes.keys ∧
    ∀ demand, Names entries name demand → demand = .boolean false

theorem satisfies_iff {entries : Table Value} {element : Element} :
    Satisfies entries element ↔
      ∀ name, ¬Breaks entries element name ∧ ¬IsUnlisted entries element name := by
  constructor
  · refine fun ⟨named, listed⟩ name => ⟨fun ⟨demand, names, unmet⟩ => ?_, ?_⟩
    · exact unmet (named name demand names)
    · rintro ⟨listing, carried, forbidden⟩
      obtain ⟨demand, names, allowed⟩ := listed listing name carried
      exact allowed (forbidden demand names)
  · refine fun none => ⟨fun name demand names => ?_, fun listing name carried => ?_⟩
    · by_contra unmet
      exact (none name).1 ⟨demand, names, unmet⟩
    · by_contra unlisted
      refine (none name).2 ⟨listing, carried, fun demand names => ?_⟩
      by_contra allowed
      exact unlisted ⟨demand, names, allowed⟩

namespace Constraint

/-- The constraint that a configured value stands for. -/
inductive Stands : Value → Constraint → Prop where
  | required : Stands (.boolean true) required
  | forbidden : Stands (.boolean false) forbidden
  | exactly (wanted : String) : Stands (.text wanted) (exactly wanted)
  | oneOf
      (value : Value)
      (values : List String)
      (items_eq : value.items? = some (values.map .text)) :
      Stands value (oneOf (sortedSet values))

theorem stands_of_ofValue {name : String} {value : Value} {constraint : Constraint}
    (made : ofValue name value = .ok constraint) :
    Stands value constraint := by
  have known : ∀ value text, ofValue.textOf? value = some text ↔ value = .text text := by
    intro value text
    cases value <;> simp [ofValue.textOf?]
  simp only [ofValue] at made
  split at made
  · cases made
    exact .required
  · cases made
    exact .forbidden
  · cases made
    exact .exactly _
  · split at made
    · next values read =>
      cases made
      obtain ⟨items, items_eq, found⟩ := Option.bind_eq_some_iff.mp read
      rw [(mapM_eq_some_iff known).mp found] at items_eq
      exact .oneOf _ values items_eq
    · split at made <;> cases made

variable {value : Value} {constraint : Constraint}

theorem Stands.report?_eq_none_iff
    (stands : Stands value constraint)
    (name : String)
    (element : Element) :
    constraint.report? name element = none ↔ Meets value (element.attributes.value? name) := by
  unfold report?
  cases stands with
  | oneOf value values items_eq =>
    rcases Value.items?_eq_some_iff.mp items_eq with rfl | rfl <;>
      cases element.attributes.value? name <;> simp [Meets, mem_sortedSet]
  | _ => cases element.attributes.value? name <;> simp [Meets]

theorem Stands.eq_forbidden_iff (stands : Stands value constraint) :
    constraint = .forbidden ↔ value = .boolean false := by
  cases stands with
  | oneOf value values items_eq =>
    refine iff_of_false (by simp) ?_
    rintro rfl
    contradiction
  | _ => simp

end Constraint

namespace AttributeCheck

variable {entries : Table Value} {check : AttributeCheck} {element : Element} {name : String}

/-- A check has the parts that a configuration describes. -/
structure Follows (check : AttributeCheck) (entries : Table Value) : Prop where
  selector_eq : setting entries selectorKey (.text "*") = .text check.selector
  isWhitelist_iff : check.isWhitelist = true ↔ IsListing entries
  keys_sublist : (Table.keys check.constraints).Sublist entries.keys
  exists_demand : ∀ name constraint, (name, constraint) ∈ check.constraints →
    ∃ demand, Names entries name demand ∧ Constraint.Stands demand constraint
  exists_constraint : ∀ name demand, Names entries name demand →
    ∃ constraint, (name, constraint) ∈ check.constraints ∧ Constraint.Stands demand constraint

theorem mem_named_iff {demand : Value} :
    (name, demand) ∈ entries.filter (fun entry => entry.1 ≠ selectorKey ∧ entry.1 ≠ whitelistKey) ↔
      Names entries name demand := by
  simp [Names]

theorem follows_of_ofValue (accepted : ofValue (.table entries) = .ok check) :
    check.Follows entries := by
  have made_iff : ∀ (entry : String × Value) (made : String × Constraint),
      (Constraint.ofValue entry.1 entry.2).map (entry.1, ·) = .ok made ↔
        entry.1 = made.1 ∧ Constraint.ofValue entry.1 entry.2 = .ok made.2 := by
    intro entry made
    cases Constraint.ofValue entry.1 entry.2 <;> simp [Except.map, Prod.ext_iff]
  simp only [ofValue] at accepted
  split at accepted
  · next selector isWhitelist selector_eq whitelist_eq =>
    simp only [bind, Except.bind, pure, Except.pure] at accepted
    split at accepted
    · contradiction
    · next constraints mapped =>
      cases accepted
      refine ⟨selector_eq, ?_, ?_, ?_, ?_⟩
      · unfold setting at whitelist_eq
        unfold IsListing
        cases known : entries.value? whitelistKey with
        | none => simp_all
        | some value => simp_all
      · have paired := (mapM_eq_ok_iff.mp mapped).imp fun entry made same =>
          ((made_iff entry made).mp same).1
        have keys_eq := List.forall₂_map_left_iff.mpr (List.forall₂_map_right_iff.mpr paired)
        rw [List.forall₂_eq_eq_eq] at keys_eq
        rw [Table.keys, ← keys_eq]
        exact List.filter_sublist.map _
      · intro name constraint held
        obtain ⟨⟨_, demand⟩, known, same⟩ := (mem_iff_of_mapM_eq_ok mapped).mp held
        obtain ⟨rfl, made⟩ := (made_iff _ _).mp same
        exact ⟨demand, mem_named_iff.mp known, Constraint.stands_of_ofValue made⟩
      · intro name demand names
        have known := mem_named_iff.mpr names
        obtain ⟨⟨_, constraint⟩, same⟩ := exists_value_of_mapM_eq_ok mapped known
        obtain ⟨rfl, made⟩ := (made_iff _ _).mp same
        exact ⟨constraint, (mem_iff_of_mapM_eq_ok mapped).mpr ⟨_, known, same⟩,
          Constraint.stands_of_ofValue made⟩
  · contradiction
  · contradiction

/-- What holds of a constraint of a check is said of the demand that it stands for. -/
theorem Follows.exists_constraint_iff
    (follows : check.Follows entries)
    {Holds : Constraint → Prop}
    {Says : Value → Prop}
    (same : ∀ {demand constraint}, Constraint.Stands demand constraint →
      (Holds constraint ↔ Says demand)) :
    (∃ constraint, (name, constraint) ∈ check.constraints ∧ Holds constraint) ↔
      ∃ demand, Names entries name demand ∧ Says demand := by
  constructor
  · rintro ⟨constraint, held, holds⟩
    obtain ⟨demand, names, stands⟩ := follows.exists_demand name constraint held
    exact ⟨demand, names, (same stands).mp holds⟩
  · rintro ⟨demand, names, told⟩
    obtain ⟨constraint, held, stands⟩ := follows.exists_constraint name demand names
    exact ⟨constraint, held, (same stands).mpr told⟩

theorem Follows.exists_report_iff (follows : check.Follows entries) :
    (∃ constraint, (name, constraint) ∈ check.constraints ∧
      constraint.report? name element ≠ none) ↔ Breaks entries element name :=
  follows.exists_constraint_iff fun stands =>
    not_congr (stands.report?_eq_none_iff name element)

theorem Follows.allows_iff (follows : check.Follows entries) :
    check.allows name = true ↔ ∃ demand, Names entries name demand ∧ demand ≠ .boolean false := by
  rw [← follows.exists_constraint_iff fun stands => not_congr stands.eq_forbidden_iff]
  simp [allows]

/-- The reports about one element, each with the name of the attribute that it is about. -/
def complaints (check : AttributeCheck) (element : Element) : Table String :=
  (check.constraints.filterMap fun entry =>
      (entry.2.report? entry.1 element).map (entry.1, ·)) ++
    if check.isWhitelist then
      (element.attributes.keys.filter fun name => !check.allows name).map fun name =>
        (name, s!"Attribute '{name}' is not allowed")
    else []

theorem map_complaints (check : AttributeCheck) (element : Element) :
    (check.complaints element).map (·.2) = check.reports element := by
  have extra : ∀ names : List String,
      (names.map fun name => (name, s!"Attribute '{name}' is not allowed")).map (·.2) =
        names.map fun name => s!"Attribute '{name}' is not allowed" := by
    intro names
    rw [List.map_map]
    rfl
  have constrained : ∀ entry : String × Constraint,
      ((entry.2.report? entry.1 element).map (entry.1, ·)).map (·.2) =
        entry.2.report? entry.1 element := by
    intro entry
    rw [Option.map_map]
    exact Option.map_id'
  rw [complaints, reports, List.map_append, List.map_filterMap]
  simp only [constrained]
  split
  · rw [extra]
  · rfl

/-- A report says that it is about the attribute of a name. -/
def IsAbout (message name : String) : Prop :=
  ∃ rest, message = "Attribute '" ++ name ++ ("'" ++ rest) ∨
    message = "Expected attribute '" ++ name ++ ("'" ++ rest)

theorem IsAbout.append {message : String} (about : IsAbout message name) (more : String) :
    IsAbout (message ++ more) name := by
  obtain ⟨rest, rfl | rfl⟩ := about
  · exact ⟨rest ++ more, .inl (by simp only [String.append_assoc])⟩
  · exact ⟨rest ++ more, .inr (by simp only [String.append_assoc])⟩

theorem isAbout_notAllowed (name : String) : IsAbout s!"Attribute '{name}' is not allowed" name :=
  ⟨" is not allowed", .inl rfl⟩

theorem isAbout_of_report?_eq_some
    {constraint : Constraint}
    {message : String}
    (reported : constraint.report? name element = some message) :
    IsAbout message name := by
  have expected : ∀ rest, IsAbout ("Expected attribute '" ++ name ++ ("'" ++ rest)) name :=
    fun rest => ⟨rest, .inr rfl⟩
  unfold Constraint.report? at reported
  split at reported
  · contradiction
  · cases reported
    exact isAbout_notAllowed name
  · cases reported
    exact expected ", not found"
  · contradiction
  · split at reported
    · contradiction
    · cases reported
      exact ((((expected " to be '").append _).append _).append _).append _
  · split at reported
    · contradiction
    · cases reported
      exact ((((expected " to be one of ").append _).append _).append _).append _

theorem isAbout_of_mem_complaints
    {complaint : String × String}
    (held : complaint ∈ check.complaints element) :
    IsAbout complaint.2 complaint.1 := by
  rcases List.mem_append.mp held with broken | unlisted
  · obtain ⟨entry, -, made⟩ := List.mem_filterMap.mp broken
    obtain ⟨message, reported, rfl⟩ := Option.map_eq_some_iff.mp made
    exact isAbout_of_report?_eq_some reported
  · split at unlisted
    · obtain ⟨name, -, rfl⟩ := List.mem_map.mp unlisted
      exact isAbout_notAllowed name
    · contradiction

/-- The names of the attributes that are not as a constraint demands. -/
def brokenNames (check : AttributeCheck) (element : Element) : List String :=
  Table.keys (check.constraints.filter fun entry => (entry.2.report? entry.1 element).isSome)

/-- The names of the attributes that the white list does not let pass. -/
def unlistedNames (check : AttributeCheck) (element : Element) : List String :=
  if check.isWhitelist then element.attributes.keys.filter fun name => !check.allows name else []

theorem keys_complaints (check : AttributeCheck) (element : Element) :
    (check.complaints element).keys = check.brokenNames element ++ check.unlistedNames element := by
  have extra : ∀ names : List String,
      Table.keys (names.map fun name => (name, s!"Attribute '{name}' is not allowed")) = names := by
    intro names
    rw [Table.keys, List.map_map]
    exact List.map_id' names
  rw [brokenNames, ← Table.keys_filterMap, complaints, Table.keys, List.map_append, unlistedNames]
  congr 1
  split
  · exact extra _
  · rfl

theorem Follows.mem_brokenNames_iff (follows : check.Follows entries) :
    name ∈ check.brokenNames element ↔ Breaks entries element name := by
  rw [← follows.exists_report_iff]
  simp [brokenNames, Table.keys, Option.ne_none_iff_isSome]

theorem Follows.mem_unlistedNames_iff (follows : check.Follows entries) :
    name ∈ check.unlistedNames element ↔ IsUnlisted entries element name := by
  have refused_iff : check.allows name = false ↔
      ∀ demand, Names entries name demand → demand = .boolean false := by
    rw [← Bool.not_eq_true, follows.allows_iff]
    simp
  rw [IsUnlisted, ← follows.isWhitelist_iff, ← refused_iff, unlistedNames]
  split <;> simp_all

theorem Follows.nodup_brokenNames
    (follows : check.Follows entries)
    (distinct : entries.keys.Nodup)
    (element : Element) :
    (check.brokenNames element).Nodup :=
  (List.filter_sublist.map Prod.fst).nodup (follows.keys_sublist.nodup distinct)

theorem nodup_unlistedNames (check : AttributeCheck) (carried : element.attributes.keys.Nodup) :
    (check.unlistedNames element).Nodup := by
  unfold unlistedNames
  split
  · exact carried.filter _
  · exact List.nodup_nil

open Classical in
/-- An attribute is complained about once for each of the two reasons to do so. -/
theorem Follows.count_keys_complaints
    (follows : check.Follows entries)
    (distinct : entries.keys.Nodup)
    (carried : element.attributes.keys.Nodup)
    (name : String) :
    (check.complaints element).keys.count name =
      (if Breaks entries element name then 1 else 0) +
        if IsUnlisted entries element name then 1 else 0 := by
  rw [keys_complaints, List.count_append, (follows.nodup_brokenNames distinct element).count,
    (nodup_unlistedNames check carried).count]
  simp only [follows.mem_brokenNames_iff, follows.mem_unlistedNames_iff]

/-- An element has no report just when it satisfies the configuration. -/
theorem Follows.reports_eq_nil_iff (follows : check.Follows entries) (element : Element) :
    check.reports element = [] ↔ Satisfies entries element := by
  have none_iff : check.reports element = [] ↔ (check.complaints element).keys = [] := by
    rw [← map_complaints, Table.keys, List.map_eq_nil_iff, List.map_eq_nil_iff]
  rw [none_iff, keys_complaints, satisfies_iff, List.eq_nil_iff_forall_not_mem]
  simp only [List.mem_append, not_or, follows.mem_brokenNames_iff, follows.mem_unlistedNames_iff]

/-- With different keys, an attribute is off the white list and not as demanded just when the element
carries it although it is forbidden. -/
theorem breaks_and_isUnlisted_iff (distinct : entries.keys.Nodup) :
    Breaks entries element name ∧ IsUnlisted entries element name ↔
      IsListing entries ∧ Names entries name (.boolean false) ∧ name ∈ element.attributes.keys := by
  constructor
  · rintro ⟨⟨demand, names, -⟩, listing, carried, forbidden⟩
    exact ⟨listing, forbidden demand names ▸ names, carried⟩
  · rintro ⟨listing, names, carried⟩
    refine ⟨⟨_, names, ?_⟩, listing, carried, fun demand other => ?_⟩
    · obtain ⟨value, known⟩ := Option.isSome_iff_exists.mp (Table.hasKey_iff.mpr carried)
      simp [Meets, known]
    · have first := (Table.value?_eq_some_iff distinct).mpr names.1
      have second := (Table.value?_eq_some_iff distinct).mpr other.1
      exact Option.some.inj (second.symm.trans first)

end AttributeCheck

/-! ## What is delivered -/

/-- Reports with descriptions are delivered one after the other, and nothing else happens. -/
theorem performAll_described
    {document : Document}
    {now : Rat}
    {before : Performance}
    (running : before.reporter.isFinished = false)
    (going : before.ending? = none)
    (reports : List (String × String)) :
    let performed := Action.performAll document now before
      (reports.map fun report => .report .error report.1 (.described report.2))
    performed.ending? = none ∧
      Reporter.delivered performed.effects = Reporter.delivered before.effects ++
        reports.map fun report =>
          ⟨before.reporter.rule, before.reporter.index, .error, report.1, some report.2⟩ := by
  induction reports generalizing before with
  | nil => simp [Action.performAll, going]
  | cons report rest ih =>
    obtain ⟨message, description⟩ := report
    obtain ⟨⟨rule, index, isFinished, activity, last?⟩, effects, ending?⟩ := before
    cases running
    cases going
    obtain ⟨ended, delivered⟩ := @ih
      ⟨⟨rule, index, false, activity + 1, some now⟩,
        effects ++ [.delivered ⟨rule, index, .error, message, some description⟩], none⟩ rfl rfl
    rw [Reporter.delivered_append, List.append_assoc] at delivered
    exact ⟨ended, delivered⟩

namespace AttributeCheck

/-- The diagnostics that an element gets. -/
def diagnoses (check : AttributeCheck) (rule : String) (index : Int) (node : Node) :
    List Diagnostic :=
  (check.reports node.element).map fun message =>
    ⟨rule, index, .error, message, some node.element.describe⟩

theorem delivered_call
    {check : AttributeCheck}
    {document : Document}
    {nodes : List Node}
    (selected : document.select check.selector = .ok nodes)
    (rule : String)
    (index : Int) :
    let performed := (Instance.attributes check).call document (.new rule index)
    performed.ending? = none ∧
      Reporter.delivered performed.effects = nodes.flatMap (check.diagnoses rule index) := by
  have actions_eq : check.actions document =
      (nodes.flatMap fun node => (check.reports node.element).map (·, node.element.describe)).map
        fun report => .report .error report.1 (.described report.2) := by
    simp only [actions, selected, List.map_flatMap, List.map_map]
    rfl
  have call_eq : (Instance.attributes check).call document (.new rule index) =
      Action.performAll document 0 (.start (.new rule index)) (check.actions document) := rfl
  obtain ⟨ended, delivered⟩ := @performAll_described document 0 (.start (.new rule index)) rfl rfl
    (nodes.flatMap fun node => (check.reports node.element).map (·, node.element.describe))
  dsimp only
  rw [call_eq, actions_eq]
  refine ⟨ended, ?_⟩
  rw [delivered, List.map_flatMap]
  simp only [List.map_map]
  rfl

end AttributeCheck

variable {config : Value} {configured : Instance}

theorem follows_of_instantiate
    (accepted : Definition.attributes.instantiate config = .ok configured) :
    ∃ entries check, config = .table entries ∧ configured = .attributes check ∧
      check.Follows entries := by
  simp only [Definition.instantiate] at accepted
  split at accepted
  · next check made =>
    cases accepted
    cases config with
    | table entries =>
      exact ⟨entries, check, rfl, rfl, AttributeCheck.follows_of_ofValue made⟩
    | _ => simp [AttributeCheck.ofValue] at made
  · contradiction

/-- A run of a check of attributes goes through the selected elements.  It reports nothing of an
element just when the element satisfies the configuration, and so nothing at all just when all of them
do. -/
theorem attributes_satisfied (accepted : Definition.attributes.instantiate config = .ok configured) :
    ∃ entries check, config = .table entries ∧ configured = .attributes check ∧
      AttributeCheck.setting entries selectorKey (.text "*") = .text check.selector ∧
      ∀ document nodes, document.select check.selector = .ok nodes → ∀ rule index,
        let performed := configured.call document (.new rule index)
        performed.ending? = none ∧
          Reporter.delivered performed.effects = nodes.flatMap (check.diagnoses rule index) ∧
          (∀ node, check.diagnoses rule index node = [] ↔ Satisfies entries node.element) ∧
          (Reporter.delivered performed.effects = [] ↔
            ∀ node ∈ nodes, Satisfies entries node.element) := by
  obtain ⟨entries, check, rfl, rfl, follows⟩ := follows_of_instantiate accepted
  refine ⟨entries, check, rfl, rfl, follows.selector_eq, ?_⟩
  intro document nodes selected rule index
  obtain ⟨ended, delivered⟩ := AttributeCheck.delivered_call selected rule index
  have silent_iff : ∀ node, check.diagnoses rule index node = [] ↔
      Satisfies entries node.element := by
    intro node
    rw [AttributeCheck.diagnoses, List.map_eq_nil_iff, follows.reports_eq_nil_iff]
  refine ⟨ended, delivered, silent_iff, ?_⟩
  rw [delivered, List.flatMap_eq_nil_iff]
  exact forall₂_congr fun node _ => silent_iff node

/-- A configuration with a white list of two attributes. -/
def listing : Table Value :=
  [(selectorKey, .text "b"), (whitelistKey, .boolean true), ("id", .boolean true),
    ("x", .list [.text "2", .text "1"])]

/-- An element that satisfies the configuration. -/
def satisfying : Element := ⟨"b", [("id", "first"), ("x", "1")], none, none, []⟩

/-- An element without the one attribute, with another value of the other one, and with one more. -/
def offending : Element := ⟨"b", [("x", "3"), ("xmlns", "u")], none, none, []⟩

/-- A document with the two elements. -/
def marked : Document where
  file? := none
  root := ⟨"a", [], none, none, [satisfying, offending]⟩
  source := "<a><b id='first' x='1'/><b xmlns='u' x='3'/></a>"

/-- The check that the configuration describes. -/
def listingCheck : AttributeCheck := ⟨"b", [("id", .required), ("x", .oneOf ["1", "2"])], true⟩

theorem instantiate_listing :
    Definition.attributes.instantiate (.table listing) = .ok (.attributes listingCheck) := rfl

theorem exists_select_marked : ∃ nodes, marked.select "b" = .ok nodes ∧ nodes.length = 2 := by
  have known : (marked.select "b").map List.length = .ok 2 := by decide
  cases selected : marked.select "b" with
  | error refusal =>
    rw [selected] at known
    contradiction
  | ok nodes =>
    rw [selected] at known
    exact ⟨nodes, rfl, Except.ok.inj known⟩

theorem attributes_satisfied_of_marked :
    ∃ configured, Definition.attributes.instantiate (.table listing) = .ok configured ∧
      (∃ nodes, marked.select "b" = .ok nodes ∧ nodes.length = 2) ∧
      (Reporter.delivered (configured.call marked (.new "attr" 0)).effects).length = 3 ∧
      Satisfies listing satisfying ∧ ¬Satisfies listing offending := by
  obtain ⟨entries, same, made, made_eq, -, run⟩ := attributes_satisfied instantiate_listing
  cases made
  cases made_eq
  obtain ⟨nodes, selected, -⟩ := exists_select_marked
  obtain ⟨-, -, silent_iff, -⟩ := run marked nodes selected "attr" 0
  refine ⟨_, instantiate_listing, exists_select_marked, by decide, ?_, ?_⟩
  · exact (silent_iff ⟨[0], satisfying⟩).mp (by decide)
  · exact mt (silent_iff ⟨[1], offending⟩).mpr (by decide)

/-- The attributes of an element that is selected in a document that was read have different names. -/
theorem nodup_attributes_of_select
    {source selector : String}
    {file? : Option String}
    {document : Document}
    {nodes : List Node}
    (read : Document.read source file? = .ok document)
    (selected : document.select selector = .ok nodes) :
    ∀ node ∈ nodes, node.element.attributes.keys.Nodup := by
  intro node held
  have has : document.wrapper.Has node := by
    rw [Document.select] at selected
    split at selected
    · contradiction
    · cases selected
      exact Selector.Step.has_of_mem_walk held
  rcases Document.mem_placed_or_eq_top has with placed | rfl
  · obtain ⟨other, known, rfl⟩ := List.mem_map.mp placed
    exact Document.nodup_attributes_of_read read other known
  · exact List.nodup_nil

/-- Each attribute that is not as demanded is reported once for an element, except that one which the
element carries is reported twice if the configuration both forbids it and has a white list.  The
attributes of an element are known by their names, which are different in a document that is read. -/
theorem attributes_reported_once
    {entries : Table Value}
    (accepted : Definition.attributes.instantiate (.table entries) = .ok configured)
    (distinct : entries.keys.Nodup) :
    ∃ check, configured = .attributes check ∧
      AttributeCheck.setting entries selectorKey (.text "*") = .text check.selector ∧
      ∀ document nodes, document.select check.selector = .ok nodes → ∀ rule index,
        Reporter.delivered (configured.call document (.new rule index)).effects =
            nodes.flatMap (fun node => (check.complaints node.element).map fun complaint =>
              ⟨rule, index, .error, complaint.2, some node.element.describe⟩) ∧
          (∀ source file?, Document.read source file? = .ok document →
            ∀ node ∈ nodes, node.element.attributes.keys.Nodup) ∧
          ∀ node : Node, node.element.attributes.keys.Nodup →
            (∀ complaint ∈ check.complaints node.element,
                AttributeCheck.IsAbout complaint.2 complaint.1) ∧
              ∀ name,
                let count := (check.complaints node.element).keys.count name
                (count = 0 ↔
                    ¬(Breaks entries node.element name ∨ IsUnlisted entries node.element name)) ∧
                  count ≤ 2 ∧
                  (count = 2 ↔ IsListing entries ∧ Names entries name (.boolean false) ∧
                    name ∈ node.element.attributes.keys) := by
  obtain ⟨_, check, same, rfl, follows⟩ := follows_of_instantiate accepted
  cases same
  refine ⟨check, rfl, follows.selector_eq, fun document nodes selected rule index =>
    ⟨?_, fun _ _ read => nodup_attributes_of_select read selected, ?_⟩⟩
  · rw [(AttributeCheck.delivered_call selected rule index).2]
    refine List.flatMap_congr fun node _ => ?_
    rw [AttributeCheck.diagnoses, ← AttributeCheck.map_complaints, List.map_map]
    rfl
  · intro node carried
    refine ⟨fun complaint held => AttributeCheck.isAbout_of_mem_complaints held, fun name => ?_⟩
    rw [follows.count_keys_complaints distinct carried name,
      ← AttributeCheck.breaks_and_isUnlisted_iff distinct]
    split <;> split <;> simp_all

theorem attributes_reported_once_of_marked :
    ∃ check, Definition.attributes.instantiate (.table listing) = .ok (.attributes check) ∧
      listing.keys.Nodup ∧ (check.complaints offending).keys.count "xmlns" = 1 := by
  have distinct : listing.keys.Nodup := by decide
  obtain ⟨_, made, -, run⟩ := attributes_reported_once instantiate_listing distinct
  cases made
  refine ⟨listingCheck, instantiate_listing, distinct, ?_⟩
  obtain ⟨nodes, selected, -⟩ := exists_select_marked
  obtain ⟨-, -, each⟩ := run marked nodes selected "attr" 0
  have counts := (each ⟨[1], offending⟩ (by decide)).2 "xmlns"
  generalize (listingCheck.complaints offending).keys.count "xmlns" = count at counts ⊢
  obtain ⟨zero_iff, atMost, two_iff⟩ := counts
  have unnamed : ∀ demand, ¬Names listing "xmlns" demand := by
    simp [Names, listing, selectorKey, whitelistKey]
  have unlisted : IsUnlisted listing offending "xmlns" :=
    ⟨rfl, by decide, fun demand names => absurd names (unnamed demand)⟩
  have some : count ≠ 0 := fun none => zero_iff.mp none (.inr unlisted)
  have notTwice : count ≠ 2 := fun twice => unnamed _ (two_iff.mp twice).2.1
  omega

/-- The attribute of the only element is reported twice: it is forbidden, and not on the white list. -/
theorem reported_twice_of_forbidden :
    ∃ configured document,
      Definition.attributes.instantiate
          (.table [(whitelistKey, .boolean true), ("x", .boolean false)]) = .ok configured ∧
        Document.read "<a x=\"1\"/>" none = .ok document ∧
        Reporter.delivered (configured.call document (.new "attr" 0)).effects =
          [⟨"attr", 0, .error, "Attribute 'x' is not allowed", some "<a>"⟩,
            ⟨"attr", 0, .error, "Attribute 'x' is not allowed", some "<a>"⟩] := by
  have wellFormed : Xml.read "<a x=\"1\"/>".toList =
      .ok [.start ⟨none, "a"⟩ [(⟨none, "x"⟩, "1")], .finish] := by decide
  exact ⟨.attributes ⟨"*", [("x", .forbidden)], true⟩,
    ⟨none, ⟨"a", [("x", "1")], none, none, []⟩, "<a x=\"1\"/>"⟩, rfl,
    Document.read_eq_ok wellFormed rfl none, by decide⟩

end Rule
end MarkupLint
