import MarkupLint.Proofs.Linting.Collecting
import MarkupLint.Proofs.Linting.Lockstep

/-!
# The members for a rule set

A new linting has one member for each configured instance, in order.  When the names of the rules
are different, the members can be told apart.
-/

namespace MarkupLint

namespace Linting

/-- The instance of a rule with a number. -/
def RuleSet.instance? (rules : RuleSet) (rule : String) (number : Nat) : Option Rule.Instance :=
  (rules.value? rule).bind fun instances => instances[number]?

/-- The rules and the numbers of all instances, in order. -/
def RuleSet.instanceKeys (rules : RuleSet) : List (String × Int) :=
  rules.flatMap fun rule => (List.range rule.2.length).map fun number : Nat => (rule.1, (number : Int))

variable {document : Document} {rules : RuleSet} {timeout? : Option Binary64} {precision : Precision}
  {precedence : Precedence SessionTurn}

theorem mem_membersOf {rule : String} {instances : List Rule.Instance} {member : Member} :
    member ∈ membersOf document rule instances ↔
      ∃ number configured, instances[number]? = some configured ∧
        member = .new rule number (configured.script document) := by
  simp only [membersOf, List.mem_mapIdx, List.getElem?_eq_some_iff]
  constructor
  · rintro ⟨number, bound, rfl⟩
    exact ⟨number, _, ⟨bound, rfl⟩, rfl⟩
  · rintro ⟨number, configured, ⟨bound, rfl⟩, rfl⟩
    exact ⟨number, bound, rfl⟩

theorem mem_members_new {member : Member} :
    member ∈ (Linting.new document rules timeout? precision).members ↔
      ∃ rule ∈ rules, ∃ number configured, rule.2[number]? = some configured ∧
        member = .new rule.1 number (configured.script document) := by
  simp only [Linting.new, List.mem_flatMap, mem_membersOf]

theorem exists_member_of_instance?
    {rule : String}
    {number : Nat}
    {configured : Rule.Instance}
    (known : rules.instance? rule number = some configured) :
    ∃ index : Nat, (Linting.new document rules timeout? precision).members[index]? =
      some (Member.new rule number (configured.script document)) := by
  obtain ⟨instances, named, found⟩ := Option.bind_eq_some_iff.mp known
  have entry : (rule, instances) ∈ rules := by
    obtain ⟨before, behind, split, -⟩ := List.lookup_eq_some_iff.mp named
    rw [split]
    exact List.mem_append_right _ List.mem_cons_self
  apply List.mem_iff_getElem?.mp
  exact mem_members_new.mpr ⟨(rule, instances), entry, number, configured, found, rfl⟩

theorem keys_new : (Linting.new document rules timeout? precision).keys = rules.instanceKeys := by
  have each : ∀ (rule : String) (instances : List Rule.Instance),
      (membersOf document rule instances).map Member.key =
        (List.range instances.length).map fun number : Nat => (rule, (number : Int)) := by
    intro rule instances
    apply List.ext_getElem (by simp [membersOf])
    intro number _ _
    simp [membersOf, Member.key, Member.new, Reporter.new]
  simp only [keys, Linting.new, List.map_flatMap, each, RuleSet.instanceKeys]

/-- Instances can be told apart by their rules and numbers. -/
theorem nodup_instanceKeys (distinct : rules.keys.Nodup) : rules.instanceKeys.Nodup := by
  refine List.nodup_flatMap.mpr ⟨fun rule _ => ?_, ?_⟩
  · apply List.nodup_range.map
    intro first second same
    simpa using same
  · refine (List.pairwise_map.mp distinct).imp fun {first second} different => ?_
    intro key known other
    obtain ⟨number, -, rfl⟩ := List.mem_map.mp known
    obtain ⟨later, -, same⟩ := List.mem_map.mp other
    exact different (congrArg Prod.fst same).symm

/-- A new linting has a group for each rule, in order. -/
theorem keys_groups_new (distinct : rules.keys.Nodup) :
    (Linting.new document rules timeout? precision).diagnostics.groups.keys = rules.keys := by
  have keys_eq : (Collection.afterDeclaring rules.keys []).groups.keys = rules.keys.eraseDups :=
    (Collection.keys_afterDeclaring rfl).trans (congrArg _ (List.append_nil _))
  rw [diagnostics_new, keys_eq, Table.eraseDups_eq_self distinct]

theorem mem_keys_of_mem_instanceKeys
    {key : String × Int}
    (known : key ∈ rules.instanceKeys) :
    key.1 ∈ rules.keys := by
  obtain ⟨rule, named, held⟩ := List.mem_flatMap.mp known
  obtain ⟨number, -, rfl⟩ := List.mem_map.mp held
  exact List.mem_map_of_mem named

/-- Before the run, the groups are empty. -/
theorem value?_groups_new (rule : String) :
    ((Linting.new document rules timeout? precision).diagnostics.groups.value? rule).getD [] = [] := by
  rw [diagnostics_new]
  exact Collection.group_afterDeclaring rule

/-- No diagnostic is attributed to anyone before the run. -/
theorem attributed_new (key : String × Int) :
    (Linting.new document rules timeout? precision).diagnostics.attributed key = [] := by
  rw [Collection.attributed, value?_groups_new, List.filter_nil]

/-- A new session has not begun its run. -/
theorem Session.Unbegun.new (distinct : rules.keys.Nodup) (requests : List Request) :
    Unbegun (.new document rules timeout? precision)
      (.new (.new document rules timeout? precision) precedence requests) where
  balanced := Balanced.new document rules timeout? precision
  sorted := List.Pairwise.nil
  distinct := by
    rw [Session.new, keys_new]
    exact nodup_instanceKeys distinct
  early := rfl
  quiet := by simp [Session.new, Schedule.entries, Schedule.soon, Schedule.empty,
    SessionTurn.member?]
  setting_eq := rfl
  members_eq := rfl
  diagnostics_eq := rfl

/-- A session keeps a group for each rule, in order. -/
theorem Session.keys_groups_goOn
    (distinct : rules.keys.Nodup)
    (requests : List Request)
    (turns : Nat) :
    ((Session.new (.new document rules timeout? precision) precedence requests).goOn
      turns).linting.diagnostics.groups.keys = rules.keys := by
  refine @Session.diagnostics_goOn (fun collection => collection.groups.keys = rules.keys) _
    (fun _ same => same) (fun collection diagnostic own kept => ?_) (keys_groups_new distinct) turns
  refine (Collection.keys_groups_accept ?_).trans kept
  rw [Session.new, keys_new] at own
  rw [kept]
  exact mem_keys_of_mem_instanceKeys own

end Linting
end MarkupLint
