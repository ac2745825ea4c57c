import MarkupLint.Proofs.Rule.Builtin
import MarkupLint.Proofs.Traversal

/-!
# What a check of elements expects

A check of elements is made of a table whose values say how many elements are expected.  It reports
nothing of a selector just when the number of selected elements is one that the value admits.  There
is always such a number, unless the value is a range that lies below zero.
-/

namespace MarkupLint
namespace Rule

/-- A configured value admits a number of selected elements. -/
def Admits : Value → Nat → Prop
  | .boolean true, count => 0 < count
  | .boolean false, count => count = 0
  | .integer wanted, count => (count : Int) = wanted
  | .list [.integer low, .integer high], count | .tuple [.integer low, .integer high], count =>
    low ≤ count ∧ (count : Int) ≤ high
  | _, _ => False

/-- A configured value is a range of numbers below zero. -/
def IsBelowZero (value : Value) : Prop :=
  ∃ low high, value.items? = some [.integer low, .integer high] ∧ high < 0

namespace Expectation

/-- The expectation that a configured value stands for. -/
inductive Stands : Value → Expectation → Prop where
  | some : Stands (.boolean true) some
  | none : Stands (.boolean false) none
  | exactly (count : Nat) : Stands (.integer count) (exactly count)
  | between
      (value : Value)
      (low high : Int)
      (items_eq : value.items? = Option.some [.integer low, .integer high])
      (ordered : low ≤ high) :
      Stands value (between low high)

variable {value : Value} {expectation : Expectation}

theorem stands_of_ofValue
    {selector : String}
    (made : ofValue selector value = .ok expectation) :
    Stands value expectation := by
  unfold ofValue at made
  split at made
  · cases made
    exact .some
  · cases made
    exact .none
  · next count =>
    split at made
    · contradiction
    · next notNegative =>
      cases made
      have same : (count.toNat : Int) = count := Int.toNat_of_nonneg (not_lt.mp notNegative)
      exact same ▸ .exactly count.toNat
  · split at made
    · next low high items_eq =>
      split at made
      · contradiction
      · next ordered =>
        cases made
        exact .between _ low high items_eq (not_lt.mp ordered)
    · split at made <;> cases made

theorem Stands.ofValue_eq (stands : Stands value expectation) (selector : String) :
    ofValue selector value = .ok expectation := by
  cases stands with
  | some => rfl
  | none => rfl
  | exactly count => rfl
  | between value low high items_eq ordered =>
    rcases Value.items?_eq_some_iff.mp items_eq with rfl | rfl <;> exact if_neg (not_lt.mpr ordered)

theorem Stands.isMet_iff (stands : Stands value expectation) (count : Nat) :
    expectation.isMet count = true ↔ Admits value count := by
  cases stands with
  | between value low high items_eq ordered =>
    rcases Value.items?_eq_some_iff.mp items_eq with rfl | rfl <;> simp [isMet, Admits]
  | _ => simp [isMet, Admits]

/-- Only a range below zero admits no number of elements. -/
theorem Stands.exists_admits_iff (stands : Stands value expectation) :
    (∃ count, Admits value count) ↔ ¬IsBelowZero value := by
  cases stands with
  | some => exact iff_of_true ⟨1, Nat.one_pos⟩ (by simp [IsBelowZero, Value.items?])
  | none => exact iff_of_true ⟨0, rfl⟩ (by simp [IsBelowZero, Value.items?])
  | exactly count => exact iff_of_true ⟨count, rfl⟩ (by simp [IsBelowZero, Value.items?])
  | between value low high items_eq ordered =>
    have below : IsBelowZero value ↔ high < 0 := by simp [IsBelowZero, items_eq]
    have admits_iff : ∀ count, Admits value count ↔ low ≤ count ∧ (count : Int) ≤ high := by
      rcases Value.items?_eq_some_iff.mp items_eq with rfl | rfl <;> exact fun _ => Iff.rfl
    simp only [admits_iff, below, not_lt]
    constructor
    · rintro ⟨count, -, least⟩
      exact (Int.natCast_nonneg count).trans least
    · intro reachable
      have same : (high.toNat : Int) = high := Int.toNat_of_nonneg reachable
      exact ⟨high.toNat, ordered.trans_eq same.symm, same.le⟩

theorem reports_eq_nil_iff
    (expectation : Expectation)
    (selector : String)
    (nodes : List Node) :
    expectation.reports selector nodes = [] ↔ expectation.isMet nodes.length = true := by
  refine ⟨fun silent => ?_, fun met => reports_of_isMet met selector⟩
  by_contra unmet
  simp only [reports, if_neg unmet] at silent
  cases expectation with
  | none =>
    have empty : nodes = [] := List.map_eq_nil_iff.mp silent
    exact unmet (empty ▸ rfl)
  | _ => contradiction

end Expectation

namespace ElementCheck

variable {entries : List (String × Value)} {check : ElementCheck}

theorem ofValue_eq_ok_iff :
    ofValue (.table entries) = .ok check ↔
      List.Forall₂ (fun entry asked => asked.1 = entry.1 ∧ Expectation.Stands entry.2 asked.2)
        entries check.expectations := by
  have each : ∀ (entry : String × Value) (asked : String × Expectation),
      (Expectation.ofValue entry.1 entry.2).map (entry.1, ·) = .ok asked ↔
        asked.1 = entry.1 ∧ Expectation.Stands entry.2 asked.2 := by
    intro entry asked
    rw [map_eq_ok_iff]
    constructor
    · rintro ⟨expectation, made, rfl⟩
      exact ⟨rfl, Expectation.stands_of_ofValue made⟩
    · rintro ⟨same, stands⟩
      exact ⟨asked.2, stands.ofValue_eq entry.1, Prod.ext same.symm rfl⟩
  rw [ofValue, bind_eq_ok_iff]
  simp only [mapM_eq_ok_iff, each, pure, Except.pure, Except.ok.injEq]
  exact ⟨fun ⟨_, asked, same⟩ => same ▸ asked, fun asked => ⟨_, asked, rfl⟩⟩

theorem exists_not_stands_of_ofValue
    {fault : ElementFault}
    (refused : ofValue (.table entries) = .error fault) :
    ∃ entry ∈ entries, ∀ expectation, ¬Expectation.Stands entry.2 expectation := by
  have failed : entries.mapM (fun entry =>
      (Expectation.ofValue entry.1 entry.2).map (entry.1, ·)) = .error fault := by
    rcases bind_eq_error_iff.mp refused with failed | ⟨_, -, made⟩
    · exact failed
    · cases made
  obtain ⟨entry, held, why⟩ := exists_of_mapM_eq_error failed
  refine ⟨entry, held, fun expectation stands => ?_⟩
  rw [stands.ofValue_eq entry.1] at why
  cases why

/-- What is done for a selector is nothing just if it selects elements in a number as expected. -/
theorem actionsFor_eq_nil_iff
    {document : Document}
    {selector : String}
    {expectation : Expectation} :
    actionsFor document selector expectation = [] ↔
      ∃ nodes, document.select selector = .ok nodes ∧ expectation.isMet nodes.length = true := by
  unfold actionsFor
  split
  · next refusal refused => simp [refused]
  · next nodes selected => simp [selected, Expectation.reports_eq_nil_iff]

end ElementCheck

end Rule

/-- Nothing has come of performing actions, and they have not ended the script. -/
structure Performance.IsSilent (performance : Performance) : Prop where
  effects_eq : performance.effects = []
  ending_eq : performance.ending? = none

namespace Action

variable {document : Document} {now : Rat}

theorem not_isSilent_perform
    {before : Performance}
    {action : Action}
    (isPlain : action.IsPlain)
    (unfinished : before.reporter.isFinished = false) :
    ¬(action.perform document now before).IsSilent := by
  cases action with
  | report severity message target =>
    have reported : ∀ node?, ¬(before.use (·.report now severity message node?)).IsSilent := by
      intro node? silent
      have none := silent.effects_eq
      simp [Performance.use, Reporter.report, unfinished] at none
    cases target with
    | selected selector index => exact isPlain.elim
    | _ => exact reported _
  | fail failure =>
    intro silent
    exact Option.some_ne_none _ silent.ending_eq
  | _ => exact isPlain.elim

/-- Actions that report or fail are silent only if there are none. -/
theorem isSilent_performAll_iff
    {reporter : Reporter}
    {actions : List Action}
    (unfinished : reporter.isFinished = false)
    (arePlain : ∀ action ∈ actions, action.IsPlain) :
    (performAll document now (.start reporter) actions).IsSilent ↔ actions = [] := by
  refine ⟨fun silent => ?_, fun none => none ▸ ⟨rfl, rfl⟩⟩
  cases actions with
  | nil => rfl
  | cons action rest =>
    have loud := @not_isSilent_perform document now (.start reporter) action
      (arePlain action List.mem_cons_self) unfinished
    simp only [performAll] at silent
    split at silent
    · exact absurd silent loud
    · next goesOn =>
      -- What the other actions do comes behind what the first one has done.
      obtain ⟨others, effects_eq, -⟩ := extends_performAll document now
        (action.perform document now (.start reporter)) rest
      rw [silent.effects_eq] at effects_eq
      have none := (List.append_eq_nil_iff.mp effects_eq.symm).1
      exact absurd ⟨none, Option.not_isSome_iff_eq_none.mp goesOn⟩ loud

end Action

namespace Rule
namespace ElementCheck

/-- A check expects of a selector what an entry of its configuration says: it reports nothing just
when the number of selected elements is admitted, and some number is admitted unless the entry has
a range below zero. -/
structure Asks (entry : String × Value) (asked : String × Expectation) : Prop where
  selector_eq : asked.1 = entry.1
  stands : Expectation.Stands entry.2 asked.2
  reports_eq_nil_iff : ∀ nodes, asked.2.reports entry.1 nodes = [] ↔ Admits entry.2 nodes.length
  can_be_met_iff :
    (∃ count, ∀ nodes : List Node, nodes.length = count → asked.2.reports entry.1 nodes = []) ↔
      ¬IsBelowZero entry.2

theorem asks_of_stands
    {selector : String}
    {value : Value}
    {expectation : Expectation}
    (stands : Expectation.Stands value expectation) :
    Asks (selector, value) (selector, expectation) := by
  have silent_iff : ∀ nodes : List Node, expectation.reports selector nodes = [] ↔
      Admits value nodes.length := by
    intro nodes
    rw [Expectation.reports_eq_nil_iff, stands.isMet_iff]
  refine ⟨rfl, stands, silent_iff, ?_⟩
  rw [← stands.exists_admits_iff]
  refine exists_congr fun count => ⟨fun silent => ?_, fun admitted nodes same => ?_⟩
  · have length_eq : (List.replicate count (default : Node)).length = count :=
      List.length_replicate
    exact length_eq ▸ (silent_iff _).mp (silent _ length_eq)
  · exact (silent_iff nodes).mpr (same ▸ admitted)

/-- What becomes of a configuration of a check of elements. -/
inductive Settled (config : Value) : Except Failure Instance → Prop where
  /-- The check expects what the entries say, and a run on a document is silent just if each selector
  selects an admitted number of elements. -/
  | accepted
      (entries : List (String × Value))
      (check : ElementCheck)
      (config_eq : config = .table entries)
      (asks : List.Forall₂ Asks entries check.expectations)
      (isSilent_iff : ∀ document rule index,
        ((Instance.elements check).call document (.new rule index)).IsSilent ↔
          ∀ entry ∈ entries, ∃ nodes, document.select entry.1 = .ok nodes ∧
            Admits entry.2 nodes.length) :
      Settled config (.ok (.elements check))
  /-- The configuration is no table, or has an entry that stands for no expectation. -/
  | refused
      (failure : Failure)
      (kind_eq : failure.kind = "ValueError")
      (faulty : ∀ entries, config = .table entries →
        ∃ entry ∈ entries, ∀ expectation, ¬Expectation.Stands entry.2 expectation) :
      Settled config (.error failure)

theorem isSilent_call_iff
    {entries : List (String × Value)}
    {check : ElementCheck}
    (asks : List.Forall₂ Asks entries check.expectations)
    (document : Document)
    (rule : String)
    (index : Int) :
    ((Instance.elements check).call document (.new rule index)).IsSilent ↔
      ∀ entry ∈ entries, ∃ nodes, document.select entry.1 = .ok nodes ∧
        Admits entry.2 nodes.length := by
  have call_eq : (Instance.elements check).call document (.new rule index) =
      Action.performAll document 0 (.start (.new rule index)) (check.actions document) := rfl
  rw [call_eq, Action.isSilent_performAll_iff rfl fun action => isPlain_actions, actions,
    List.flatMap_eq_nil_iff]
  generalize check.expectations = expectations at asks
  induction asks with
  | nil => simp
  | @cons entry asked _ _ first _ ih =>
    have here : actionsFor document asked.1 asked.2 = [] ↔
        ∃ nodes, document.select entry.1 = .ok nodes ∧ Admits entry.2 nodes.length := by
      simp only [actionsFor_eq_nil_iff, first.stands.isMet_iff, first.selector_eq]
    rw [List.forall_mem_cons, List.forall_mem_cons]
    exact and_congr here ih

end ElementCheck

/-- A configuration is accepted just if it is a table of truth values, numbers from zero on and
ranges whose least number is not above the greatest one; anything else is refused as a wrong value.
Each expectation of an accepted configuration can be met by some number of selected elements, except
those ranges that lie below zero. -/
theorem elements_settled (config : Value) :
    ElementCheck.Settled config (Definition.elements.instantiate config) := by
  have settled : ∀ outcome, ElementCheck.ofValue config = outcome →
      ElementCheck.Settled config (Definition.elements.instantiate config) := by
    intro outcome made
    simp only [Definition.instantiate, made]
    cases outcome with
    | ok check =>
      cases config with
      | table entries =>
        have asks : List.Forall₂ ElementCheck.Asks entries check.expectations := by
          refine (ElementCheck.ofValue_eq_ok_iff.mp made).imp ?_
          rintro ⟨selector, value⟩ ⟨_, expectation⟩ ⟨rfl, stands⟩
          exact ElementCheck.asks_of_stands stands
        exact .accepted entries check rfl asks (ElementCheck.isSilent_call_iff asks)
      | _ => simp [ElementCheck.ofValue] at made
    | error fault =>
      refine .refused _ rfl ?_
      rintro entries rfl
      exact ElementCheck.exists_not_stands_of_ofValue made
  exact settled _ rfl

/-- A range below zero is accepted, although no number of elements is in it. -/
theorem accepted_below_zero :
    Definition.elements.instantiate (.table [("a", .list [.integer (-2), .integer (-1)])]) =
        .ok (.elements ⟨[("a", .between (-2) (-1))]⟩) ∧
      ∀ nodes, (Expectation.between (-2) (-1)).reports "a" nodes ≠ [] := by
  refine ⟨rfl, fun nodes silent => ?_⟩
  have met := (Expectation.reports_eq_nil_iff _ _ _).mp silent
  simp only [Expectation.isMet, Bool.and_eq_true, decide_eq_true_iff] at met
  omega

end Rule
end MarkupLint
