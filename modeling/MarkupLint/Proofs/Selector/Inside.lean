import MarkupLint.Proofs.Selector.Selection

/-!
# Which elements a path leads to

A path leads to elements of the tree only.  The tree that is searched has an element above the root,
and a path leads to it if its last way up leads there and no step behind it leads away.  How deep a path
ends at least can be told from its steps alone.
-/

namespace MarkupLint
namespace Selector

variable {root : Element} {nodes : List Node} {node : Node}

/-! ## Steps inside a tree -/

theorem mem_children_iff (has : root.Has node) {child : Node} :
    child ∈ node.children ↔
      root.Has child ∧ ∃ index, child.position = index :: node.position := by
  rw [Node.children, List.mem_mapIdx]
  constructor
  · rintro ⟨index, bound, rfl⟩
    refine ⟨?_, index, rfl⟩
    rw [Element.Has, Element.at?, has, Option.bind_some, List.getElem?_eq_getElem bound]
  · rintro ⟨childHas, index, below⟩
    rw [Element.Has, below, Element.at?, has, Option.bind_some, List.getElem?_eq_some_iff] at childHas
    obtain ⟨bound, known⟩ := childHas
    refine ⟨index, bound, ?_⟩
    rw [known, ← below]

/-- Collecting the positions above elements, one element after another. -/
theorem mem_foldl_above_iff
    {collect : List Position → Node → List Position}
    (collects : ∀ seen node position, position ∈ collect seen node ↔
      position ∈ seen ∨ ∃ index, node.position = index :: position)
    {seen : List Position}
    {position : Position} :
    position ∈ nodes.foldl collect seen ↔
      position ∈ seen ∨ ∃ below ∈ nodes, ∃ index, below.position = index :: position := by
  induction nodes generalizing seen with
  | nil => simp
  | cons first rest ih =>
    rw [List.foldl_cons, ih, collects, List.exists_mem_cons_iff, or_assoc]

theorem mem_parents_iff :
    node ∈ Selector.parents root nodes ↔
      root.Has node ∧ ∃ below ∈ nodes, ∃ index, below.position = index :: node.position := by
  rw [parents, List.mem_filterMap]
  refine Iff.trans (exists_congr fun position =>
    and_congr_left' (List.mem_reverse.trans (mem_foldl_above_iff ?_))) ?_
  · intro seen first position
    cases first.position with
    | nil => simp
    | cons index above =>
      by_cases known : above ∈ seen
      · have member : position = above → position ∈ seen := fun same => same ▸ known
        simpa [known, eq_comm] using member
      · simp [known, or_comm, eq_comm]
  · constructor
    · rintro ⟨position, below, same⟩
      obtain ⟨element, known, rfl⟩ := Option.map_eq_some_iff.mp same
      exact ⟨known, below.resolve_left List.not_mem_nil⟩
    · rintro ⟨has, below⟩
      exact ⟨node.position, .inr below, Option.map_eq_some_iff.mpr ⟨node.element, has, rfl⟩⟩

namespace Step

/-- A step leads from elements of a tree to elements of the tree. -/
theorem has_of_mem_apply
    (has : ∀ node ∈ nodes, root.Has node)
    (step : Step)
    (known : node ∈ step.apply root nodes) :
    root.Has node := by
  cases step with
  | child test =>
    obtain ⟨start, start_mem, found⟩ := List.mem_flatMap.mp known
    exact ((mem_children_iff (has start start_mem)).mp (List.mem_filter.mp found).1).1
  | descendant test =>
    obtain ⟨start, start_mem, found⟩ := List.mem_flatMap.mp known
    exact ((has start start_mem).mem_descendants_iff.mp (List.mem_filter.mp found).1).1
  | self => exact has node known
  | parent => exact (mem_parents_iff.mp known).1
  | filter condition => exact has node (List.mem_filter.mp known).1

theorem has_of_mem_walk
    {steps : List Step}
    (known : node ∈ walk root steps) :
    root.Has node := by
  induction steps using List.reverseRecOn generalizing node with
  | nil =>
    cases List.mem_singleton.mp known
    rfl
  | append_singleton steps last ih =>
    rw [walk_append_singleton] at known
    exact has_of_mem_apply (fun _ => ih) last known

/-- How many levels below the start elements are at least behind a step. -/
def level (above : Nat) : Step → Nat
  | child _ => above + 1
  | descendant _ => above + 1
  | self => above
  | parent => above - 1
  | filter _ => above

/-- How many levels below the root a path ends at least. -/
def depth (steps : List Step) : Nat := steps.foldl level 0

theorem depth_append_singleton (steps : List Step) (last : Step) :
    depth (steps ++ [last]) = level (depth steps) last := by
  simp [depth]

theorem level_le_of_mem_apply
    (has : ∀ node ∈ nodes, root.Has node)
    {above : Nat}
    (deep : ∀ node ∈ nodes, above ≤ node.position.length)
    (step : Step)
    (known : node ∈ step.apply root nodes) :
    level above step ≤ node.position.length := by
  cases step with
  | child test =>
    obtain ⟨start, start_mem, found⟩ := List.mem_flatMap.mp known
    obtain ⟨-, index, below⟩ :=
      (mem_children_iff (has start start_mem)).mp (List.mem_filter.mp found).1
    rw [below]
    exact Nat.succ_le_succ (deep start start_mem)
  | descendant test =>
    obtain ⟨start, start_mem, found⟩ := List.mem_flatMap.mp known
    obtain ⟨-, isAbove⟩ := (has start start_mem).mem_descendants_iff.mp (List.mem_filter.mp found).1
    obtain ⟨lower, nonempty, below⟩ := Node.isAbove_iff.mp isAbove
    have startDeep := deep start start_mem
    have lowerPos := List.length_pos_of_ne_nil nonempty
    rw [level, below, List.length_append]
    omega
  | self => exact deep node known
  | parent =>
    obtain ⟨-, below, below_mem, index, same⟩ := mem_parents_iff.mp known
    have belowDeep := deep below below_mem
    rw [same, List.length_cons] at belowDeep
    exact Nat.sub_le_of_le_add belowDeep
  | filter condition => exact deep node (List.mem_filter.mp known).1

/-- A path ends at least as deep as its steps tell. -/
theorem depth_le_of_mem_walk
    {steps : List Step}
    (known : node ∈ walk root steps) :
    depth steps ≤ node.position.length := by
  induction steps using List.reverseRecOn generalizing node with
  | nil => exact Nat.zero_le _
  | append_singleton steps last ih =>
    rw [walk_append_singleton] at known
    rw [depth_append_singleton]
    exact level_le_of_mem_apply (fun _ => has_of_mem_walk) (fun _ => ih) last known

end Step
end Selector

namespace Document

open Selector

variable {document : Document} {nodes : List Node} {steps : List Selector.Step}

/-! ## The element above the root -/

/-- Whether the element above the root meets a condition: it has no attributes and no parent, and the
root is its only child. -/
def meetsAbove (document : Document) : Condition → Bool
  | .hasAttribute _ => false
  | .attribute _ _ _ => false
  | .hasChild test => test.holds document.root.tag
  | .content isEqual value => compare isEqual (Element.contentOf [document.root]) value
  | .childContent test isEqual value =>
    test.holds document.root.tag && compare isEqual document.root.content value
  | .position _ => false
  | .positionFromLast _ => false

theorem holds_top (document : Document) (condition : Condition) :
    condition.holds document.wrapper document.top = document.meetsAbove condition := by
  cases condition
  case hasChild test => exact Bool.or_false _
  case content isEqual value =>
    have content : document.wrapper.content = Element.contentOf [document.root] := by
      simp [wrapper, Element.content]
    simp only [Condition.holds, top, content, meetsAbove]
  case childContent test isEqual value => exact Bool.or_false _
  all_goals rfl

/-- Whether a step leads from the element above the root to this element. -/
def Stays (document : Document) : Selector.Step → Prop
  | .self => True
  | .filter condition => document.meetsAbove condition = true
  | _ => False

/-- Whether a path leads to the element above the root: nothing leads away from it behind the start, or
behind a step up from the root. -/
def LeadsAbove (document : Document) (steps : List Selector.Step) : Prop :=
  ∃ early late, steps = early ++ late ∧ (∀ step ∈ late, document.Stays step) ∧
    (early = [] ∨ ∃ before, early = before ++ [.parent] ∧
      ⟨[0], document.root⟩ ∈ Step.walk document.wrapper before)

theorem leadsAbove_nil (document : Document) : document.LeadsAbove [] :=
  ⟨[], [], rfl, by simp, .inl rfl⟩

theorem leadsAbove_append_singleton_iff {last : Selector.Step} :
    document.LeadsAbove (steps ++ [last]) ↔
      document.LeadsAbove steps ∧ document.Stays last ∨
        last = .parent ∧ ⟨[0], document.root⟩ ∈ Step.walk document.wrapper steps := by
  constructor
  · rintro ⟨early, late, same, stays, leads⟩
    rcases List.eq_nil_or_concat' late with rfl | ⟨late, step, rfl⟩
    · rw [List.append_nil] at same
      rcases leads with rfl | ⟨before, rfl, risen⟩
      · simp at same
      · obtain ⟨rfl, parent⟩ := List.append_inj' same rfl
        exact .inr ⟨List.singleton_inj.mp parent, risen⟩
    · rw [← List.append_assoc] at same
      obtain ⟨rfl, final⟩ := List.append_inj' same rfl
      cases final
      obtain ⟨stays, lastStays⟩ := List.forall_mem_append.mp stays
      exact .inl ⟨⟨early, late, rfl, stays, leads⟩, lastStays _ (List.mem_singleton_self _)⟩
  · rintro (⟨⟨early, late, rfl, stays, leads⟩, lastStays⟩ | ⟨rfl, risen⟩)
    · exact ⟨early, late ++ [last], List.append_assoc _ _ _,
        List.forall_mem_append.mpr ⟨stays, by simpa using lastStays⟩, leads⟩
    · exact ⟨steps ++ [.parent], [], (List.append_nil _).symm, by simp, .inr ⟨steps, rfl, risen⟩⟩

/-- A step leads to the element above the root from this element, or up from the root. -/
theorem top_mem_apply_iff
    (has : ∀ node ∈ nodes, document.wrapper.Has node)
    (step : Selector.Step) :
    document.top ∈ step.apply document.wrapper nodes ↔
      document.top ∈ nodes ∧ document.Stays step ∨
        step = .parent ∧ ⟨[0], document.root⟩ ∈ nodes := by
  cases step with
  | child test =>
    refine iff_of_false (fun known => ?_) (by simp [Stays])
    obtain ⟨start, start_mem, found⟩ := List.mem_flatMap.mp known
    obtain ⟨-, index, below⟩ :=
      (mem_children_iff (has start start_mem)).mp (List.mem_filter.mp found).1
    exact List.cons_ne_nil _ _ below.symm
  | descendant test =>
    refine iff_of_false (fun known => ?_) (by simp [Stays])
    obtain ⟨start, start_mem, found⟩ := List.mem_flatMap.mp known
    obtain ⟨-, isAbove⟩ := (has start start_mem).mem_descendants_iff.mp (List.mem_filter.mp found).1
    exact isAbove.2 (List.suffix_nil.mp isAbove.1)
  | self => simp [Stays]
  | parent =>
    rw [Step.apply, mem_parents_iff]
    simp only [Stays, and_false, false_or, true_and]
    constructor
    · rintro ⟨-, below, below_mem, index, same⟩
      have known := has below below_mem
      rw [Element.Has, same] at known
      obtain ⟨bound, -⟩ := List.getElem?_eq_some_iff.mp known
      cases Nat.lt_one_iff.mp bound
      have isRoot := (has below below_mem).eq_of_position
        (show document.wrapper.Has ⟨[0], document.root⟩ from rfl) same
      rwa [← isRoot]
    · intro known
      exact ⟨document.has_top, _, known, 0, rfl⟩
  | filter condition =>
    rw [Step.apply, List.mem_filter, holds_top]
    simp [Stays]

theorem top_mem_walk_iff :
    document.top ∈ Step.walk document.wrapper steps ↔ document.LeadsAbove steps := by
  induction steps using List.reverseRecOn with
  | nil => exact iff_of_true (List.mem_singleton_self _) document.leadsAbove_nil
  | append_singleton steps last ih =>
    rw [Step.walk_append_singleton, top_mem_apply_iff (fun _ => Step.has_of_mem_walk), ih,
      leadsAbove_append_singleton_iff]

theorem mem_placed_or_eq_top
    {node : Node}
    (has : document.wrapper.Has node) :
    node ∈ document.placed ∨ node = document.top := by
  by_cases above : node.position = []
  · exact .inr (has.eq_of_position document.has_top above)
  · refine .inl (mem_placed_iff.mpr ⟨has, List.nil_suffix, fun same => above same.symm⟩)

/-- A selector selects elements of the document, and the element above the root just if its path leads
there.  A path with more steps down than up behind every step selects elements of the document only. -/
theorem select_inside
    {selector : String}
    (selected : document.select selector = .ok nodes) :
    (∀ node ∈ nodes, node ∈ document.placed ∨ node = document.top) ∧
      document.top ∉ document.placed ∧
      ∃ steps, Path.read (pathText selector.toList) = .ok steps ∧
        (document.top ∈ nodes ↔ document.LeadsAbove steps) ∧
        (0 < Step.depth steps → ∀ node ∈ nodes, node ∈ document.placed) := by
  rw [select] at selected
  cases read : Path.read (pathText selector.toList) with
  | error fault =>
    rw [read] at selected
    contradiction
  | ok steps =>
    rw [read] at selected
    cases selected
    have inside := fun node (known : node ∈ Step.walk document.wrapper steps) =>
      mem_placed_or_eq_top (Step.has_of_mem_walk known)
    refine ⟨inside, fun held => ?_, steps, rfl, top_mem_walk_iff, fun deep node known => ?_⟩
    · exact absurd (mem_placed_iff.mp held).2.precedes (irrefl _)
    · refine (inside node known).resolve_right ?_
      rintro rfl
      exact absurd (Step.depth_le_of_mem_walk known) (Nat.not_le_of_lt deep)

theorem select_inside_of_nested :
    ∃ nodes, nested.select "./a/*/.." = .ok nodes ∧ nodes.map (·.position) = [[0]] ∧
      ∀ node ∈ nodes, node ∈ nested.placed := by
  have read : Path.read (pathText "./a/*/..".toList) =
      .ok [.self, .child (.named "a"), .child .any, .parent] := by decide
  have selected : nested.select "./a/*/.." =
      .ok (Step.walk nested.wrapper [.self, .child (.named "a"), .child .any, .parent]) := by
    rw [select, read]
  refine ⟨_, selected, by decide, ?_⟩
  obtain ⟨-, -, steps, known, -, inside⟩ := select_inside selected
  rw [read] at known
  cases known
  exact inside (by decide)

/-- A document of one element. -/
def single : Document where
  file? := none
  root := ⟨"a", [], none, none, []⟩
  source := "<a/>"

theorem read_single : Document.read "<a/>" none = .ok single := by
  have wellFormed : Xml.read "<a/>".toList = .ok [.start ⟨none, "a"⟩ [], .finish] := by decide
  exact read_eq_ok wellFormed rfl none

/-- A path that leads down to the root and up again leads out of the document. -/
theorem selected_above_of_single :
    Document.read "<a/>" none = .ok single ∧
      single.select "./a/.." = .ok [single.top] ∧ single.top ∉ single.placed := by
  have read : Path.read (pathText "./a/..".toList) =
      .ok [.self, .child (.named "a"), .parent] := by decide
  refine ⟨read_single, ?_, ?_⟩
  · rw [select, read]
    rfl
  · rintro (_ | ⟨_, _ | _⟩)

end Document
end MarkupLint
