import Mathlib.Data.List.Nodup
import Mathlib.Data.List.Sort
import MarkupLint.Proofs.Element
import MarkupLint.Selector.Select

/-!
# Routes through a tree

A chain of descendant steps leads to an element once along each route: each sequence of elements that
pass the tests in turn, each an ancestor of the next one.  Repetitions aside, the elements are found
in document order.
-/

namespace MarkupLint
namespace Selector

/-- Elements of a tree below an element, each an ancestor of the next one, whose names pass the tests
in turn. -/
structure IsRouteBelow
    (root : Element)
    (start : Node)
    (tests : List NameTest)
    (route : List Node) : Prop where
  has : ∀ node ∈ route, root.Has node
  isChain : (start :: route).IsChain Node.IsAbove
  holds : List.Forall₂ (fun test node => test.holds node.element.tag = true) tests route

/-- The elements below an element whose names pass the test, in document order. -/
def found (test : NameTest) (start : Node) : List Node :=
  start.descendants.filter fun node => test.holds node.element.tag

/-- The routes below an element, in the order in which they are found. -/
def routesBelow (start : Node) : List NameTest → List (List Node)
  | [] => [[]]
  | test :: rest =>
    (found test start).flatMap fun node => (routesBelow node rest).map (node :: ·)

section

variable {root : Element} {start node : Node} {test : NameTest} {tests : List NameTest}

theorem mem_found_iff (has : root.Has start) :
    node ∈ found test start ↔
      root.Has node ∧ start.IsAbove node ∧ test.holds node.element.tag = true := by
  rw [found, List.mem_filter, has.mem_descendants_iff, and_assoc]

theorem pairwise_found (test : NameTest) (start : Node) :
    (found test start).Pairwise Node.Precedes :=
  start.pairwise_descendants.filter _

theorem mem_routesBelow_iff
    {route : List Node}
    (has : root.Has start) :
    route ∈ routesBelow start tests ↔ IsRouteBelow root start tests route := by
  induction tests generalizing start route with
  | nil =>
    rw [routesBelow, List.mem_singleton]
    constructor
    · rintro rfl
      exact ⟨by simp, .singleton _, .nil⟩
    · rintro ⟨-, -, holds⟩
      exact List.forall₂_nil_left_iff.mp holds
  | cons test rest ih =>
    simp only [routesBelow, List.mem_flatMap, List.mem_map, mem_found_iff has]
    constructor
    · rintro ⟨node, ⟨known, isAbove, passes⟩, others, others_mem, rfl⟩
      obtain ⟨hasOthers, isChain, holds⟩ := (ih known).mp others_mem
      exact ⟨List.forall_mem_cons.mpr ⟨known, hasOthers⟩, .cons_cons isAbove isChain,
        .cons passes holds⟩
    · rintro ⟨hasAll, isChain, holds⟩
      obtain ⟨node, others, passes, left, rfl⟩ := List.forall₂_cons_left_iff.mp holds
      obtain ⟨known, hasOthers⟩ := List.forall_mem_cons.mp hasAll
      obtain ⟨isAbove, isChain⟩ := List.isChain_cons_cons.mp isChain
      exact ⟨node, ⟨known, isAbove, passes⟩, others, (ih known).mpr ⟨hasOthers, isChain, left⟩, rfl⟩

/-- Every route is found once. -/
theorem nodup_routesBelow (start : Node) (tests : List NameTest) : (routesBelow start tests).Nodup := by
  induction tests generalizing start with
  | nil => exact List.nodup_singleton []
  | cons test rest ih =>
    rw [routesBelow, List.nodup_flatMap]
    refine ⟨fun node _ => (ih node).map (List.cons_injective), ?_⟩
    refine (pairwise_found test start).imp fun {first second} precedes route own foreign => ?_
    obtain ⟨others, -, rfl⟩ := List.mem_map.mp own
    obtain ⟨_, -, same⟩ := List.mem_map.mp foreign
    cases same
    exact irrefl _ precedes

/-- Descendant steps lead from elements to the last elements of the routes below them. -/
theorem foldl_descendant (root : Element) (tests : List NameTest) (nodes : List Node) :
    (tests.map Step.descendant).foldl (fun nodes step => step.apply root nodes) nodes =
      nodes.flatMap fun start => (routesBelow start tests).map (·.getLastD start) := by
  induction tests generalizing nodes with
  | nil => simp [routesBelow]
  | cons test rest ih =>
    rw [List.map_cons, List.foldl_cons, ih]
    simp only [Step.apply, routesBelow, List.flatMap_assoc, List.map_flatMap, List.map_map,
      Function.comp_def, List.getLastD_cons]
    rfl

end

/-- Whether every element comes behind all those of the list that precede it in document order. -/
def InOrder (nodes : List Node) : Prop :=
  ∀ before node after, nodes = before ++ node :: after →
    ∀ other ∈ nodes, other.Precedes node → other ∈ before

namespace InOrder

variable {root : Element} {nodes : List Node}

theorem singleton (node : Node) : InOrder [node] := by
  rintro before other after same another another_mem precedes
  obtain ⟨rfl, rfl, rfl⟩ : before = [] ∧ other = node ∧ after = [] := by
    cases before with
    | nil => simpa [eq_comm] using same
    | cons first rest => simp at same
  rw [List.mem_singleton] at another_mem
  subst another_mem
  exact absurd precedes (irrefl _)

theorem filter (inOrder : InOrder nodes) (keep : Node → Bool) : InOrder (nodes.filter keep) := by
  intro before node after same other other_mem precedes
  obtain ⟨front, back, rfl, rfl, back_eq⟩ := List.filter_eq_append_iff.mp same
  obtain ⟨dropped, behind, rfl, none, -, -⟩ := List.filter_eq_cons_iff.mp back_eq
  obtain ⟨known, kept⟩ := List.mem_filter.mp other_mem
  have early := inOrder (front ++ dropped) node behind (by simp) other known precedes
  rcases List.mem_append.mp early with inFront | isDropped
  · exact List.mem_filter.mpr ⟨inFront, kept⟩
  · exact absurd kept (none other isDropped)

/-- Nothing precedes the first element. -/
theorem precedes_of_cons
    {first node : Node}
    {rest : List Node}
    (inOrder : InOrder (first :: rest))
    (known : node ∈ rest)
    (different : node.position ≠ first.position) :
    first.Precedes node := by
  rcases Position.precedes_trichotomy first.position node.position with early | same | late
  · exact early
  · exact absurd same.symm different
  · have before := inOrder [] first rest rfl node (List.mem_cons_of_mem first known) late
    exact absurd before (List.not_mem_nil)

/-- Repetitions aside, the positions are in document order. -/
theorem pairwise_eraseDups (inOrder : InOrder nodes) :
    (nodes.map (·.position)).eraseDups.Pairwise Position.Precedes := by
  induction length : nodes.length using Nat.strong_induction_on generalizing nodes with
  | h length ih =>
    cases nodes with
    | nil => exact .nil
    | cons first rest =>
      have rest_eq : (rest.map (·.position)).filter (fun position => !position == first.position) =
          ((first :: rest).filter fun node => !node.position == first.position).map (·.position) := by
        rw [List.filter_cons_of_neg (by simp), List.filter_map]
        rfl
      rw [List.map_cons, List.eraseDups_cons, List.pairwise_cons, rest_eq]
      refine ⟨fun position known => ?_, ih _ ?_ (inOrder.filter _) rfl⟩
      · rw [List.mem_eraseDups] at known
        obtain ⟨node, node_mem, rfl⟩ := List.mem_map.mp known
        obtain ⟨known, different⟩ := List.mem_filter.mp node_mem
        have other : node.position ≠ first.position := by simpa using different
        have behind := (List.mem_cons.mp known).resolve_left fun same => other (same ▸ rfl)
        exact inOrder.precedes_of_cons behind other
      · rw [← length, List.filter_cons_of_neg (by simp), List.length_cons]
        exact Nat.lt_succ_of_le (List.length_filter_le _ _)

/-- Elements at different positions are in document order. -/
theorem pairwise
    (inOrder : InOrder nodes)
    (different : (nodes.map (·.position)).Nodup) :
    nodes.Pairwise Node.Precedes := by
  induction nodes with
  | nil => exact .nil
  | cons first rest ih =>
    rw [List.map_cons, List.nodup_cons] at different
    obtain ⟨fresh, different⟩ := different
    have other : ∀ node ∈ rest, node.position ≠ first.position := by
      intro node known same
      exact fresh (List.mem_map.mpr ⟨node, known, same⟩)
    have tail : InOrder rest := by
      have filtered := inOrder.filter fun node => !node.position == first.position
      rwa [List.filter_cons_of_neg (by simp), List.filter_eq_self.mpr (by simpa using other)]
        at filtered
    exact List.pairwise_cons.mpr
      ⟨fun node known => inOrder.precedes_of_cons known (other node known), ih tail different⟩

/-- A list made of pieces, split at an element: it is split inside the piece of some element. -/
theorem exists_split_of_flatMap
    {pieces : Node → List Node}
    {before after : List Node}
    {node : Node}
    (same : nodes.flatMap pieces = before ++ node :: after) :
    ∃ front start back inside behind, nodes = front ++ start :: back ∧
      pieces start = inside ++ node :: behind ∧ before = front.flatMap pieces ++ inside := by
  induction nodes generalizing before with
  | nil => simp at same
  | cons first rest ih =>
    rw [List.flatMap_cons, List.append_eq_append_iff] at same
    rcases same with ⟨later, rfl, rest_eq⟩ | ⟨later, first_eq, rest_eq⟩
    · obtain ⟨front, start, back, inside, behind, rfl, start_eq, rfl⟩ := ih rest_eq
      exact ⟨first :: front, start, back, inside, behind, rfl, start_eq, by simp⟩
    · cases later with
      | nil =>
        rw [List.append_nil] at first_eq
        obtain ⟨front, start, back, inside, behind, rfl, start_eq, before_eq⟩ :=
          @ih [] (by simpa using rest_eq.symm)
        refine ⟨first :: front, start, back, inside, behind, rfl, start_eq, ?_⟩
        rw [List.flatMap_cons, List.append_assoc, ← before_eq, List.append_nil, first_eq]
      | cons next later =>
        obtain ⟨rfl, -⟩ := List.cons.inj rest_eq
        exact ⟨[], first, rest, before, later, rfl, first_eq, by simp⟩

/-- A descendant step keeps the order. -/
theorem flatMap_found
    (inOrder : InOrder nodes)
    (has : ∀ node ∈ nodes, root.Has node)
    (test : NameTest) :
    InOrder (nodes.flatMap (found test)) := by
  intro before node after same other other_mem precedes
  obtain ⟨front, start, back, inside, behind, rfl, start_eq, rfl⟩ := exists_split_of_flatMap same
  obtain ⟨ancestor, ancestor_mem, below⟩ := List.mem_flatMap.mp other_mem
  have startHas := has start (by simp)
  obtain ⟨otherHas, isAbove, passes⟩ := (mem_found_iff (has ancestor ancestor_mem)).mp below
  have startAbove := ((mem_found_iff startHas).mp
    (start_eq ▸ List.mem_append_right inside List.mem_cons_self)).2.1
  by_cases within : start.IsAbove other
  · -- The other element is found on the same walk, which is in document order.
    have walked := (mem_found_iff startHas).mpr ⟨otherHas, within, passes⟩
    have sorted := pairwise_found test start
    rw [start_eq] at walked sorted
    rcases List.mem_append.mp walked with inInside | later
    · exact List.mem_append_right _ inInside
    · rcases List.mem_cons.mp later with rfl | later
      · exact absurd precedes (irrefl _)
      · have behindNode := List.rel_of_pairwise_cons (List.pairwise_append.mp sorted).2.1 later
        exact absurd (behindNode.trans precedes) (irrefl _)
  · -- It is found below an element before the start, which has been walked through already.
    have early : ancestor.Precedes start := by
      rcases Position.precedes_trichotomy ancestor.position start.position with early | same | late
      · exact early
      · rw [(has ancestor ancestor_mem).eq_of_position startHas same] at isAbove
        exact absurd isAbove within
      · refine absurd (startAbove.of_between ?_ precedes) within
        exact Node.Precedes.trans late isAbove.precedes
    have walked := inOrder front start back rfl ancestor ancestor_mem early
    exact List.mem_append_left _ (List.mem_flatMap.mpr ⟨ancestor, walked, below⟩)

/-- Descendant steps keep the order. -/
theorem foldl_descendant
    (inOrder : InOrder nodes)
    (has : ∀ node ∈ nodes, root.Has node)
    (tests : List NameTest) :
    let last := (tests.map Step.descendant).foldl (fun nodes step => step.apply root nodes) nodes
    InOrder last ∧ ∀ node ∈ last, root.Has node := by
  induction tests generalizing nodes with
  | nil => exact ⟨inOrder, has⟩
  | cons test rest ih =>
    refine ih (inOrder.flatMap_found has test) fun node known => ?_
    obtain ⟨start, start_mem, below⟩ := List.mem_flatMap.mp known
    exact ((mem_found_iff (has start start_mem)).mp below).1

end InOrder
end Selector
end MarkupLint
