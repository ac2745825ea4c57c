import Mathlib.Data.Set.Card
import MarkupLint.Proofs.Selector.Selection

/-!
# How often a chain of names selects an element

A chain of names and stars selects an element once for each sequence of nested elements that ends at
it and whose names the chain matches in turn.  What is above the root is on no such sequence.
-/

namespace MarkupLint
namespace Document

open Selector

variable {document : Document} {tests : List NameTest}

/-- The routes of a chain of tests that end at an element. -/
def routesTo (document : Document) (tests : List NameTest) (node : Node) : Set (List Node) :=
  {route | document.IsRoute tests route ∧ route.getLast? = some node}

theorem encard_eq_length
    {alpha : Type}
    {values : List alpha}
    (nodup : values.Nodup)
    {set : Set alpha}
    (same : ∀ value, value ∈ values ↔ value ∈ set) :
    set.encard = values.length := by
  have held : set = ((⟨values, nodup⟩ : Finset alpha) : Set alpha) := by
    ext value
    exact (same value).symm
  rw [held, Set.encard_coe_eq_coe_finsetCard]
  rfl

theorem mem_routesBelow_top_iff {route : List Node} :
    route ∈ routesBelow document.top tests ↔ document.IsRoute tests route := by
  rw [mem_routesBelow_iff document.has_top, isRoute_iff]

theorem length_reached (document : Document) (tests : List NameTest) :
    ((document.reached tests).length : ℕ∞) = {route | document.IsRoute tests route}.encard := by
  have routes : Set.encard {route | document.IsRoute tests route} =
      (routesBelow document.top tests).length :=
    encard_eq_length (nodup_routesBelow document.top tests) fun _ => mem_routesBelow_top_iff
  rw [reached, List.length_map, routes]

/-- A route ends at the element at a position just if it ends at this element. -/
theorem getLastD_position_eq_iff
    (nonempty : tests ≠ [])
    {node : Node}
    (held : node ∈ document.placed)
    {route : List Node}
    (isRoute : document.IsRoute tests route) :
    (route.getLastD document.top).position = node.position ↔ route.getLast? = some node := by
  obtain ⟨earlier, last, rfl⟩ := exists_of_isRoute isRoute nonempty
  rw [List.getLastD_concat, List.getLast?_concat, Option.some_inj]
  refine ⟨fun same => ?_, fun same => congrArg _ same⟩
  have lastHeld := isRoute.placed last (List.mem_append_right earlier (List.mem_singleton_self last))
  exact (mem_placed_iff.mp lastHeld).1.eq_of_position (mem_placed_iff.mp held).1 same

theorem count_reached
    (nonempty : tests ≠ [])
    {node : Node}
    (held : node ∈ document.placed) :
    (((document.reached tests).map (·.position)).count node.position : ℕ∞) =
      (document.routesTo tests node).encard := by
  let ends := fun route : List Node => (route.getLastD document.top).position == node.position
  have count_eq : ((document.reached tests).map (·.position)).count node.position =
      ((routesBelow document.top tests).filter ends).length := by
    rw [List.count, reached, List.map_map, List.countP_map, List.countP_eq_length_filter]
    rfl
  rw [count_eq, encard_eq_length ((nodup_routesBelow document.top tests).filter ends)]
  intro route
  rw [List.mem_filter, mem_routesBelow_top_iff, routesTo, Set.mem_ofPred_eq]
  exact and_congr_right fun isRoute =>
    beq_iff_eq.trans (getLastD_position_eq_iff nonempty held isRoute)

/-- A single test leads to the elements that pass it, in document order. -/
theorem reached_singleton (document : Document) (test : NameTest) :
    document.reached [test] = document.placed.filter fun node => test.holds node.element.tag := by
  have single : ∀ nodes : List Node,
      (nodes.flatMap fun node => [[node]]).map (·.getLastD document.top) = nodes := by
    intro nodes
    induction nodes with
    | nil => rfl
    | cons node rest ih => exact congrArg (node :: ·) ih
  rw [placed_eq]
  exact single (document.top.descendants.filter _)

theorem top_notMem_placed (document : Document) : document.top ∉ document.placed := by
  intro held
  exact absurd (mem_placed_iff.mp held).2.precedes (irrefl _)

/-- What a selector whose words are names and stars selects: each element as often as there are
sequences of nested elements that end at it and match the words in turn.  So an element is selected if
and only if the chain matches it, what is above the root is not selected, and a single word selects the
elements that it matches in document order.  There is room for the words as for steps of a path
(`Document.select`). -/
theorem select_chain_count
    {document : Document}
    {selector : String}
    (steps : ∀ word ∈ Text.words selector.toList, isStep word = true)
    (nonempty : Text.words selector.toList ≠ []) :
    ∃ nodes, document.select selector = .ok nodes ∧
      (∀ node ∈ document.placed, ((nodes.map (·.position)).count node.position : ℕ∞) =
        (document.routesTo (chain selector) node).encard) ∧
      (∀ node, node ∈ nodes ↔ (document.routesTo (chain selector) node).Nonempty) ∧
      (∀ node ∈ nodes, node ∈ document.placed) ∧ document.top ∉ nodes ∧
      (nodes.length : ℕ∞) = {route | document.IsRoute (chain selector) route}.encard ∧
      ∀ test, chain selector = [test] →
        nodes = document.placed.filter fun node => test.holds node.element.tag := by
  have tests : chain selector ≠ [] := by simpa [chain] using nonempty
  have inside : ∀ node ∈ document.reached (chain selector), node ∈ document.placed :=
    fun node known => reached_subset tests known
  refine ⟨_, select_of_steps steps nonempty, fun node held => count_reached tests held,
    fun node => ?_, inside, fun known => document.top_notMem_placed (inside _ known),
    document.length_reached _, fun test single => ?_⟩
  · rw [mem_reached_iff tests]
    constructor
    · rintro ⟨route, isRoute⟩
      exact ⟨route ++ [node], isRoute, List.getLast?_concat⟩
    · rintro ⟨route, isRoute, last⟩
      obtain ⟨earlier, rfl⟩ := List.getLast?_eq_some_iff.mp last
      exact ⟨earlier, isRoute⟩
  · rw [single]
    exact document.reached_singleton test

/-- The only element named `b` is inside two elements named `a`, so that it is selected twice. -/
theorem select_chain_count_of_nested :
    (∀ word ∈ Text.words "a *".toList, isStep word = true) ∧ Text.words "a *".toList ≠ [] ∧
      ∃ nodes, nested.select "a *" = .ok nodes ∧ nodes.length = 4 ∧
        (nodes.map (·.position)).count [0, 0, 0] = 2 ∧
        (nested.routesTo (chain "a *") ⟨[0, 0, 0], ⟨"b", [], none, none, []⟩⟩).encard = 2 := by
  have steps : ∀ word ∈ Text.words "a *".toList, isStep word = true := by decide
  have nonempty : Text.words "a *".toList ≠ [] := by decide
  obtain ⟨nodes, selected, counted, -⟩ := @select_chain_count nested "a *" steps nonempty
  have positions : (nested.select "a *").map (fun nodes => nodes.map (·.position)) =
      .ok [[0, 0], [0, 0, 0], [1, 0], [0, 0, 0]] := by decide
  rw [selected] at positions
  have known : nodes.map (·.position) = [[0, 0], [0, 0, 0], [1, 0], [0, 0, 0]] :=
    Except.ok.inj positions
  have held : (⟨[0, 0, 0], ⟨"b", [], none, none, []⟩⟩ : Node) ∈ nested.placed :=
    .tail _ (.tail _ (.head _))
  have count : (nodes.map (·.position)).count [0, 0, 0] = 2 := by
    rw [known]
    rfl
  refine ⟨steps, nonempty, nodes, selected, ?_, count, ?_⟩
  · rw [← List.length_map (·.position), known]
    rfl
  · rw [← counted _ held, count]
    rfl

end Document
end MarkupLint
