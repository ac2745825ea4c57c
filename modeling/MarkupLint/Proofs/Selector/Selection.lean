import Mathlib.Data.List.Chain
import MarkupLint.Proofs.Selector.Chain
import MarkupLint.Proofs.Selector.Route

/-!
# What a chain of names selects

A chain of names and stars selects an element once for each way in which it is matched by the chain.
So an element that is matched in several ways is selected several times.
-/

namespace MarkupLint
namespace Document

open Selector

/-- The elements of a document in document order, at their positions below the element above the
root. -/
def placed (document : Document) : List Node :=
  document.nodes.map fun node => ⟨node.position ++ [0], node.element⟩

/-- Elements of a document, each a proper ancestor of the next one, whose names pass the tests in
turn. -/
structure IsRoute (document : Document) (tests : List NameTest) (route : List Node) : Prop where
  placed : ∀ node ∈ route, node ∈ document.placed
  isChain : route.IsChain Node.IsAbove
  holds : List.Forall₂ (fun test node => test.holds node.element.tag = true) tests route

/-- The element above the root with its position. -/
def top (document : Document) : Node := ⟨[], document.wrapper⟩

variable {document : Document} {tests : List NameTest} {node : Node}

theorem has_top (document : Document) : document.wrapper.Has document.top := rfl

theorem placed_eq (document : Document) : document.placed = document.top.descendants := by
  have same := Element.nodesAt_append [] [0] document.root
  rw [List.nil_append] at same
  rw [placed, nodes, Element.nodes, ← same]
  simp [top, Node.descendants, wrapper, Element.nodesOf]

theorem mem_placed_iff :
    node ∈ document.placed ↔ document.wrapper.Has node ∧ document.top.IsAbove node := by
  rw [placed_eq, document.has_top.mem_descendants_iff]

theorem pairwise_placed (document : Document) : document.placed.Pairwise Node.Precedes := by
  rw [placed_eq]
  exact document.top.pairwise_descendants

theorem isRoute_iff {route : List Node} :
    document.IsRoute tests route ↔ IsRouteBelow document.wrapper document.top tests route := by
  constructor
  · rintro ⟨placed, isChain, holds⟩
    refine ⟨fun node known => (mem_placed_iff.mp (placed node known)).1, ?_, holds⟩
    refine List.isChain_cons.mpr ⟨fun first head => ?_, isChain⟩
    exact (mem_placed_iff.mp (placed first (List.mem_of_head? head))).2
  · rintro ⟨has, isChain, holds⟩
    have isAbove := List.isChain_iff_pairwise.mp isChain
    refine ⟨fun node known => mem_placed_iff.mpr ⟨has node known, ?_⟩, isChain.tail, holds⟩
    exact List.rel_of_pairwise_cons isAbove known

/-- Routes of a chain end at some element. -/
theorem exists_of_isRoute
    {route : List Node}
    (isRoute : document.IsRoute tests route)
    (nonempty : tests ≠ []) :
    ∃ earlier last, route = earlier ++ [last] := by
  refine (List.eq_nil_or_concat' route).resolve_left ?_
  rintro rfl
  exact nonempty (List.forall₂_nil_right_iff.mp isRoute.holds)

/-- The elements that a chain leads to, once for each route. -/
def reached (document : Document) (tests : List NameTest) : List Node :=
  (routesBelow document.top tests).map (·.getLastD document.top)

theorem mem_reached_iff (nonempty : tests ≠ []) :
    node ∈ document.reached tests ↔ ∃ route, document.IsRoute tests (route ++ [node]) := by
  simp only [reached, List.mem_map, mem_routesBelow_iff document.has_top, ← isRoute_iff]
  constructor
  · rintro ⟨route, isRoute, rfl⟩
    obtain ⟨earlier, last, rfl⟩ := exists_of_isRoute isRoute nonempty
    rw [List.getLastD_concat]
    exact ⟨earlier, isRoute⟩
  · rintro ⟨route, isRoute⟩
    exact ⟨route ++ [node], isRoute, List.getLastD_concat⟩

/-- An element is reached once if just one route leads to it. -/
theorem nodup_reached_iff (nonempty : tests ≠ []) :
    (document.reached tests).Nodup ↔
      ∀ node ∈ document.reached tests, ∃! route, document.IsRoute tests (route ++ [node]) := by
  rw [reached, List.nodup_map_iff_inj_on (nodup_routesBelow document.top tests), ← reached]
  simp only [mem_routesBelow_iff document.has_top, ← isRoute_iff]
  constructor
  · intro injective node known
    obtain ⟨route, isRoute⟩ := (mem_reached_iff nonempty).mp known
    refine ⟨route, isRoute, fun other otherRoute => ?_⟩
    have same := injective _ otherRoute _ isRoute (by rw [List.getLastD_concat, List.getLastD_concat])
    exact List.append_cancel_right same
  · intro unique route isRoute other otherRoute same
    obtain ⟨earlier, last, rfl⟩ := exists_of_isRoute isRoute nonempty
    obtain ⟨others, _, rfl⟩ := exists_of_isRoute otherRoute nonempty
    rw [List.getLastD_concat, List.getLastD_concat] at same
    subst same
    have known := (mem_reached_iff nonempty).mpr ⟨earlier, isRoute⟩
    rw [(unique last known).unique isRoute otherRoute]

theorem foldl_top (document : Document) (tests : List NameTest) :
    (tests.map Step.descendant).foldl (fun nodes step => step.apply document.wrapper nodes)
      [document.top] = document.reached tests := by
  rw [Selector.foldl_descendant, List.flatMap_singleton, reached]

theorem inOrder_reached (document : Document) (tests : List NameTest) :
    InOrder (document.reached tests) := by
  rw [← foldl_top]
  exact ((InOrder.singleton document.top).foldl_descendant (by simp [has_top]) tests).1

theorem has_reached (known : node ∈ document.reached tests) : document.wrapper.Has node := by
  rw [← foldl_top] at known
  exact ((InOrder.singleton document.top).foldl_descendant (by simp [has_top]) tests).2 node known

theorem reached_subset (nonempty : tests ≠ []) : document.reached tests ⊆ document.placed := by
  intro node known
  obtain ⟨route, isRoute⟩ := (mem_reached_iff nonempty).mp known
  exact isRoute.placed node (List.mem_append_right route (List.mem_singleton_self node))

/-- Repetitions aside, elements are reached in document order. -/
theorem eraseDups_reached_sublist (nonempty : tests ≠ []) :
    ((document.reached tests).map (·.position)).eraseDups.Sublist
      (document.placed.map (·.position)) := by
  have sorted := (document.inOrder_reached tests).pairwise_eraseDups
  refine List.sublist_of_subperm_of_pairwise (List.subperm_of_subset sorted.nodup ?_) sorted
    (List.pairwise_map.mpr document.pairwise_placed)
  intro position known
  obtain ⟨node, reached, rfl⟩ := List.mem_map.mp (List.mem_eraseDups.mp known)
  exact List.mem_map_of_mem (reached_subset nonempty reached)

/-- If no element is reached twice, elements are reached in document order. -/
theorem reached_sublist_iff (nonempty : tests ≠ []) :
    (document.reached tests).Sublist document.placed ↔ (document.reached tests).Nodup := by
  refine ⟨fun sublist => document.pairwise_placed.nodup.sublist sublist, fun nodup => ?_⟩
  have different : ((document.reached tests).map (·.position)).Nodup :=
    (List.nodup_map_iff_inj_on nodup).mpr fun first own second foreign same =>
      (has_reached own).eq_of_position (has_reached foreign) same
  exact List.sublist_of_subperm_of_pairwise
    (List.subperm_of_subset nodup (reached_subset nonempty))
    ((document.inOrder_reached tests).pairwise different) document.pairwise_placed

/-- Whether no element of the document that passes the test is inside another one. -/
def Unnested (document : Document) (test : NameTest) : Prop :=
  ∀ upper ∈ document.placed, ∀ lower ∈ document.placed,
    test.holds upper.element.tag = true → test.holds lower.element.tag = true →
      ¬ upper.IsAbove lower

namespace IsRoute

variable {test : NameTest} {first : Node} {route other : List Node}

theorem of_cons (isRoute : document.IsRoute (test :: tests) (first :: route)) :
    first ∈ document.placed ∧ test.holds first.element.tag = true ∧
      (∀ node ∈ route, first.IsAbove node) ∧ document.IsRoute tests route := by
  obtain ⟨placed, isChain, holds⟩ := isRoute
  obtain ⟨firstPlaced, placed⟩ := List.forall_mem_cons.mp placed
  obtain ⟨passes, holds⟩ := List.forall₂_cons.mp holds
  have isAbove := List.isChain_iff_pairwise.mp isChain
  exact ⟨firstPlaced, passes, fun _ known => List.rel_of_pairwise_cons isAbove known, placed,
    isChain.tail, holds⟩

/-- If the elements that pass a test are never nested, except for the last test, just one route leads
to an element. -/
theorem unique_of_unnested
    (unnested : ∀ test ∈ tests.dropLast, document.Unnested test)
    (isRoute : document.IsRoute tests (route ++ [node]))
    (otherRoute : document.IsRoute tests (other ++ [node])) :
    route = other := by
  induction tests generalizing route other with
  | nil => exact absurd isRoute.holds.length_eq (by simp)
  | cons test rest ih =>
    have length_eq := isRoute.holds.length_eq.symm.trans otherRoute.holds.length_eq
    simp only [List.length_append, List.length_singleton, Nat.add_right_cancel_iff] at length_eq
    cases route with
    | nil => exact (List.length_eq_zero_iff.mp length_eq.symm).symm
    | cons first route =>
      cases other with
      | nil => contradiction
      | cons second other =>
        obtain ⟨placed, passes, isAbove, isRoute⟩ := isRoute.of_cons
        obtain ⟨otherPlaced, otherPasses, otherAbove, otherRoute⟩ := otherRoute.of_cons
        have more : rest ≠ [] := by
          rintro rfl
          exact absurd isRoute.holds.length_eq (by simp)
        rw [List.dropLast_cons_of_ne_nil more] at unnested
        obtain ⟨apart, unnested⟩ := List.forall_mem_cons.mp unnested
        have same : first.position = second.position := by
          rcases (isAbove node (by simp)).comparable (otherAbove node (by simp)) with
            upper | same | lower
          · exact absurd upper (apart first placed second otherPlaced passes otherPasses)
          · exact same
          · exact absurd lower (apart second otherPlaced first placed otherPasses passes)
        have equal := (mem_placed_iff.mp placed).1.eq_of_position (mem_placed_iff.mp otherPlaced).1 same
        rw [equal, ih unnested isRoute otherRoute]

end IsRoute

/-- A chain of names and stars selects what it leads to. -/
theorem select_of_steps
    {selector : String}
    (steps : ∀ word ∈ Text.words selector.toList, isStep word = true)
    (nonempty : Text.words selector.toList ≠ []) :
    document.select selector = .ok (document.reached (chain selector)) := by
  rw [select, read_of_steps steps nonempty, ← foldl_top, chain, List.map_map]
  rfl

/-- What a selector selects whose words are names and stars (`isStep_of_isNameStart`: each name without
a prefix is such a word): the elements of the document that the chain matches, and nothing else.
Repetitions aside, they are selected in document order.  Each of them
is selected just once, so that all are in document order, if and only if each is matched in just one
way; and so it is if no elements that pass a test but the last one are nested.  There is room for the
words as for steps of a path (`Document.select`). -/
theorem select_chain
    {document : Document}
    {selector : String}
    (steps : ∀ word ∈ Text.words selector.toList, isStep word = true)
    (nonempty : Text.words selector.toList ≠ []) :
    ∃ nodes, document.select selector = .ok nodes ∧
      (∀ node, node ∈ nodes ↔ ∃ route, document.IsRoute (chain selector) (route ++ [node])) ∧
      (nodes.map (·.position)).eraseDups.Sublist (document.placed.map (·.position)) ∧
      (nodes.Sublist document.placed ↔
        ∀ node ∈ nodes, ∃! route, document.IsRoute (chain selector) (route ++ [node])) ∧
      ((∀ test ∈ (chain selector).dropLast, document.Unnested test) →
        nodes.Sublist document.placed) := by
  have tests : chain selector ≠ [] := by simpa [chain] using nonempty
  have once := (reached_sublist_iff tests).trans (@nodup_reached_iff document _ tests)
  refine ⟨_, select_of_steps steps nonempty, fun node => mem_reached_iff tests,
    eraseDups_reached_sublist tests, once, fun unnested => once.mpr fun node known => ?_⟩
  obtain ⟨route, isRoute⟩ := (mem_reached_iff tests).mp known
  exact ⟨route, isRoute, fun other otherRoute => otherRoute.unique_of_unnested unnested isRoute⟩

/-- A document with nested elements of one name. -/
def nested : Document where
  file? := none
  root := ⟨"a", [], none, none,
    [⟨"a", [], none, none, [⟨"b", [], none, none, []⟩]⟩, ⟨"c", [], none, none, []⟩]⟩
  source := "<a><a><b/></a><c/></a>"

theorem select_chain_of_nested :
    (∀ word ∈ Text.words "a *".toList, isStep word = true) ∧ Text.words "a *".toList ≠ [] ∧
      ∃ nodes, nested.select "a *" = .ok nodes ∧ nodes.length = 4 ∧
        (nodes.map (·.position)).eraseDups.Sublist [[0], [0, 0], [0, 0, 0], [1, 0]] := by
  have steps : ∀ word ∈ Text.words "a *".toList, isStep word = true := by decide
  have nonempty : Text.words "a *".toList ≠ [] := by decide
  obtain ⟨nodes, selected, -, inOrder, -⟩ := @select_chain nested "a *" steps nonempty
  refine ⟨steps, nonempty, nodes, selected, ?_, inOrder⟩
  have known : (nested.select "a *").map List.length = .ok 4 := by decide
  rw [selected] at known
  exact Except.ok.inj known

/-- The only element named `b` is selected twice, and once behind the element named `c`, which it
precedes in the document. -/
theorem selected_twice_of_nested :
    Document.read "<a><a><b/></a><c/></a>" none = .ok nested ∧
      nested.nodes.map (·.element.tag) = ["a", "a", "b", "c"] ∧
      (nested.select "a *").map (fun nodes => nodes.map (·.element.tag)) =
        .ok ["a", "b", "c", "b"] := by
  have wellFormed : Xml.read "<a><a><b/></a><c/></a>".toList =
      .ok [.start ⟨none, "a"⟩ [], .start ⟨none, "a"⟩ [], .start ⟨none, "b"⟩ [], .finish, .finish,
        .start ⟨none, "c"⟩ [], .finish, .finish] := by decide +kernel
  exact ⟨read_eq_ok wellFormed rfl none, by decide, by decide⟩

end Document
end MarkupLint
