import Mathlib.Data.List.Lex
import MarkupLint.Element

/-!
# Positions in trees

The elements of a tree are those that it has at its positions, each once, in document order: an
element comes before those below it, and these come before whatever else follows.  So what stands
between an element and one below it is below it as well.
-/

namespace MarkupLint

/-- Whether a position comes before another one in document order. -/
def Position.Precedes (first second : Position) : Prop := first.reverse < second.reverse

namespace Position

theorem precedes_trichotomy (first second : Position) :
    first.Precedes second ∨ first = second ∨ second.Precedes first := by
  rcases lt_trichotomy first.reverse second.reverse with early | same | late
  · exact .inl early
  · exact .inr (.inl (List.reverse_inj.mp same))
  · exact .inr (.inr late)

instance : Std.Irrefl Precedes := ⟨fun position => lt_irrefl position.reverse⟩

instance : Std.Antisymm Precedes := ⟨fun _ _ early late => absurd early (lt_asymm late)⟩

end Position

/-- Whether the tree has the element at the position of the node. -/
def Element.Has (root : Element) (node : Node) : Prop :=
  root.at? node.position = some node.element

namespace Node

/-- Whether a node is a proper ancestor of another one. -/
def IsAbove (above below : Node) : Prop :=
  above.position <:+ below.position ∧ above.position ≠ below.position

/-- Whether a node comes before another one in document order. -/
def Precedes (first second : Node) : Prop := first.position.Precedes second.position

instance : Std.Irrefl Precedes := ⟨fun node => irrefl node.position⟩

instance : Std.Antisymm Precedes :=
  ⟨fun _ _ early late => absurd early (lt_asymm (show _ < _ from late))⟩


theorem Precedes.trans
    {first second third : Node}
    (early : first.Precedes second)
    (late : second.Precedes third) :
    first.Precedes third :=
  lt_trans (show _ < _ from early) late

theorem isAbove_iff {above below : Node} :
    above.IsAbove below ↔ ∃ lower, lower ≠ [] ∧ below.position = lower ++ above.position := by
  constructor
  · rintro ⟨⟨lower, same⟩, different⟩
    refine ⟨lower, ?_, same.symm⟩
    rintro rfl
    exact different same
  · rintro ⟨lower, nonempty, same⟩
    refine ⟨⟨lower, same.symm⟩, fun equal => nonempty ?_⟩
    rw [equal] at same
    exact List.append_left_eq_self.mp same.symm

theorem IsAbove.trans
    {first second third : Node}
    (upper : first.IsAbove second)
    (lower : second.IsAbove third) :
    first.IsAbove third := by
  refine ⟨upper.1.trans lower.1, fun same => upper.2 ?_⟩
  refine upper.1.eq_of_length (Nat.le_antisymm upper.1.length_le ?_)
  rw [same]
  exact lower.1.length_le

instance : Trans IsAbove IsAbove IsAbove := ⟨IsAbove.trans⟩

/-- Of two ancestors of a node, one is above the other, unless they are at the same position. -/
theorem IsAbove.comparable
    {first second below : Node}
    (isAbove : first.IsAbove below)
    (other : second.IsAbove below) :
    first.IsAbove second ∨ first.position = second.position ∨ second.IsAbove first := by
  by_cases same : first.position = second.position
  · exact .inr (.inl same)
  · rcases List.suffix_or_suffix_of_suffix isAbove.1 other.1 with shorter | longer
    · exact .inl ⟨shorter, same⟩
    · exact .inr (.inr ⟨longer, Ne.symm same⟩)

theorem IsAbove.precedes {above below : Node} (isAbove : above.IsAbove below) :
    above.Precedes below := by
  obtain ⟨lower, nonempty, same⟩ := isAbove_iff.mp isAbove
  obtain ⟨index, rest, behind⟩ := List.exists_cons_of_ne_nil (List.reverse_ne_nil_iff.mpr nonempty)
  rw [Precedes, Position.Precedes, same, List.reverse_append, behind]
  simpa using List.Lex.append_left (· < ·) (List.Lex.nil (a := index) (l := rest))
    above.position.reverse

/-- Between a list and one that it begins, in the order of lists, all lists begin with it. -/
theorem isPrefix_of_between
    {front middle whole : List Nat}
    (begins : front <+: whole)
    (behind : front < middle)
    (before : middle < whole) :
    front <+: middle := by
  induction front generalizing middle whole with
  | nil => exact List.nil_prefix
  | cons index rest ih =>
    obtain ⟨others, rfl⟩ := begins
    cases middle with
    | nil => exact absurd behind (List.not_lt_nil _)
    | cons next later =>
      rw [List.cons_append, List.cons_lt_cons_iff] at before
      rw [List.cons_lt_cons_iff] at behind
      obtain rfl : index = next := by
        rcases behind with smaller | ⟨same, -⟩
        · rcases before with larger | ⟨same, -⟩
          · exact absurd larger (lt_asymm smaller)
          · exact same.symm
        · exact same
      obtain ⟨-, behind⟩ := behind.resolve_left (lt_irrefl index)
      obtain ⟨-, before⟩ := before.resolve_left (lt_irrefl index)
      exact (List.prefix_cons_inj index).mpr (ih (List.prefix_append rest others) behind before)

/-- What stands between an element and one below it is below it. -/
theorem IsAbove.of_between
    {above middle below : Node}
    (isAbove : above.IsAbove below)
    (behind : above.Precedes middle)
    (before : middle.Precedes below) :
    above.IsAbove middle := by
  refine ⟨?_, fun same => ?_⟩
  · rw [← List.reverse_prefix]
    exact isPrefix_of_between (List.reverse_prefix.mpr isAbove.1) behind before
  · rw [Precedes, same] at behind
    exact lt_irrefl _ behind

end Node

namespace Element

theorem at?_append (root : Element) (lower upper : Position) :
    root.at? (lower ++ upper) = (root.at? upper).bind fun element => element.at? lower := by
  induction lower with
  | nil => simp
  | cons index lower ih => simp only [List.cons_append, at?, ih, Option.bind_assoc]

theorem at?_singleton (element : Element) (index : Nat) :
    element.at? [index] = element.children[index]? := rfl

mutual

/-- The elements of a subtree are those at the positions in it. -/
theorem mem_nodesAt
    {node : Node}
    (position : Position) :
    (element : Element) →
      (node ∈ element.nodesAt position ↔
        ∃ lower, node.position = lower ++ position ∧ element.at? lower = some node.element)
  | ⟨tag, attributes, text?, tail?, children⟩ => by
    rw [nodesAt, List.mem_cons, mem_nodesOf position 0 children]
    constructor
    · rintro (rfl | ⟨lower, offset, child, position_eq, known, below⟩)
      · exact ⟨[], rfl, rfl⟩
      · refine ⟨lower ++ [offset], by simpa using position_eq, ?_⟩
        rw [at?_append, at?_singleton, known]
        exact below
    · rintro ⟨lower, position_eq, below⟩
      rcases List.eq_nil_or_concat' lower with rfl | ⟨lower, offset, rfl⟩
      · obtain ⟨_, element⟩ := node
        cases position_eq
        cases below
        exact .inl rfl
      · rw [at?_append, at?_singleton] at below
        obtain ⟨child, known, below⟩ := Option.bind_eq_some_iff.mp below
        exact .inr ⟨lower, offset, child, by simpa using position_eq, known, below⟩

theorem mem_nodesOf
    {node : Node}
    (position : Position)
    (index : Nat) :
    (children : List Element) →
      (node ∈ nodesOf position index children ↔
        ∃ lower offset child, node.position = lower ++ (index + offset) :: position ∧
          children[offset]? = some child ∧ child.at? lower = some node.element)
  | [] => by simp [nodesOf]
  | first :: rest => by
    rw [nodesOf, List.mem_append, mem_nodesAt (index :: position) first,
      mem_nodesOf position (index + 1) rest]
    constructor
    · rintro (⟨lower, position_eq, below⟩ | ⟨lower, offset, child, position_eq, known, below⟩)
      · exact ⟨lower, 0, first, position_eq, rfl, below⟩
      · refine ⟨lower, offset + 1, child, ?_, known, below⟩
        rwa [← Nat.add_assoc, Nat.add_right_comm]
    · rintro ⟨lower, offset, child, position_eq, known, below⟩
      cases offset with
      | zero =>
        cases known
        exact .inl ⟨lower, position_eq, below⟩
      | succ offset =>
        refine .inr ⟨lower, offset, child, ?_, known, below⟩
        rwa [Nat.add_right_comm, Nat.add_assoc]

end

mutual

/-- A subtree lists its elements in document order. -/
theorem pairwise_nodesAt
    (position : Position) :
    (element : Element) → (element.nodesAt position).Pairwise Node.Precedes
  | ⟨tag, attributes, text?, tail?, children⟩ => by
    rw [nodesAt, List.pairwise_cons]
    refine ⟨fun below below_mem => Node.IsAbove.precedes ?_, pairwise_nodesOf position 0 children⟩
    obtain ⟨lower, offset, child, position_eq, -, -⟩ := (mem_nodesOf position 0 children).mp below_mem
    refine Node.isAbove_iff.mpr ⟨lower ++ [0 + offset], by simp, ?_⟩
    rw [position_eq, List.append_assoc]
    rfl

theorem pairwise_nodesOf
    (position : Position)
    (index : Nat) :
    (children : List Element) → (nodesOf position index children).Pairwise Node.Precedes
  | [] => List.Pairwise.nil
  | first :: rest => by
    rw [nodesOf, List.pairwise_append]
    refine ⟨pairwise_nodesAt (index :: position) first, pairwise_nodesOf position (index + 1) rest,
      fun early early_mem late late_mem => ?_⟩
    obtain ⟨upper, early_eq, -⟩ := (mem_nodesAt (index :: position) first).mp early_mem
    obtain ⟨lower, offset, child, late_eq, -, -⟩ :=
      (mem_nodesOf position (index + 1) rest).mp late_mem
    have smaller : index < index + 1 + offset := by omega
    rw [Node.Precedes, Position.Precedes, early_eq, late_eq, List.reverse_append, List.reverse_append,
      List.reverse_cons, List.reverse_cons, List.append_assoc, List.append_assoc]
    exact List.Lex.append_left (· < ·) (List.Lex.rel smaller) position.reverse

end

mutual

/-- A subtree that hangs lower lists the same elements. -/
theorem nodesAt_append
    (position base : Position) :
    (element : Element) →
      element.nodesAt (position ++ base) =
        (element.nodesAt position).map fun node => ⟨node.position ++ base, node.element⟩
  | ⟨tag, attributes, text?, tail?, children⟩ => by
    rw [nodesAt, nodesAt, List.map_cons, nodesOf_append position base 0 children]

theorem nodesOf_append
    (position base : Position)
    (index : Nat) :
    (children : List Element) →
      nodesOf (position ++ base) index children =
        (nodesOf position index children).map fun node => ⟨node.position ++ base, node.element⟩
  | [] => rfl
  | first :: rest => by
    have lower := nodesAt_append (index :: position) base first
    rw [List.cons_append] at lower
    rw [nodesOf, nodesOf, List.map_append, lower, nodesOf_append position base (index + 1) rest]

end

namespace Has

variable {root : Element} {first second : Node}

/-- A tree has one element at a position. -/
theorem eq_of_position
    (has : root.Has first)
    (other : root.Has second)
    (same : first.position = second.position) :
    first = second := by
  have known := has.symm.trans ((congrArg root.at? same).trans other)
  obtain ⟨position, element⟩ := first
  cases same
  cases Option.some.inj known
  rfl

/-- The elements below an element of a tree are those of the tree that it is an ancestor of. -/
theorem mem_descendants_iff
    (has : root.Has first) :
    second ∈ first.descendants ↔ root.Has second ∧ first.IsAbove second := by
  rw [Node.descendants, mem_nodesOf, Node.isAbove_iff]
  constructor
  · rintro ⟨lower, offset, child, position_eq, known, below⟩
    rw [Nat.zero_add] at position_eq
    refine ⟨?_, lower ++ [offset], by simp, by simpa using position_eq⟩
    rw [Has, position_eq, at?_append, at?, has, Option.bind_some, known]
    exact below
  · rintro ⟨below, lower, nonempty, position_eq⟩
    obtain ⟨lower, offset, rfl⟩ := (List.eq_nil_or_concat' lower).resolve_left nonempty
    rw [Has, position_eq, at?_append, has, Option.bind_some, at?_append, at?_singleton] at below
    obtain ⟨child, known, below⟩ := Option.bind_eq_some_iff.mp below
    exact ⟨lower, offset, child, by simpa using position_eq, known, below⟩

end Has
end Element

/-- An element lists the elements below it in document order. -/
theorem Node.pairwise_descendants (node : Node) : node.descendants.Pairwise Precedes :=
  Element.pairwise_nodesOf node.position 0 node.element.children

end MarkupLint
