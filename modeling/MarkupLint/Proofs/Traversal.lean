import Mathlib.Data.List.Forall2
import Mathlib.Data.List.TakeWhile

/-!
# Reading in sequence

What it means that several things can be read one after the other, the items of a list in
particular, and that one of them is to blame if they cannot.
-/

namespace MarkupLint

variable {α β ε : Type}

/-! ## Up to the first occurrence of an item -/

section

variable [DecidableEq α] {item : α} {before : List α}

theorem ne_of_mem_of_notMem (fresh : item ∉ before) :
    ∀ other ∈ before, decide (other ≠ item) = true :=
  fun _ known => decide_eq_true fun same => fresh (same ▸ known)

theorem takeWhile_ne_eq_self (fresh : item ∉ before) : before.takeWhile (· ≠ item) = before :=
  List.takeWhile_eq_self_iff.mpr (ne_of_mem_of_notMem fresh)

theorem dropWhile_ne_eq_nil (fresh : item ∉ before) : before.dropWhile (· ≠ item) = [] :=
  List.dropWhile_eq_nil_iff.mpr (ne_of_mem_of_notMem fresh)

theorem takeWhile_ne_append (fresh : item ∉ before) (behind : List α) :
    (before ++ item :: behind).takeWhile (· ≠ item) = before := by
  rw [List.takeWhile_append_of_pos (ne_of_mem_of_notMem fresh),
    List.takeWhile_cons_of_neg (by simp), List.append_nil]

theorem dropWhile_ne_append (fresh : item ∉ before) (behind : List α) :
    (before ++ item :: behind).dropWhile (· ≠ item) = item :: behind := by
  rw [List.dropWhile_append_of_pos (ne_of_mem_of_notMem fresh),
    List.dropWhile_cons_of_neg (by simp)]

end

theorem takeWhile_congr
    {holds other : α → Bool}
    {items : List α}
    (each : ∀ item ∈ items, holds item = other item) :
    items.takeWhile holds = items.takeWhile other := by
  induction items with
  | nil => rfl
  | cons item rest ih =>
    obtain ⟨first, others⟩ := List.forall_mem_cons.mp each
    rw [List.takeWhile_cons, List.takeWhile_cons, first, ih others]

/-! ## One reading after another -/

/-- Two readings in sequence succeed if the first one does, and the second one with its value. -/
theorem bind_eq_ok_iff {first : Except ε α} {second : α → Except ε β} {value : β} :
    (first >>= second) = .ok value ↔
      ∃ between, first = .ok between ∧ second between = .ok value := by
  cases first <;> simp [bind, Except.bind]

theorem bind_eq_error_iff {first : Except ε α} {second : α → Except ε β} {failure : ε} :
    (first >>= second) = .error failure ↔
      first = .error failure ∨ ∃ between, first = .ok between ∧ second between = .error failure := by
  cases first <;> simp [bind, Except.bind]

theorem map_eq_ok_iff {first : Except ε α} {change : α → β} {value : β} :
    first.map change = .ok value ↔ ∃ before, first = .ok before ∧ change before = value := by
  cases first <;> simp [Except.map]

theorem mapM_congr
    {read other : α → Except ε β}
    {items : List α}
    (each : ∀ item ∈ items, read item = other item) :
    items.mapM read = items.mapM other := by
  induction items with
  | nil => rfl
  | cons item rest ih =>
    obtain ⟨first, others⟩ := List.forall_mem_cons.mp each
    rw [List.mapM_cons, List.mapM_cons, first, ih others]

theorem mapM_eq_ok_iff {read : α → Except ε β} {items : List α} {values : List β} :
    items.mapM read = .ok values ↔
      List.Forall₂ (fun item value => read item = .ok value) items values := by
  induction items generalizing values with
  | nil =>
    rw [List.forall₂_nil_left_iff, List.mapM_nil]
    exact ⟨fun same => (Except.ok.inj same).symm, fun none => none ▸ rfl⟩
  | cons item rest ih =>
    rw [List.mapM_cons, List.forall₂_cons_left_iff, bind_eq_ok_iff]
    refine exists_congr fun value => ?_
    simp only [bind_eq_ok_iff, ih, pure, Except.pure, Except.ok.injEq]
    exact ⟨fun ⟨first, later, others, same⟩ => ⟨later, first, others, same.symm⟩,
      fun ⟨later, first, others, same⟩ => ⟨first, later, others, same.symm⟩⟩

theorem mem_iff_of_mapM_eq_ok
    {read : α → Except ε β}
    {items : List α}
    {values : List β}
    (mapped : items.mapM read = .ok values)
    {value : β} :
    value ∈ values ↔ ∃ item ∈ items, read item = .ok value := by
  have paired := mapM_eq_ok_iff.mp mapped
  clear mapped
  induction paired with
  | nil => simp
  | cons first _ ih => simp [first, ih, eq_comm]

theorem exists_value_of_mapM_eq_ok
    {read : α → Except ε β}
    {items : List α}
    {values : List β}
    (mapped : items.mapM read = .ok values)
    {item : α}
    (held : item ∈ items) :
    ∃ value, read item = .ok value := by
  have paired := mapM_eq_ok_iff.mp mapped
  clear mapped
  induction paired with
  | nil => contradiction
  | cons first _ ih =>
    rcases List.mem_cons.mp held with rfl | behind
    · exact ⟨_, first⟩
    · exact ih behind

theorem mapM_cons_eq_error_iff
    {read : α → Except ε β}
    {item : α}
    {rest : List α}
    {failure : ε} :
    (item :: rest).mapM read = .error failure ↔
      read item = .error failure ∨
        ∃ value, read item = .ok value ∧ rest.mapM read = .error failure := by
  rw [List.mapM_cons]
  cases first : read item with
  | error other => simp [bind, Except.bind]
  | ok value => cases others : rest.mapM read <;> simp [bind, Except.bind, pure, Except.pure]

theorem exists_of_mapM_eq_error
    {read : α → Except ε β}
    {items : List α}
    {failure : ε}
    (failed : items.mapM read = .error failure) :
    ∃ item ∈ items, read item = .error failure := by
  induction items with
  | nil => contradiction
  | cons item rest ih =>
    rcases mapM_cons_eq_error_iff.mp failed with first | ⟨value, -, others⟩
    · exact ⟨item, List.mem_cons_self, first⟩
    · obtain ⟨later, held, why⟩ := ih others
      exact ⟨later, List.mem_cons_of_mem _ held, why⟩

/-- Items cannot be read if one of them, behind items that can, cannot be read. -/
theorem mapM_eq_error_iff {read : α → Except ε β} {items : List α} {failure : ε} :
    items.mapM read = .error failure ↔
      ∃ before item behind, items = before ++ item :: behind ∧
        (∀ earlier ∈ before, ∃ value, read earlier = .ok value) ∧ read item = .error failure := by
  induction items with
  | nil => simp [pure, Except.pure]
  | cons item rest ih =>
    rw [mapM_cons_eq_error_iff, ih]
    constructor
    · rintro (first | ⟨value, made, before, failing, behind, rfl, each, why⟩)
      · exact ⟨[], item, rest, rfl, List.forall_mem_nil _, first⟩
      · exact ⟨item :: before, failing, behind, rfl,
          List.forall_mem_cons.mpr ⟨⟨value, made⟩, each⟩, why⟩
    · rintro ⟨before, failing, behind, same, each, why⟩
      cases before with
      | nil =>
        obtain ⟨rfl, -⟩ := List.cons.inj same
        exact .inl why
      | cons first before =>
        obtain ⟨rfl, rfl⟩ := List.cons.inj same
        obtain ⟨⟨value, made⟩, others⟩ := List.forall_mem_cons.mp each
        exact .inr ⟨value, made, before, failing, behind, rfl, others, why⟩

/-- Items that are all made of values can be read if each can be read as what it is made of. -/
theorem mapM_eq_some_iff
    {read : α → Option β}
    {make : β → α}
    (read_eq_some_iff : ∀ item value, read item = some value ↔ item = make value)
    {items : List α}
    {values : List β} :
    items.mapM read = some values ↔ items = values.map make := by
  induction items generalizing values with
  | nil => cases values <;> simp
  | cons item rest ih =>
    cases values <;>
      simp [List.mapM_cons, Option.bind_eq_some_iff, read_eq_some_iff, ih]

/-! ## Two readings side by side -/

/-- Two readings agree if both of them fail, or both succeed with values that are related. -/
inductive Agree (related : α → β → Prop) : Except ε α → Except ε β → Prop
  | ok {value : α} {other : β} :
    related value other → Agree related (.ok value) (.ok other)
  | error (failure other : ε) : Agree related (.error failure) (.error other)

namespace Agree

variable {γ δ : Type} {related : α → β → Prop} {kin : γ → δ → Prop} {first : Except ε α}
  {second : Except ε β}

theorem bind
    (agree : Agree related first second)
    {after : α → Except ε γ}
    {otherAfter : β → Except ε δ}
    (each : ∀ value other, related value other → Agree kin (after value) (otherAfter other)) :
    Agree kin (first >>= after) (second >>= otherAfter) := by
  cases agree with
  | ok same => exact each _ _ same
  | error failure other => exact .error failure other

theorem imp
    (agree : Agree related first second)
    {weaker : α → β → Prop}
    (each : ∀ value other, related value other → weaker value other) :
    Agree weaker first second := by
  cases agree with
  | ok same => exact .ok (each _ _ same)
  | error failure other => exact .error failure other

/-- The values are what is read. -/
theorem and_eq (agree : Agree related first second) :
    Agree (fun value other => related value other ∧ first = .ok value ∧ second = .ok other) first
      second := by
  cases agree with
  | ok same => exact .ok ⟨same, rfl, rfl⟩
  | error failure other => exact .error failure other

theorem map
    (agree : Agree related first second)
    {change : α → γ}
    {otherChange : β → δ}
    (each : ∀ value other, related value other → kin (change value) (otherChange other)) :
    Agree kin (first.map change) (second.map otherChange) := by
  cases agree with
  | ok same => exact .ok (each _ _ same)
  | error failure other => exact .error failure other

theorem mapError
    {ζ : Type}
    (agree : Agree related first second)
    (change otherChange : ε → ζ) :
    Agree related (first.mapError change) (second.mapError otherChange) := by
  cases agree with
  | ok same => exact .ok same
  | error failure other => exact .error _ _

/-- Reading items agrees with reading others if each two of them agree. -/
theorem mapM
    {items : List α}
    {others : List β}
    (paired : List.Forall₂ related items others)
    {read : α → Except ε γ}
    {otherRead : β → Except ε δ}
    (each : ∀ item other, related item other → Agree kin (read item) (otherRead other)) :
    Agree (List.Forall₂ kin) (items.mapM read) (others.mapM otherRead) := by
  induction paired with
  | nil => exact .ok .nil
  | cons same _ ih =>
    rw [List.mapM_cons, List.mapM_cons]
    refine (each _ _ same).bind fun value other first => ih.bind fun values rest behind => ?_
    exact .ok (.cons first behind)

theorem mapM_same
    {items : List α}
    {read : α → Except ε γ}
    {otherRead : α → Except ε δ}
    (each : ∀ item ∈ items, Agree kin (read item) (otherRead item)) :
    Agree (List.Forall₂ kin) (items.mapM read) (items.mapM otherRead) := by
  have paired : List.Forall₂ (fun item twin => item = twin ∧ item ∈ items) items items :=
    List.forall₂_same.mpr fun item held => ⟨rfl, held⟩
  refine mapM paired ?_
  rintro item _ ⟨rfl, held⟩
  exact each item held

end Agree

end MarkupLint
