import MarkupLint.Table
import Mathlib.Data.List.Forall2
import Mathlib.Data.List.Induction
import Mathlib.Data.List.Nodup

/-!
# Tables as functions of their keys

What setting a key does to the keys and the values of a table, and what a table holds that is built
from pairs: its keys are in the order of their first occurrences, and each has its last value.
-/

namespace MarkupLint
namespace Table

/-- Setting a key changes the value of that key only. -/
theorem value?_set (table : Table α) (key other : String) (value : α) :
    (table.set key value).value? other = if other = key then some value else table.value? other := by
  induction table with
  | nil =>
    by_cases same : other = key
    · simp [Table.set, Table.value?, same]
    · have different : (other == key) = false := beq_false_of_ne same
      simp [Table.set, Table.value?, List.lookup_cons, same, different]
  | cons entry rest ih =>
    obtain ⟨first, old⟩ := entry
    simp only [Table.value?] at ih
    by_cases known : first = key
    · subst known
      by_cases same : other = first
      · simp [Table.set, Table.value?, same]
      · have different : (other == first) = false := beq_false_of_ne same
        simp [Table.set, Table.value?, List.lookup_cons, same, different]
    · simp only [Table.set, if_neg known, Table.value?, List.lookup_cons, ih]
      by_cases same : other = key
      · have different : (other == first) = false := beq_false_of_ne (same ▸ Ne.symm known)
        simp [same, same ▸ different]
      · simp [same]

theorem hasKey_iff {table : Table α} {key : String} :
    table.hasKey key = true ↔ key ∈ table.keys := by
  induction table with
  | nil => simp [hasKey, value?, keys]
  | cons entry rest ih =>
    obtain ⟨first, old⟩ := entry
    simp only [hasKey, value?, keys] at ih
    by_cases same : key = first
    · simp [hasKey, value?, keys, same]
    · simp [hasKey, value?, keys, List.lookup_cons, beq_false_of_ne same, same, ih]

/-- A new key comes behind all others. -/
theorem set_eq_append
    {table : Table α}
    {key : String}
    (unknown : table.hasKey key = false)
    (value : α) :
    table.set key value = table ++ [(key, value)] := by
  induction table with
  | nil => rfl
  | cons entry rest ih =>
    obtain ⟨first, old⟩ := entry
    have different : first ≠ key := by
      rintro rfl
      simp [hasKey, value?] at unknown
    have others : hasKey rest key = false := by
      simpa [hasKey, value?, List.lookup_cons, beq_false_of_ne different.symm] using unknown
    rw [set, if_neg different, ih others]
    rfl

/-- With different keys, the value of a key is in its only entry. -/
theorem value?_eq_some_iff
    {table : Table α}
    (distinct : table.keys.Nodup)
    {key : String}
    {value : α} :
    table.value? key = some value ↔ (key, value) ∈ table := by
  induction table with
  | nil => simp [value?]
  | cons entry rest ih =>
    obtain ⟨first, old⟩ := entry
    obtain ⟨fresh, others⟩ := List.nodup_cons.mp distinct
    by_cases same : key = first
    · subst same
      have missing : (key, value) ∉ rest := fun held => fresh (List.mem_map.mpr ⟨_, held, rfl⟩)
      simp [value?, missing, eq_comm]
    · simp [value?, List.lookup_cons, beq_false_of_ne same, same, ← ih others]

/-- A table with different keys lists its keys with their values. -/
theorem filterMap_keys {table : Table α} (distinct : table.keys.Nodup) :
    (table.keys.filterMap fun key => (table.value? key).map fun value => (key, value)) = table := by
  have each : ∀ entry ∈ table,
      ((fun key => (table.value? key).map fun value => (key, value)) ∘ (·.1)) entry =
        some entry := by
    intro entry held
    rw [Function.comp_apply, (value?_eq_some_iff distinct).mpr held, Option.map_some]
  rw [keys, List.filterMap_map, List.filterMap_congr each, List.filterMap_some]

/-- What is made of the values of a table keeps their keys. -/
theorem keys_filterMap {β : Type v} (table : Table α) (make? : String × α → Option β) :
    keys (table.filterMap fun entry => (make? entry).map (entry.1, ·)) =
      keys (table.filter fun entry => (make? entry).isSome) := by
  induction table with
  | nil => rfl
  | cons entry rest ih =>
    cases made : make? entry with
    | none => simpa [made] using ih
    | some value => simpa [made, keys] using ih

/-- The values of a table, key by key. -/
theorem flatMap_eq {table : Table (List α)} (distinct : table.keys.Nodup) :
    table.flatMap (·.2) = table.keys.flatMap fun key => (table.value? key).getD [] := by
  have each : ∀ entry ∈ table, (table.value? entry.1).getD [] = entry.2 := by
    intro entry held
    rw [(value?_eq_some_iff distinct).mpr held, Option.getD_some]
  rw [keys, List.flatMap_map, List.flatMap_congr each]

/-- Something is added to the values of a key. -/
theorem mem_flatMap_set_append
    {table : Table (List α)}
    {key : String}
    {added value : α} :
    value ∈ (table.set key ((table.value? key).getD [] ++ [added])).flatMap (·.2) ↔
      value ∈ table.flatMap (·.2) ∨ value = added := by
  induction table with
  | nil => simp [value?]
  | cons entry rest ih =>
    obtain ⟨first, values⟩ := entry
    by_cases same : first = key
    · subst same
      simp only [set, if_true, value?, List.lookup_cons_self, Option.getD_some, List.flatMap_cons,
        List.mem_append, List.mem_singleton]
      exact or_right_comm
    · have looked : value? ((first, values) :: rest) key = value? rest key := by
        simp only [value?, List.lookup_cons, beq_false_of_ne (Ne.symm same)]
      rw [looked, set, if_neg same, List.flatMap_cons, List.flatMap_cons, List.mem_append,
        List.mem_append, ih, or_assoc]

/-! ## Tables of pairs -/

/-- Of the values that a key is given, the last one counts. -/
theorem value?_foldl_set (pairs : List (String × α)) (table : Table α) (key : String) :
    (pairs.foldl (fun table pair => table.set pair.1 pair.2) table).value? key =
      (value? pairs.reverse key).or (table.value? key) := by
  induction pairs generalizing table with
  | nil => rfl
  | cons pair rest ih =>
    obtain ⟨first, value⟩ := pair
    rw [List.foldl_cons, ih, value?_set]
    simp only [value?, List.reverse_cons, List.lookup_append, Option.or_assoc]
    congr 1
    by_cases same : key = first
    · simp [same]
    · simp [same, List.lookup_cons, beq_false_of_ne same]

theorem value?_ofPairs (pairs : List (String × α)) (key : String) :
    (ofPairs pairs).value? key = value? pairs.reverse key := by
  rw [ofPairs, value?_foldl_set]
  exact Option.or_none

/-- What has been met before does not count again. -/
theorem eraseDups_append_singleton [BEq α] [LawfulBEq α] (values : List α) (value : α) :
    (values ++ [value]).eraseDups =
      values.eraseDups ++ if value ∈ values then [] else [value] := by
  have removed : [value].removeAll values = if value ∈ values then [] else [value] := by
    by_cases known : value ∈ values
    · rw [if_pos known, List.removeAll, List.filter_cons, List.elem_iff.mpr known]
      rfl
    · have unknown := Bool.eq_false_iff.mpr (mt List.elem_iff.mp known)
      rw [if_neg known, List.removeAll, List.filter_cons, unknown]
      rfl
  rw [List.eraseDups_append, removed]
  split
  · rw [List.eraseDups_nil]
  · rw [List.eraseDups_cons, List.filter_nil, List.eraseDups_nil]

theorem eraseDups_append_toList [DecidableEq α] (values : List α) (value? : Option α) :
    (values ++ value?.toList).eraseDups =
      values.eraseDups ++ value?.toList.filter (· ∉ values.eraseDups) := by
  cases value? with
  | none => simp
  | some value =>
    rw [Option.toList_some, eraseDups_append_singleton]
    by_cases known : value ∈ values <;> simp [known]

theorem eraseDups_append_of_subset
    [BEq α] [LawfulBEq α]
    {values others : List α}
    (known : ∀ value ∈ others, value ∈ values) :
    (values ++ others).eraseDups = values.eraseDups := by
  have none : others.removeAll values = [] := by
    rw [List.removeAll, List.filter_eq_nil_iff]
    simpa using known
  rw [List.eraseDups_append, none, List.eraseDups_nil, List.append_nil]

theorem eraseDups_eq_self
    [BEq α] [LawfulBEq α]
    {values : List α}
    (distinct : values.Nodup) :
    values.eraseDups = values := by
  induction values using List.reverseRecOn with
  | nil => rfl
  | append_singleton values value ih =>
    obtain ⟨others, -, apart⟩ := List.nodup_append.mp distinct
    have unknown : value ∉ values :=
      fun known => apart value known value (List.mem_singleton_self value) rfl
    rw [eraseDups_append_singleton, ih others, if_neg unknown]

theorem nodup_eraseDups [BEq α] [LawfulBEq α] (values : List α) : values.eraseDups.Nodup := by
  induction values using List.reverseRecOn with
  | nil => exact List.nodup_nil
  | append_singleton values value ih =>
    rw [eraseDups_append_singleton]
    split
    · rwa [List.append_nil]
    · next unknown =>
      refine List.concat_eq_append ▸ ih.concat ?_
      rwa [List.mem_eraseDups]

theorem eraseDups_filter [BEq α] [LawfulBEq α] (keeps : α → Bool) (values : List α) :
    (values.filter keeps).eraseDups = values.eraseDups.filter keeps := by
  induction values using List.reverseRecOn with
  | nil => rfl
  | append_singleton values value ih =>
    rw [List.filter_append, List.filter_singleton, eraseDups_append_singleton, List.filter_append,
      ← ih]
    cases kept : keeps value with
    | false => split <;> simp [kept]
    | true =>
      rw [cond_true, eraseDups_append_singleton]
      simp only [List.mem_filter, kept, and_true]
      split <;> simp [kept]

/-- Related lists keep related values if the relation is one to one. -/
theorem forall₂_eraseDups
    {β : Type v}
    [BEq α] [LawfulBEq α] [BEq β] [LawfulBEq β]
    {related : α → β → Prop}
    (unique : Relator.BiUnique related)
    {values : List α}
    {others : List β}
    (paired : List.Forall₂ related values others) :
    List.Forall₂ related values.eraseDups others.eraseDups := by
  induction known : values.length using Nat.strongRecOn generalizing values others with
  | ind length ih =>
    cases paired with
    | nil => exact .nil
    | @cons value other rest behind first paired =>
      rw [List.eraseDups_cons, List.eraseDups_cons]
      have shorter : (rest.filter fun item => !item == value).length < length := by
        rw [← known, List.length_cons, Nat.lt_succ_iff]
        exact List.length_filter_le _ rest
      refine .cons first (ih _ shorter (List.rel_filter ?_ paired) rfl)
      intro item twin same
      have equal : item = value ↔ twin = other :=
        ⟨fun here => unique.2 (here ▸ same) first, fun here => unique.1 (here ▸ same) first⟩
      simp [equal]

theorem keys_ofPairs (pairs : List (String × α)) :
    (ofPairs pairs).keys = (pairs.map (·.1)).eraseDups := by
  induction pairs using List.reverseRecOn with
  | nil => rfl
  | append_singleton pairs pair ih =>
    obtain ⟨key, value⟩ := pair
    rw [ofPairs_append_singleton, keys_set, ih, List.map_append, List.map_singleton,
      eraseDups_append_singleton]
    simp only [List.mem_eraseDups]
    split
    · rw [List.append_nil]
    · rfl

theorem nodup_keys_ofPairs (pairs : List (String × α)) : (ofPairs pairs).keys.Nodup := by
  rw [keys_ofPairs]
  exact nodup_eraseDups _

theorem ofPairs_eq_self {table : Table α} (distinct : table.keys.Nodup) : ofPairs table = table := by
  induction table using List.reverseRecOn with
  | nil => rfl
  | append_singleton table entry ih =>
    rw [keys, List.map_append] at distinct
    obtain ⟨others, -, fresh⟩ := List.nodup_append.mp distinct
    have unknown : hasKey table entry.1 = false := by
      rw [← Bool.not_eq_true, hasKey_iff]
      exact fun known => fresh _ known _ List.mem_cons_self rfl
    rw [ofPairs_append_singleton, ih others, set_eq_append unknown]

/-- With different keys, it does not matter from which end a key is looked up. -/
theorem value?_reverse {table : Table α} (distinct : table.keys.Nodup) (key : String) :
    value? table.reverse key = table.value? key := by
  have reversed : (keys table.reverse).Nodup := by
    rw [keys, List.map_reverse]
    exact List.nodup_reverse.mpr distinct
  ext value
  rw [value?_eq_some_iff reversed, value?_eq_some_iff distinct, List.mem_reverse]

end Table
end MarkupLint
