import MarkupLint.Rule.Attributes
import Mathlib.Data.List.Sort
import Mathlib.Data.String.Basic

/-!
# Sorted lists of texts

Sorting texts into a set gives each text once, in ascending order.  If the texts differ from each
other, this is nothing but sorting them.
-/

namespace MarkupLint
namespace Rule

variable {value : String} {values : List String}

theorem mem_insertSorted {other : String} :
    other ∈ insertSorted value values ↔ other = value ∨ other ∈ values := by
  induction values with
  | nil => simp [insertSorted]
  | cons first rest ih =>
    unfold insertSorted
    split
    · next same => simp [same]
    · split
      · simp
      · rw [List.mem_cons, List.mem_cons, ih]
        exact or_left_comm

theorem pairwise_insertSorted (ascending : values.Pairwise (· < ·)) :
    (insertSorted value values).Pairwise (· < ·) := by
  induction values with
  | nil => simp [insertSorted]
  | cons first rest ih =>
    obtain ⟨below, ascending⟩ := List.pairwise_cons.mp ascending
    unfold insertSorted
    split
    · exact List.pairwise_cons.mpr ⟨below, ascending⟩
    · next different =>
      split
      · next less =>
        refine List.pairwise_cons.mpr
          ⟨fun other held => ?_, List.pairwise_cons.mpr ⟨below, ascending⟩⟩
        rcases List.mem_cons.mp held with rfl | later
        · exact less
        · exact less.trans (below other later)
      · next more =>
        refine List.pairwise_cons.mpr ⟨fun other held => ?_, ih ascending⟩
        rcases mem_insertSorted.mp held with rfl | later
        · exact lt_of_le_of_ne (not_lt.mp more) (Ne.symm different)
        · exact below other later

theorem mem_foldl_insertSorted {other : String} {sorted : List String} :
    other ∈ values.foldl (fun sorted value => insertSorted value sorted) sorted ↔
      other ∈ values ∨ other ∈ sorted := by
  induction values generalizing sorted with
  | nil => simp
  | cons first rest ih =>
    rw [List.foldl_cons, ih, mem_insertSorted, List.mem_cons]
    exact or_left_comm.trans or_assoc.symm

theorem mem_sortedSet {other : String} : other ∈ sortedSet values ↔ other ∈ values := by
  simp [sortedSet, mem_foldl_insertSorted]

theorem pairwise_sortedSet (values : List String) : (sortedSet values).Pairwise (· < ·) := by
  have folded : ∀ (values sorted : List String), sorted.Pairwise (· < ·) →
      (values.foldl (fun sorted value => insertSorted value sorted) sorted).Pairwise (· < ·) := by
    intro values
    induction values with
    | nil => exact fun _ ascending => ascending
    | cons first rest ih => exact fun _ ascending => ih _ (pairwise_insertSorted ascending)
  exact folded values [] List.Pairwise.nil

/-- Filtering different texts and sorting them can be done in either order. -/
theorem filter_sortedSet (distinct : values.Nodup) (keep : String → Bool) :
    (sortedSet values).filter keep = (values.filter keep).mergeSort (· ≤ ·) := by
  have ascending := (pairwise_sortedSet values).filter (p := keep)
  have same : ((sortedSet values).filter keep).Perm (values.filter keep) := by
    refine (List.perm_ext_iff_of_nodup ascending.nodup (distinct.filter keep)).mpr fun other => ?_
    simp [mem_sortedSet]
  have sorted := List.pairwise_mergeSort' (· ≤ ·) (values.filter keep)
  exact List.Perm.eq_of_pairwise (fun _ _ _ _ => le_antisymm) (ascending.imp le_of_lt) sorted
    (same.trans (List.mergeSort_perm _ _).symm)

end Rule
end MarkupLint
