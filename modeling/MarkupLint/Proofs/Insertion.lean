import Mathlib.Data.List.Perm.Basic
import Mathlib.Order.Defs.Unbundled

/-!
# Inserting in order

Texts, lists of parts, skipped files and timers are put in order by inserting one after another.
Whatever they are, an insertion keeps all of them, and keeps them in order.
-/

namespace MarkupLint

variable {α : Type} {precedes : α → α → Prop} {insert : α → List α → List α}

/-- An item is put right before an item that it precedes, or somewhere behind one that precedes it. -/
structure Inserts (precedes : α → α → Prop) (insert : α → List α → List α) : Prop where
  nil (item : α) : insert item [] = [item]
  cons (item other : α) (rest : List α) :
    precedes item other ∧ insert item (other :: rest) = item :: other :: rest ∨
      precedes other item ∧ insert item (other :: rest) = other :: insert item rest

namespace Inserts

theorem perm (inserts : Inserts precedes insert) (item : α) (sorted : List α) :
    (insert item sorted).Perm (item :: sorted) := by
  induction sorted with
  | nil => exact .of_eq (inserts.nil item)
  | cons other rest ih =>
    rcases inserts.cons item other rest with ⟨-, here⟩ | ⟨-, behind⟩
    · exact .of_eq here
    · exact behind ▸ (ih.cons other).trans (.swap item other rest)

theorem perm_foldl (inserts : Inserts precedes insert) (items sorted : List α) :
    (items.foldl (fun sorted item => insert item sorted) sorted).Perm (items ++ sorted) := by
  induction items generalizing sorted with
  | nil => exact .refl _
  | cons item rest ih =>
    exact (ih (insert item sorted)).trans
      (((inserts.perm item sorted).append_left rest).trans List.perm_middle)

theorem pairwise
    [IsTrans α precedes]
    (inserts : Inserts precedes insert)
    (item : α)
    {sorted : List α}
    (ordered : sorted.Pairwise precedes) :
    (insert item sorted).Pairwise precedes := by
  induction sorted with
  | nil => exact inserts.nil item ▸ List.pairwise_singleton _ _
  | cons other rest ih =>
    have others := List.pairwise_cons.mp ordered
    rcases inserts.cons item other rest with ⟨before, here⟩ | ⟨before, behind⟩
    · rw [here]
      refine List.pairwise_cons.mpr ⟨fun later known => ?_, ordered⟩
      rcases List.mem_cons.mp known with rfl | known
      · exact before
      · exact IsTrans.trans _ _ _ before (others.1 later known)
    · rw [behind]
      refine List.pairwise_cons.mpr ⟨fun later known => ?_, ih others.2⟩
      rcases List.mem_cons.mp ((inserts.perm item rest).mem_iff.mp known) with rfl | known
      · exact before
      · exact others.1 later known

theorem pairwise_foldl
    [IsTrans α precedes]
    (inserts : Inserts precedes insert)
    (items : List α)
    {sorted : List α}
    (ordered : sorted.Pairwise precedes) :
    (items.foldl (fun sorted item => insert item sorted) sorted).Pairwise precedes := by
  induction items generalizing sorted with
  | nil => exact ordered
  | cons item rest ih => exact ih (inserts.pairwise item ordered)

end Inserts
end MarkupLint
