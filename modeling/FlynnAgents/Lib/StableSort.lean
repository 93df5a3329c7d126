-- The order that a stable sort gives: by the relation, and where that leaves two
-- elements equal, as they stood in the list.
import Mathlib.Data.List.Sort

open scoped List

namespace StableSort

variable {α : Type} {le : α → α → Bool} {l : List α} {a b : α}

/-- `a` stands before `b` in the sorted list. -/
def Before (le : α → α → Bool) (l : List α) (a b : α) : Prop :=
  le a b = true ∧ (le b a = true → [a, b] <+ l)

theorem pair_sublist_total (ha : a ∈ l) (hb : b ∈ l) (hne : a ≠ b) :
    [a, b] <+ l ∨ [b, a] <+ l := by
  induction l with
  | nil => cases ha
  | cons c l ih =>
    rcases List.mem_cons.mp ha with rfl | ha'
    · have hb' := (List.mem_cons.mp hb).resolve_left (Ne.symm hne)
      exact .inl ((List.singleton_sublist.mpr hb').cons_cons a)
    · rcases List.mem_cons.mp hb with rfl | hb'
      · exact .inr ((List.singleton_sublist.mpr ha').cons_cons b)
      · exact (ih ha' hb').imp (fun h => h.cons c) fun h => h.cons c

theorem pair_sublist_asymm (hl : l.Nodup) (h : [a, b] <+ l) : ¬ [b, a] <+ l := by
  intro h'
  induction l with
  | nil => cases h
  | cons c l ih =>
    obtain ⟨hc, hl⟩ := List.nodup_cons.mp hl
    cases h with
    | cons _ h =>
      cases h' with
      | cons _ h' => exact ih hl h h'
      | cons_cons => exact hc (h.subset (by simp))
    | cons_cons _ h =>
      cases h' with
      | cons _ h' => exact hc (h'.subset (by simp))
      | cons_cons _ h' => exact hc (h.subset (by simp))

theorem before_antisymm (hl : l.Nodup) (h : Before le l a b) (h' : Before le l b a) : a = b :=
  absurd (h'.2 h.1) (pair_sublist_asymm hl (h.2 h'.1))

section Sorting

variable (htrans : ∀ a b c, le a b = true → le b c = true → le a c = true)
  (htotal : ∀ a b, (le a b || le b a) = true)

include htrans htotal

theorem pairwise_before (hl : l.Nodup) : (l.mergeSort le).Pairwise (Before le l) := by
  refine List.pairwise_of_forall_sublist fun {a b} hab => ⟨?_, fun hba => ?_⟩
  · exact (List.pairwise_mergeSort htrans htotal l).forall_sublist hab
  · have hperm := List.mergeSort_perm l le
    have hnodup : (l.mergeSort le).Nodup := hperm.nodup_iff.mpr hl
    have hne : a ≠ b := by
      have := hnodup.sublist hab
      simpa using this
    have ha : a ∈ l := hperm.subset (hab.subset (by simp))
    have hb : b ∈ l := hperm.subset (hab.subset (by simp))
    rcases pair_sublist_total ha hb hne with h | h
    · exact h
    · exact absurd (List.pair_sublist_mergeSort htrans htotal hba h)
        (pair_sublist_asymm hnodup hab)

/-- Sorting what a filter leaves is filtering what was sorted. -/
theorem mergeSort_filter (hl : l.Nodup) (p : α → Bool) :
    (l.filter p).mergeSort le = (l.mergeSort le).filter p := by
  have hperm : ((l.filter p).mergeSort le).Perm ((l.mergeSort le).filter p) :=
    (List.mergeSort_perm _ le).trans ((List.mergeSort_perm l le).filter p).symm
  have hleft : ((l.filter p).mergeSort le).Pairwise (Before le l) :=
    (pairwise_before htrans htotal (hl.filter p)).imp fun h =>
      ⟨h.1, fun hba => (h.2 hba).trans List.filter_sublist⟩
  have hright : ((l.mergeSort le).filter p).Pairwise (Before le l) :=
    (pairwise_before htrans htotal hl).filter p
  exact hperm.eq_of_pairwise (fun a b _ _ h h' => before_antisymm hl h h') hleft hright

end Sorting

end StableSort
