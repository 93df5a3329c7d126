-- Greedy selection. The elements of a list are offered in order, and each one
-- is kept if what was kept before it still admits it.
import Mathlib.Data.List.Sort

open scoped List

namespace Greedy

variable {α : Type} (fits : List α → Bool)

/-- What is kept of the list, after `acc`. -/
def kept (acc : List α) : List α → List α
  | [] => acc
  | a :: rest => if fits (acc ++ [a]) then kept (acc ++ [a]) rest else kept acc rest

/-- What is dropped of it. -/
def dropped (acc : List α) : List α → List α
  | [] => []
  | a :: rest =>
    if fits (acc ++ [a]) then dropped (acc ++ [a]) rest else a :: dropped acc rest

/-- A part of what fits fits too. -/
def Hereditary : Prop := ∀ l l' : List α, l <+ l' → fits l' = true → fits l = true

variable {fits} {acc l : List α}

theorem kept_sublist : kept fits acc l <+ acc ++ l := by
  induction l generalizing acc with
  | nil => simp [kept]
  | cons a l ih =>
    unfold kept
    split
    · have h := @ih (acc ++ [a])
      rwa [List.append_assoc] at h
    · exact ih.trans ((List.sublist_cons_self a l).append_left acc)

theorem acc_sublist_kept : acc <+ kept fits acc l := by
  induction l generalizing acc with
  | nil => exact List.Sublist.refl _
  | cons a l ih =>
    unfold kept
    split
    · exact (List.sublist_append_left acc [a]).trans ih
    · exact ih

theorem kept_fits (h : fits acc = true) : fits (kept fits acc l) = true := by
  induction l generalizing acc with
  | nil => exact h
  | cons a l ih =>
    unfold kept
    split
    · exact ih ‹_›
    · exact ih h

/-- Nothing is lost. -/
theorem kept_append_dropped : (kept fits acc l ++ dropped fits acc l).Perm (acc ++ l) := by
  induction l generalizing acc with
  | nil => simp [kept, dropped]
  | cons a l ih =>
    unfold kept dropped
    split
    · have h := @ih (acc ++ [a])
      rwa [List.append_assoc] at h
    · have h : (kept fits acc l ++ a :: dropped fits acc l).Perm (a :: (acc ++ l)) :=
        List.perm_middle.trans ((@ih acc).cons a)
      exact h.trans List.perm_middle.symm

/-- An element is dropped where what was kept did not admit it. -/
theorem dropped_at {a : α} (h : a ∈ dropped fits acc l) :
    ∃ before after, l = before ++ a :: after ∧ fits (kept fits acc before ++ [a]) = false ∧
      kept fits acc before <+ kept fits acc l := by
  induction l generalizing acc with
  | nil => simp [dropped] at h
  | cons b l ih =>
    unfold dropped at h
    by_cases hb : fits (acc ++ [b]) = true
    · rw [if_pos hb] at h
      obtain ⟨before, after, hl, hfit, hsub⟩ := ih h
      refine ⟨b :: before, after, by rw [hl]; rfl, ?_, ?_⟩
      · rwa [kept, if_pos hb]
      · rwa [kept, if_pos hb, kept, if_pos hb]
    · rw [if_neg hb] at h
      rcases List.mem_cons.mp h with rfl | h
      · refine ⟨[], l, rfl, by simpa [kept] using hb, acc_sublist_kept⟩
      · obtain ⟨before, after, hl, hfit, hsub⟩ := ih h
        refine ⟨b :: before, after, by rw [hl]; rfl, ?_, ?_⟩
        · rwa [kept, if_neg hb]
        · rwa [kept, if_neg hb, kept, if_neg hb]

/-- What was dropped could not be kept at the end either. -/
theorem dropped_maximal (hf : Hereditary fits) {a : α} (h : a ∈ dropped fits acc l) :
    fits (kept fits acc l ++ [a]) = false := by
  obtain ⟨before, after, -, hfit, hsub⟩ := dropped_at h
  by_contra hn
  rw [hf _ _ (hsub.append_right [a]) (by simpa using hn)] at hfit
  cases hfit

/-- What is offered and fits in one piece is all kept. -/
theorem kept_all (hf : Hereditary fits) (h : fits (acc ++ l) = true) :
    kept fits acc l = acc ++ l ∧ dropped fits acc l = [] := by
  induction l generalizing acc with
  | nil => simp [kept, dropped]
  | cons a l ih =>
    have hall : fits ((acc ++ [a]) ++ l) = true := by rwa [List.append_assoc]
    have ha : fits (acc ++ [a]) = true := hf _ _ (List.sublist_append_left _ _) hall
    obtain ⟨hk, hd⟩ := ih hall
    unfold kept dropped
    rw [if_pos ha, if_pos ha, hk, hd]
    simp

/-- Leaving out what was dropped changes nothing. -/
theorem kept_filter {p : α → Bool} (h : ∀ a ∈ kept fits acc l, p a = true) :
    kept fits acc (l.filter p) = kept fits acc l := by
  induction l generalizing acc with
  | nil => rfl
  | cons a l ih =>
    rw [kept] at h ⊢
    by_cases ha : fits (acc ++ [a]) = true
    · rw [if_pos ha] at h ⊢
      have hp : p a = true := h a (acc_sublist_kept.subset (by simp))
      rw [List.filter_cons_of_pos hp, kept, if_pos ha]
      exact ih h
    · rw [if_neg ha] at h ⊢
      by_cases hp : p a = true
      · rw [List.filter_cons_of_pos hp, kept, if_neg ha]
        exact ih h
      · rw [List.filter_cons_of_neg (by simpa using hp)]
        exact ih h

theorem dropped_append (l' : List α) :
    dropped fits acc (l ++ l') = dropped fits acc l ++ dropped fits (kept fits acc l) l' := by
  induction l generalizing acc with
  | nil => rfl
  | cons a l ih =>
    rw [List.cons_append, dropped, dropped, kept]
    split
    · exact ih
    · rw [ih, List.cons_append]

end Greedy
