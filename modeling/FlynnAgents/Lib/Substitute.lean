-- Substitution in a text as re.sub and str.replace do it: leftmost matches that do not
-- overlap are replaced, and each replacement holds a marker.
import Mathlib.Data.List.Infix

namespace Substitute

variable {α : Type}

/-- A match: what is written before and after the marker in its place, and its length. -/
structure Hit (α : Type) where
  before : List α
  after : List α
  length : Nat

/-- What matches at a position, given the character before it and the rest of the text. -/
abbrev Rule (α : Type) := Option α → List α → Option (Hit α)

/-- The text with each match replaced. The first `skip` characters belong to a match. -/
def sub (marker : List α) (rule : Rule α) : Option α → Nat → List α → List α
  | _, _, [] => []
  | _, skip + 1, c :: rest => sub marker rule (some c) skip rest
  | previous, 0, c :: rest =>
    match rule previous (c :: rest) with
    | some hit => hit.before ++ marker ++ hit.after ++
        sub marker rule (some c) (hit.length - 1) rest
    | none => c :: sub marker rule (some c) 0 rest

/-- `re.sub(rule, replacement, text)` -/
def replaceAll (marker : List α) (rule : Rule α) (text : List α) : List α :=
  sub marker rule none 0 text

variable {marker : List α} {rule : Rule α} {text : List α}

/-- Skipping is dropping. -/
theorem sub_skip (previous : Option α) (skip : Nat) (text : List α) :
    ∃ previous', sub marker rule previous skip text =
      sub marker rule previous' 0 (text.drop skip) := by
  induction skip generalizing previous text with
  | zero => exact ⟨previous, rfl⟩
  | succ skip ih =>
    cases text with
    | nil => exact ⟨none, rfl⟩
    | cons c rest => exact ih (some c) rest

/-- What holds of a text because of a part of it that the marker cannot meet. -/
structure Found (marker : List α) (P : List α → Prop) : Prop where
  infix_closed : ∀ l l' : List α, l <:+: l' → P l → P l'
  apart : ∀ l l' : List α, P (l ++ marker ++ l') → P l ∨ P l'

/-- A rule that makes nothing: what is found around its replacement was there before. -/
def MakesNothing (rule : Rule α) (P : List α → Prop) : Prop :=
  ∀ previous text hit, rule previous text = some hit →
    0 < hit.length ∧ (∀ l, P (l ++ hit.before) → P (l ++ text)) ∧
      hit.after ++ text.drop hit.length <:+ text

variable {P : List α → Prop}

/-- What is found after a substitution was there before it. -/
theorem found_before (hP : Found marker P) (hrule : MakesNothing rule P) (previous : Option α)
    (l : List α) (h : P (l ++ sub marker rule previous 0 text)) : P (l ++ text) := by
  induction hn : text.length using Nat.strong_induction_on generalizing text previous l with
  | _ n ih =>
    cases text with
    | nil => exact h
    | cons c rest =>
      rw [sub] at h
      cases hhit : rule previous (c :: rest) with
      | none =>
        rw [hhit] at h
        have hrest := ih rest.length (by rw [← hn]; simp) (some c) (l ++ [c])
          (by simpa using h) rfl
        simpa using hrest
      | some hit =>
        rw [hhit] at h
        obtain ⟨hlength, hbefore, hafter⟩ := hrule previous (c :: rest) hit hhit
        have hsplit : P ((l ++ hit.before) ++ marker ++
            (hit.after ++ sub marker rule (some c) (hit.length - 1) rest)) := by
          simpa [List.append_assoc] using h
        rcases hP.apart _ _ hsplit with hleft | hright
        · exact hbefore l hleft
        · obtain ⟨previous', hskip⟩ := @sub_skip _ marker rule (some c) (hit.length - 1) rest
          rw [hskip] at hright
          have hlater := ih (rest.drop (hit.length - 1)).length
            (by rw [← hn, List.length_drop, List.length_cons]; omega) previous' hit.after hright rfl
          -- what follows the match is a part of the text
          have hdrop : (c :: rest).drop hit.length = rest.drop (hit.length - 1) := by
            obtain ⟨n, hn'⟩ : ∃ n, hit.length = n + 1 := ⟨hit.length - 1, by omega⟩
            rw [hn', List.drop_succ_cons, Nat.add_sub_cancel]
          rw [hdrop] at hafter
          exact hP.infix_closed _ _ (hafter.isInfix.trans (List.suffix_append l _).isInfix) hlater

/-- A substitution by such a rule finds nothing new. -/
theorem replaceAll_found (hP : Found marker P) (hrule : MakesNothing rule P)
    (h : P (replaceAll marker rule text)) : P text := by
  have := found_before hP hrule none [] h
  exact this

/-- Where every place of what is searched for matches, none is left. -/
theorem replaceAll_clean {E : List α → Prop} (hmarker : ∀ l l' e : List α, E e →
      e <:+: l ++ marker ++ l' → e <:+: l ∨ e <:+: l')
    (hempty : ¬ E []) (hrule : ∀ previous e l, E e → (rule previous (e ++ l)).isSome = true)
    (hplain : ∀ previous t hit, rule previous t = some hit → hit.before = [] ∧ hit.after = [])
    {e : List α} (he : E e) : ¬ e <:+: replaceAll marker rule text := by
  -- nothing starts in what was copied, read on into the text that is left
  suffices hall : ∀ (n : Nat) (previous : Option α) (l text : List α), text.length = n →
      (∀ u e v, u <:+ l → u ≠ [] → E e → u ++ text ≠ e ++ v) →
      ¬ e <:+: l ++ sub marker rule previous 0 text by
    refine hall text.length none [] text rfl ?_
    intro u e v hu hne
    exact absurd (List.suffix_nil.mp hu) hne
  have hstart : ∀ l text : List α, (∀ u e v, u <:+ l → u ≠ [] → E e → u ++ text ≠ e ++ v) →
      ¬ e <:+: l := by
    rintro l text hno ⟨s, t, rfl⟩
    refine hno (e ++ t) e (t ++ text) ⟨s, by simp⟩ ?_ he (by simp)
    intro hnil
    rw [(List.append_eq_nil_iff.mp hnil).1] at he
    exact hempty he
  intro n
  induction n using Nat.strong_induction_on with
  | _ n ih =>
    intro previous l text hn hno
    cases text with
    | nil =>
      rw [sub, List.append_nil]
      exact hstart l [] hno
    | cons c rest =>
      rw [sub]
      cases hhit : rule previous (c :: rest) with
      | none =>
        have hnext := ih rest.length (by rw [← hn]; simp) (some c) (l ++ [c]) rest rfl ?_
        · simpa using hnext
        · intro u e' v hu hne he' heq
          obtain ⟨t, rfl, ht⟩ := (List.suffix_concat_iff.mp hu).resolve_left hne
          by_cases hnil : t = []
          · -- a match would start right here
            subst hnil
            have hsome := hrule previous e' v he'
            rw [← heq] at hsome
            rw [List.nil_append, List.singleton_append, hhit] at hsome
            cases hsome
          · refine hno t e' v ht hnil he' ?_
            rw [← heq, List.append_assoc, List.singleton_append]
      | some hit =>
        obtain ⟨hbefore, hafter⟩ := hplain previous (c :: rest) hit hhit
        intro hin
        simp only at hin
        rw [hbefore, hafter, List.nil_append, List.append_nil, ← List.append_assoc] at hin
        rcases hmarker _ _ e he hin with hleft | hright
        · exact hstart l (c :: rest) hno hleft
        · obtain ⟨previous', hskip⟩ := @sub_skip _ marker rule (some c) (hit.length - 1) rest
          rw [hskip] at hright
          have hlater := ih (rest.drop (hit.length - 1)).length
            (by rw [← hn, List.length_drop, List.length_cons]; omega) previous' []
            (rest.drop (hit.length - 1)) rfl
            (fun u e' v hu hne => absurd (List.suffix_nil.mp hu) hne)
          exact hlater (by rwa [List.nil_append])

end Substitute
