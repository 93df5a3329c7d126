-- Machines that answer inputs. A machine takes an input in a state, gives
-- one entry of its log and moves to the next state. The rules here carry a
-- property of one step to a whole run.
import FlynnAgents.Lib.Transaction

namespace Machines

variable {ι ε σ : Type} (step : ι → σ → ε × σ)

/-- The state after a list of inputs. -/
def after (s : σ) : List ι → σ
  | [] => s
  | i :: is => after (step i s).2 is

/-- The entries that a list of inputs leaves in the log. -/
def log (s : σ) : List ι → List ε
  | [] => []
  | i :: is => (step i s).1 :: log (step i s).2 is

@[simp] theorem after_nil (s : σ) : after step s [] = s := rfl

@[simp] theorem log_nil (s : σ) : log step s [] = [] := rfl

@[simp] theorem after_cons (s : σ) (i : ι) (is : List ι) :
    after step s (i :: is) = after step (step i s).2 is := rfl

@[simp] theorem log_cons (s : σ) (i : ι) (is : List ι) :
    log step s (i :: is) = (step i s).1 :: log step (step i s).2 is := rfl

theorem after_append (s : σ) (is js : List ι) :
    after step s (is ++ js) = after step (after step s is) js := by
  induction is generalizing s with
  | nil => rfl
  | cons i is ih => exact ih _

/-- What holds at the start and is kept by each step, of the log so far and
the state, holds of every run. -/
theorem run_keeps (I : List ε → σ → Prop) (s₀ : σ) (h₀ : I [] s₀)
    (hstep : ∀ l s i, I l s → I (l ++ [(step i s).1]) (step i s).2) (is : List ι) :
    I (log step s₀ is) (after step s₀ is) := by
  have h : ∀ l s, I l s → I (l ++ log step s is) (after step s is) := by
    induction is with
    | nil => intro l s h; simpa using h
    | cons i is ih =>
      intro l s h
      have := ih _ _ (hstep l s i h)
      simpa using this
  simpa using h [] s₀ h₀

/-- An invariant of the state alone. -/
theorem after_keeps (I : σ → Prop) (hstep : ∀ s i, I s → I (step i s).2) {s : σ} (h : I s)
    (is : List ι) : I (after step s is) :=
  run_keeps step (fun _ s => I s) s h (fun _ s i => hstep s i) is

/-- A relation that each step keeps, under an invariant, joins the two ends
of every run. -/
theorem after_related (I : σ → Prop) (R : σ → σ → Prop) (hI : ∀ s i, I s → I (step i s).2)
    (hrefl : ∀ s, R s s) (htrans : ∀ s t u, R s t → R t u → R s u)
    (hstep : ∀ s i, I s → R s (step i s).2) {s : σ} (h : I s) (is : List ι) :
    R s (after step s is) := by
  induction is generalizing s with
  | nil => exact hrefl s
  | cons i is ih => exact htrans _ _ _ (hstep s i h) (ih (hI s i h))

/-- Each entry of a log is the answer of one step, taken in a state that the
inputs before it lead to. -/
theorem mem_log {s : σ} {is : List ι} {e : ε} (h : e ∈ log step s is) :
    ∃ js i ks, is = js ++ i :: ks ∧ e = (step i (after step s js)).1 := by
  induction is generalizing s with
  | nil => simp at h
  | cons i is ih =>
    rcases List.mem_cons.mp h with rfl | h
    · exact ⟨[], i, is, rfl, rfl⟩
    · obtain ⟨js, j, ks, rfl, rfl⟩ := ih h
      exact ⟨i :: js, j, ks, rfl, rfl⟩

end Machines
