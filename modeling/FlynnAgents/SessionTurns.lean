-- The turns of a session. A run of `execute` opens, makes its turns one after
-- another, and closes with what the last one gave.
import FlynnAgents.Sitting

namespace FlynnAgents

open Programs Prog

variable {world : Nat → Beat} {cues : Nat → Cue} {s s' s₀ : Sitting} {sn : Session}

namespace Session

/-! ## Around the loop -/

/-- What `execute` does before its loop. It gives the baseline of the count and
the limit of the time. -/
def opening : Act (Nat × Option ℚ) := do
  let locked ← prompted .lock
  let _ ← Prog.ofExcept locked
  let outcome ← calls .outcome
  Prog.raiseIf (outcome ≠ none) (contractError "Run already ended; create a fresh session")
  let pending ← calls .pending
  Prog.raiseIf (pending ≠ none)
    (unresolvedEffect "Session cannot recover a pending operation")
  let baseline ← calls .completedOperations
  checkReady
  let limit ← calls .secondsRemaining
  return (baseline, limit)

/-- The end of the `async with` of the time. -/
def expiring {α : Type} (limit : Option ℚ) (e : Exn) : Act α :=
  if e.isinstance .cancelledError && limit.isSome then do
    if ← prompted (.expired e) then Prog.raise timeoutError else Prog.raise e
  else Prog.raise e

/-- What `execute` does with the end of its loop. -/
def closing (frame : Nat × Option ℚ) (x : Act (Option SessionTermination)) :
    Act (Option SessionTermination) :=
  Prog.finally_ (Prog.catching (x.catching (expiring frame.2)) (conclude frame.1)) (do
    let _ ← prompted .unlock
    return ())

theorem closing_congr {frame : Nat × Option ℚ} {x y : Act (Option SessionTermination)}
    (h : x.run (Sitting.answer world cues) s = y.run (Sitting.answer world cues) s') :
    (closing frame x).run (Sitting.answer world cues) s =
      (closing frame y).run (Sitting.answer world cues) s' :=
  run_finally_congr (run_catching_congr (run_catching_congr h))

/-- `execute` is its loop, opened and closed. -/
theorem run_execute {frame : Nat × Option ℚ}
    (h : opening.run (Sitting.answer world cues) s₀ = (.ok frame, s)) (fuel : Nat) :
    (sn.execute fuel).run (Sitting.answer world cues) s₀ =
      (closing frame (sn.loop fuel {})).run (Sitting.answer world cues) s := by
  obtain ⟨locked, s₁, h₁, h⟩ := run_bind_ok h
  obtain ⟨_, s₂, h₂, h⟩ := run_bind_ok h
  obtain ⟨outcome, s₃, h₃, h⟩ := run_bind_ok h
  obtain ⟨_, s₄, h₄, h⟩ := run_bind_ok h
  obtain ⟨pending, s₅, h₅, h⟩ := run_bind_ok h
  obtain ⟨_, s₆, h₆, h⟩ := run_bind_ok h
  obtain ⟨baseline, s₇, h₇, h⟩ := run_bind_ok h
  obtain ⟨_, s₈, h₈, h⟩ := run_bind_ok h
  obtain ⟨limit, s₉, h₉, h⟩ := run_bind_ok h
  cases h
  unfold execute
  rw [run_bind_of h₁, run_bind_of h₂]
  refine run_finally_congr ?_
  rw [run_bind_of h₃, run_bind_of h₄, run_bind_of h₅, run_bind_of h₆, run_bind_of h₇]
  refine run_catching_congr ?_
  unfold tried
  rw [run_bind_of h₈]
  exact run_bind_of h₉

/-! ## The turns -/

/-- `execute` has made `k` turns and comes to the next one, with these locals. -/
inductive Reaches (sn : Session) (world : Nat → Beat) (cues : Nat → Cue) (s₀ : Sitting)
    (frame : Nat × Option ℚ) : Nat → Carry → Sitting → Prop
  | first {s : Sitting} (h : opening.run (Sitting.answer world cues) s₀ = (.ok frame, s)) :
      Reaches sn world cues s₀ frame 0 {} s
  | next {k : Nat} {carry carry' : Carry} {s s' : Sitting}
      (h : Reaches sn world cues s₀ frame k carry s)
      (hturn : (sn.turn carry).run (Sitting.answer world cues) s = (.ok (.inr carry'), s')) :
      Reaches sn world cues s₀ frame (k + 1) carry' s'

/-- What is left of the run from a turn on. -/
theorem Reaches.run {frame : Nat × Option ℚ} {k : Nat} {carry : Carry}
    (h : sn.Reaches world cues s₀ frame k carry s) (fuel : Nat) :
    (sn.execute (k + fuel)).run (Sitting.answer world cues) s₀ =
      (closing frame (sn.loop fuel carry)).run (Sitting.answer world cues) s := by
  induction h generalizing fuel with
  | first h =>
    rw [Nat.zero_add]
    exact run_execute h fuel
  | @next k _ _ _ _ _ hturn ih =>
    rw [Nat.add_right_comm, Nat.add_assoc, ih (fuel + 1)]
    refine closing_congr ?_
    rw [loop]
    exact run_bind_of hturn

/-- A turn that raises is the last one. -/
theorem Reaches.run_error {frame : Nat × Option ℚ} {k : Nat} {carry : Carry} {e : Exn}
    (h : sn.Reaches world cues s₀ frame k carry s)
    (hturn : (sn.turn carry).run (Sitting.answer world cues) s = (.error e, s')) {fuel : Nat}
    (hf : k < fuel) :
    (sn.execute fuel).run (Sitting.answer world cues) s₀ =
      (closing frame (Prog.raise e)).run (Sitting.answer world cues) s' := by
  obtain ⟨rest, rfl⟩ : ∃ rest, fuel = k + (rest + 1) := ⟨fuel - k - 1, by omega⟩
  rw [h.run]
  refine closing_congr ?_
  rw [loop]
  exact run_bind_error hturn

/-! ## A step of a turn -/

/-- The turn decides for the step and comes to it in the sitting `s'`. -/
def Stepping (world : Nat → Beat) (cues : Nat → Cue) (carry : Carry) (s : Sitting)
    (step : SessionStep) (s' : Sitting) : Prop :=
  ∃ s₁, (decision carry).run (Sitting.answer world cues) s = (.ok (.typed (.step step)), s₁) ∧
    checkReady.run (Sitting.answer world cues) s₁ = (.ok (), s')

/-- The session hands the exception of a step to its rejection policy. -/
def Corrects (sn : Session) (e : Exn) (s : Scene) : Prop :=
  (e.isinstance .proposalRejected = true ∨ e.isinstance .inferenceRejected = true) ∧
    sn.rejecting = true ∧ s.rejected = some e

/-- An exception that is not corrected is raised again. -/
theorem acts_uncorrected {e : Exn} (he : ¬ sn.Corrects e s.scene) (carry : Carry) :
    Acts world cues (sn.correct carry e) s (Results (fun _ _ => False) fun e' s' => e' = e ∧
      (s' = s ∨ s' = s.prompt cues .rejected)) := by
  unfold correct
  refine plays_check (fun _ => ⟨rfl, .inl rfl⟩) fun hrejection => ?_
  refine plays_check (fun _ => ⟨rfl, .inl rfl⟩) fun hrejecting => ?_
  refine plays_then (G := fun r s' => r = s.scene.rejected ∧ s' = s.prompt cues .rejected)
    (acts_prompted ⟨rfl, rfl⟩) fun r s₁ ⟨hr, hs⟩ => ?_
  refine plays_check (fun _ => ⟨rfl, .inr hs⟩) fun hsome => absurd ?_ he
  rw [hr, not_not] at hsome
  exact ⟨not_not.mp hrejection, by simpa using hrejecting, hsome⟩

/-- The turn of such a step raises the exception. -/
theorem Stepping.raises {carry : Carry} {step : SessionStep} {e : Exn} {scene : Scene}
    (h : Stepping world cues carry s step s')
    (hstep : (sn.runtime.step step.objective (some step.grants)).run (Scene.answer world)
      s'.scene = (.error e, scene)) (he : ¬ sn.Corrects e scene) :
    ∃ s'', (sn.turn carry).run (Sitting.answer world cues) s = (.error e, s'') ∧
      (s'' = { s' with scene } ∨ s'' = Sitting.prompt cues { s' with scene } .rejected) := by
  obtain ⟨s₁, hdecision, hready⟩ := h
  have hraised : Acts world cues (sn.correct { carry with correction := none } e)
      { s' with scene } _ := acts_uncorrected he _
  obtain ⟨_, s'', hrun, rfl, hs⟩ := hraised.raises
  refine ⟨s'', ?_, hs⟩
  unfold turn
  rw [run_bind_of hdecision, run_bind_of hready]
  dsimp only
  rw [run_bind, run_attempted, run_step, hstep]
  exact run_bind_error hrun

end Session

/-- What every call and every prompt keeps, the end of a session keeps. -/
theorem Held.closing {I : Sitting → Prop} (hk : Held world cues I) (h : I s)
    (frame : Nat × Option ℚ) (e : Exn) :
    Acts world cues (Session.closing frame (Prog.raise e)) s
      (Results (fun _ _ => False) fun _ s' => I s') := by
  unfold Session.closing
  refine plays_finally (Q := Results (fun _ _ => False) fun _ s' => I s') ?_ ?_
  · refine plays_catching (Q := Results (fun _ _ => False) fun _ s' => I s') ?_
      (fun _ _ hf => hf.elim) fun e s₁ h₁ => hk.conclude h₁ frame.1 e
    refine plays_catching (Q := Results (fun _ _ => False) fun _ s' => I s') (plays_raise h)
      (fun _ _ hf => hf.elim) fun e s₁ h₁ => ?_
    unfold Session.expiring
    split
    · refine plays_then (G := fun _ s' => I s') (acts_prompted (hk.prompt s₁ _ (by simp) h₁))
        fun b s₂ h₂ => ?_
      split
      · exact plays_raise h₂
      · exact plays_raise h₂
    · exact plays_raise h₁
  · rintro (e | r) s₁ h₁
    · exact plays_after (G := fun _ s' => I s') (acts_prompted (hk.prompt s₁ _ (by simp) h₁))
        fun _ _ h => plays_value h
    · exact h₁.elim

end FlynnAgents
