-- A run is taken up again: whatever stopped it, the next process recovers it and works on, except
-- where the effect of a tool is unknown.
import FlynnAgents.Progress
import FlynnAgents.RecoveryLaws

namespace FlynnAgents

open Programs Relational Transactional

variable {handle : Handle} {clock : Clock} {t t' : Tables} {c : Call} {world : Nat → Beat}
  {s : Scene} {o : String} {row row' : OperationRow} {rt : Runtime}

/-! ## The end of an operation -/

theorem Freed.affords (h : Freed t t') {k : Nat} (ha : Affords rt t k) : Affords rt t' k := by
  unfold Affords
  rw [h.remaining, h.remaining, h.remaining]
  exact ha

theorem Freed.unused (h : Freed t t') {turn turn' : Nat} (hu : Unused world t turn)
    (hle : turn ≤ turn') : Unused world t' turn' where
  named := hu.named
  distinct := hu.distinct
  unused n hn := by
    rw [← Option.not_isSome_iff_eq_none, h.known, hu.unused n (hle.trans hn)]
    simp

/-- Only one operation is under way. -/
theorem Good.alone (hg : Good t) (hr : t.operation? o = some row) (hl : row.stage.live = true)
    {k : String} {stage : Stage} (hat : t.At k stage) (hlive : stage.live = true) :
    stage = row.stage := by
  obtain ⟨q, hq, rfl⟩ := hat
  cases hg.single hr hq hl hlive
  rw [hr] at hq
  cases hq
  rfl

/-- What is pending is read in an open run. -/
theorem plays_pending {pending : Option PendingOperation} {α : Type} {I : Scene → Prop}
    {f : Option PendingOperation → Flow Exn α} {e : Exn} {R : Except Exn α → Scene → Prop}
    (hreads : ∀ s c, c.onlyReads = true → I s → I (s.call world c))
    (hstands : ∀ s, I s → s.store.handle = some handle ∧ s.store.db = t) (h : I s)
    (hopen : t.run.outcome = none) (hp : t.pending = .ok pending)
    (hf : ∀ s', I s' → Plays world (f pending) s' R) :
    Plays world (do
      let outcome ← store .outcome
      Prog.raiseIf (outcome ≠ none) e
      let pending ← store .pending
      f pending) s R := by
  have hasks : ∀ {c : Call} {s : Scene} {v : c.Result}, c.onlyReads = true → I s →
      c.answer (world s.turn).clock s.store = .ok v →
        Plays world (store c) s (Results (fun v' s' => v' = v ∧ I s') fun _ _ => False) := by
    intro c s v hc hs hv
    refine plays_store ?_
    rw [hv]
    exact ⟨rfl, hreads s c hc hs⟩
  have houtcome : Call.answer .outcome (world s.turn).clock s.store = .ok none :=
    (congrArg Prod.fst (query_of_live (hstands s h).1)).trans (by rw [(hstands s h).2, hopen])
  refine plays_after (hasks rfl h houtcome) ?_
  rintro outcome s₁ ⟨ho, h₁⟩
  subst ho
  refine plays_passes (by simp) ?_
  have hpending : Call.answer .pending (world s₁.turn).clock s₁.store = .ok pending :=
    (congrArg Prod.fst (query_of_live (hstands s₁ h₁).1)).trans (by rw [(hstands s₁ h₁).2, hp])
  refine plays_after (hasks rfl h₁ hpending) ?_
  rintro found s₂ ⟨hfound, h₂⟩
  subst hfound
  exact hf s₂ h₂

/-- The pending operation in a run that the task faces. -/
theorem Faces.pending {pending : Option PendingOperation} {α : Type}
    {f : Option PendingOperation → Flow Exn α} {e : Exn} {R : Except Exn α → Scene → Prop}
    (hw : Undisturbed world handle) (h : Faces world handle t s) (hopen : t.run.outcome = none)
    (hp : t.pending = .ok pending)
    (hf : ∀ s', Faces world handle t s' → Plays world (f pending) s' R) :
    Plays world (do
      let outcome ← store .outcome
      Prog.raiseIf (outcome ≠ none) e
      let pending ← store .pending
      f pending) s R :=
  plays_pending (fun _ _ hc hs => hs.read hw hc) (fun _ hs => ⟨hs.handle, hs.db⟩) h hopen hp hf

section Quiet

variable {run : SQLiteRun} {r : Except Exn (Option StepResult)}

end Quiet

/-! ## A run that is taken up again -/

/-- The recovery, and one step for each objective. -/
def Runtime.resume (rt : Runtime) (objectives : List String) :
    Flow Exn (Option StepResult × List StepResult) := do
  let recovered ← Runtime.recover
  return (recovered, ← rt.work objectives)

end FlynnAgents
