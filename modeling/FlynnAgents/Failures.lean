-- How a failure leaves a step and a session. Each handler writes the failure
-- down before it raises it again, so the failure itself leaves only as long as
-- the run takes the record: until somebody ends it.
import FlynnAgents.ClockLaws
import FlynnAgents.SessionBudget
import FlynnAgents.SessionTurns
import FlynnAgents.StepFrame

namespace FlynnAgents

open Programs Prog Transactional
open Text (ofString)

variable {world : Nat → Beat} {cues : Nat → Cue} {s t s₀ s₁ s₂ : Scene} {c : Call} {rt : Runtime}
  {sn : Session} {o : String} {f : String × Exn} {e : Exn} {deadline : Option ℚ}

/-! ## A run that takes a record -/

/-- The owner holds the file, and the run has no end. -/
structure Writable (run : SQLiteRun) : Prop where
  live : run.handle.isSome = true
  unended : run.db.run.outcome = none

/-- An end stays. -/
theorem Change.ended {handle : Handle} {clock : Clock} {t t' : Tables}
    (h : Change handle clock t c t') (ho : t.run.outcome ≠ none) : t'.run.outcome ≠ none := by
  cases h with
  | finish => simp
  | _ => exact ho

/-- A run that takes no record takes none later. -/
theorem not_writable_call (h : ¬ Writable s.store) (hc : c ≠ .close) (ho : c ≠ .openRun) :
    ¬ Writable (s.call world c).store := by
  intro ⟨hlive, hunended⟩
  have hlive' : s.store.handle.isSome = true :=
    (congrArg Option.isSome (exec_handle (i := ⟨(world s.turn).clock, c⟩) hc ho)).symm.trans hlive
  by_cases hout : s.store.db.run.outcome = none
  · exact h ⟨hlive', hout⟩
  · exact call_keeps (I := fun t => t.run.outcome ≠ none)
      (fun _ _ _ _ _ hn hc => hc.ended hn) hout c
      hunended

/-- A record that is taken. -/
theorem Writable.records (h : Writable s.store) {t' : Tables} {c : Call}
    (hch : ∀ handle, Change handle (world s.turn).clock s.store.db c t')
    (hl : c.raisesLate = false) :
    Plays world (store c) s (Results
      (fun _ s' => s'.store.handle.isSome = true ∧ s'.store.db = t') fun _ _ => False) := by
  obtain ⟨handle, hh⟩ := Option.isSome_iff_exists.mp h.live
  obtain ⟨hok, hs⟩ := call_commits hh (hch handle) hl
  refine plays_store (results_any (fun _ _ => ?_) fun e he => ?_)
  · rw [hs]
    exact ⟨h.live, rfl⟩
  · rw [he] at hok
    cases hok

/-! ## The handler of a step -/

namespace Runtime

/-- What the handler of a step records, before it raises the failure again. -/
def diagnose (rt : Runtime) (operationId : String) (failure : String × Exn) : Flow Exn Unit := do
  let (stage, error) := failure
  let _ ← store (.failed operationId (stage ++ ": " ++ error.typeName))
  rt.emit ⟨operationId, if stage = "tool" then "effect_unknown" else "failed", stage⟩ false
  if (stage = "inference" ∧ error.isinstance .inferenceRejected = true) ∨
      (stage = "validation" ∧ error.isinstance .proposalRejected = true) then
    setRejected (some error)
  else pure ()

theorem recordFailure_eq (o : String) (f : String × Exn) :
    rt.recordFailure o f = rt.diagnose o f >>= fun _ => Prog.raise f.2 := by
  obtain ⟨label, error⟩ := f
  unfold recordFailure diagnose
  dsimp only
  rw [bind_bind]
  congr 1
  funext u
  rw [bind_bind]
  congr 1
  funext v
  split <;> rfl

/-- The handler comes to its raise in a run that takes a record. -/
theorem diagnose_returns (h : Writable s.store) (hknown : (s.store.db.operation? o).isSome = true)
    (f : String × Exn) :
    Plays world (rt.diagnose o f) s
      (Results (fun _ s' => Writable s'.store) fun _ _ => False) := by
  obtain ⟨label, error⟩ := f
  obtain ⟨row, hrow⟩ := Option.isSome_iff_exists.mp hknown
  unfold diagnose
  refine plays_after (h.records (fun handle => Change.failed hrow) rfl)
    fun _ s₁ ⟨hlive, hdb⟩ => ?_
  have h₁ : Writable s₁.store := ⟨hlive, by rw [hdb]; exact h.unended⟩
  obtain ⟨row₁, hrow₁⟩ : ∃ row, s₁.store.db.operation? o = some row := by
    rw [hdb]
    have hch : Change ⟨none⟩ (world s.turn).clock s.store.db
      (.failed o (label ++ ": " ++ error.typeName)) _ := .failed hrow
    exact Option.isSome_iff_exists.mp ((hch.started_iff o).mpr (.inl hknown))
  have hnamed : (if label = "tool" then "effect_unknown" else "failed") ≠ "" := by
    split <;> decide
  refine plays_after (G := fun _ s' => Writable s'.store) ?_ fun _ s₂ h₂ => ?_
  · unfold emit
    refine plays_after (h₁.records (fun handle => Change.recordEvent h₁.unended hnamed hrow₁) rfl)
      fun _ s₂ ⟨hlive₂, hdb₂⟩ => ?_
    refine plays_ask (plays_value ⟨hlive₂, ?_⟩)
    change s₂.store.db.run.outcome = none
    rw [hdb₂]
    exact h₁.unended
  · split
    · exact plays_ask (plays_value h₂)
    · exact plays_value h₂

theorem failed_raises (error : String) : (SQLiteRun.failed o error).Raises Ordinary := by
  refine transaction_raises ⟨⟨rfl, rfl⟩, rfl, rfl⟩ fun _ => Txn.raises_bind Txn.raises_get
    fun _ => ?_
  refine Txn.raises_bind (Txn.raises_ofExcept fun _ => operation_raises) fun _ => ?_
  exact Txn.raises_modify _

theorem recordEvent_raises (event : Event) :
    (SQLiteRun.recordEvent (.typed event)).Raises Ordinary := by
  intro self e he
  unfold SQLiteRun.recordEvent at he
  dsimp only at he
  split at he
  · exact Method.raises_raise (P := Ordinary) ⟨⟨rfl, rfl⟩, rfl, rfl⟩ self e he
  · refine transaction_raises ⟨⟨rfl, rfl⟩, rfl, rfl⟩
      (fun _ => Txn.raises_bind requireOpen_raises fun _ => ?_) self e he
    refine Txn.raises_bind Txn.raises_get fun _ => ?_
    refine Txn.raises_bind (Txn.raises_ofExcept fun _ => operation_raises) fun _ => ?_
    exact Txn.raises_modify _

/-- In another run it raises on the way, what the store raises. -/
theorem diagnose_raises (h : ¬ Writable s.store) (o : String) (f : String × Exn) :
    Plays world (rt.diagnose o f) s (Results (fun _ _ => False)
      fun e s' => Ordinary e ∧ ¬ Writable s'.store) := by
  obtain ⟨label, error⟩ := f
  unfold diagnose
  refine plays_then (G := fun _ s' => ¬ Writable s'.store)
    (plays_store (results_any (fun _ _ => not_writable_call h (by simp) (by simp))
      fun e he => ⟨failed_raises _ _ _ he, not_writable_call h (by simp) (by simp)⟩))
    fun _ s₁ h₁ => ?_
  refine plays_then (G := fun _ _ => False) ?_ fun _ _ hf => hf.elim
  unfold emit
  refine plays_then (G := fun _ _ => False) (plays_store (results_any (fun _ hans => h₁ ?_)
    fun e he => ⟨recordEvent_raises _ _ _ he, not_writable_call h₁ (by simp) (by simp)⟩))
    fun _ _ hf => hf.elim
  obtain ⟨handle, hh, hch⟩ := call_changes rfl hans
  generalize (s₁.call world _).store.db = t' at hch
  cases hch with
  | recordEvent unended => exact ⟨by rw [hh]; rfl, unended⟩

/-- The step from `s₀` has started the operation `o`, and in the scene `s₂` the body
of its `try` is left by the failure `f`. -/
def Breaks (rt : Runtime) (world : Nat → Beat) (objective : String)
    (grants : Option (List String)) (s₀ : Scene) (o : String) (f : String × Exn) (s₂ : Scene) :
    Prop :=
  ∃ limit request s₁,
    (rt.opening objective grants).run (Scene.answer world) s₀ = (.ok (limit, o, request), s₁) ∧
      (rt.attempt o request).run (Scene.answer world) s₁ = (.error f, s₂)

/-- Without a limit of the time, a step ends as its body. -/
theorem run_closing {x : Flow Exn StepResult} {r : Except Exn StepResult}
    (h : x.run (Scene.answer world) s = (r, t)) :
    (closing none x).run (Scene.answer world) s = (r, t.ask world .release) := by
  have hx : (x.catching (expiring none)).run (Scene.answer world) s = (r, t) := by
    rw [run_catching, h]
    rcases r with e | a
    · simp only [expiring, Option.isSome_none, Bool.and_false, Bool.false_eq_true, if_false]
      rfl
    · rfl
  unfold closing finally_
  rw [run_bind, run_catching, hx]
  rcases r with e | a <;> rfl

end Runtime

/-! ## The deadline of a run -/

/-- The owner is bound to the deadline, if there is one. -/
def Dated (deadline : Option ℚ) (self : SQLiteRun) : Prop := ∃ b, BoundAt b deadline self

/-- No deadline binds the owner. -/
def Untimed (self : SQLiteRun) : Prop := ∃ b, BoundAt b none self

theorem dated_answer (q : Req) (s : Scene) (h : Dated deadline s.store) :
    Dated deadline (Scene.answer world q s).2.store := by
  obtain ⟨b, hb⟩ := h
  cases q with
  | store c => exact ⟨_, exec_boundAt hb ⟨_, c⟩⟩
  | ask a =>
    change Dated deadline (s.meanwhile world a)
    unfold Scene.meanwhile
    split
    · exact ⟨_, boundAt_after hb _⟩
    · exact ⟨b, hb⟩

/-- The owner is told of a limit when there is a deadline. -/
theorem dated_limit {clock : Clock} {self : SQLiteRun} {limit : Option ℚ} (h : Dated deadline self)
    (hans : Call.answer .secondsRemaining clock self = .ok limit) :
    limit.isSome = deadline.isSome := by
  obtain ⟨b, -, hb⟩ := h
  change (SQLiteRun.secondsRemaining clock self).1 = .ok limit at hans
  cases hans
  rw [Handle.secondsRemaining, hb, Option.isSome_map, Option.isSome_map]

namespace Runtime

variable {objective : String} {grants : Option (List String)}

theorem known_keeps {ε α : Type} {x : Flow ε α} {r : Except ε α}
    (h : (s.store.db.operation? o).isSome = true) (hr : x.run (Scene.answer world) s = (r, t)) :
    (t.store.db.operation? o).isSome = true := by
  have hx : Plays world x s fun _ t => (t.store.db.operation? o).isSome = true :=
    plays_scene (I := fun s => (s.store.db.operation? o).isSome = true)
      (fun _ c hs => call_keeps (I := fun t => (t.operation? o).isSome = true)
        (fun _ _ _ _ _ hi hc => (hc.started_iff o).mpr (.inl hi)) hs c)
      (fun _ a hs => meanwhile_keeps (I := fun t => (t.operation? o).isSome = true)
        (fun _ _ _ _ _ hi hc => (hc.started_iff o).mpr (.inl hi)) hs a) h
  unfold Plays Prog.Plays at hx
  rwa [hr] at hx

/-- What a step has opened. -/
theorem opening_opens {limit : Option ℚ} {request : InferenceRequest}
    (h : (rt.opening objective grants).run (Scene.answer world) s₀ = (.ok (limit, o, request), s₁))
    (hu : Dated deadline s₀.store) :
    limit.isSome = deadline.isSome ∧ (s₁.store.db.operation? o).isSome = true := by
  obtain ⟨_, t₁, h₁, h⟩ := run_bind_ok h
  obtain ⟨_, t₂, h₂, h⟩ := run_bind_ok h
  obtain ⟨_, t₃, h₃, h⟩ := run_bind_ok h
  obtain ⟨limit, t₄, h₄, h⟩ := run_bind_ok h
  obtain ⟨_, t₅, h₅, h⟩ := run_bind_ok h
  obtain ⟨base, t₆, h₆, h⟩ := run_bind_ok h
  obtain ⟨request, t₇, h₇, h⟩ := run_bind_ok h
  obtain ⟨⟨reservation, request'⟩, t₈, h₈, h⟩ := run_bind_ok h
  obtain ⟨o, t₉, h₉, h⟩ := run_bind_ok h
  obtain ⟨u, t₁₀, h₁₀, h⟩ := run_bind_ok h
  cases h
  have hu₃ : Dated deadline t₃.store := by
    have hu₁ := run_keeps (I := fun s => Dated deadline s.store) dated_answer hu h₁
    have hu₂ := run_keeps (I := fun s => Dated deadline s.store) dated_answer hu₁ h₂
    exact run_keeps (I := fun s => Dated deadline s.store) dated_answer hu₂ h₃
  refine ⟨dated_limit hu₃ (congrArg Prod.fst h₄), ?_⟩
  have hstart := congrArg Prod.fst h₁₀
  obtain ⟨handle, -, hch⟩ := call_changes rfl hstart
  have hs : t₉.call world _ = s₁ := congrArg Prod.snd h₁₀
  rw [hs] at hch
  exact (hch.started_iff _).mpr (.inr (by simp [Call.reserves]))

/-- A step whose failure the run takes comes to raise it again. -/
theorem Breaks.recorded (h : rt.Breaks world objective grants s₀ o f s₂)
    (hu : Dated deadline s₀.store) (hw : Writable s₂.store) :
    ∃ limit t, limit.isSome = deadline.isSome ∧
      (rt.diagnose o f).run (Scene.answer world) s₂ = (.ok (), t) ∧
      (rt.step objective grants).run (Scene.answer world) s₀ =
        (closing limit (Prog.raise f.2)).run (Scene.answer world) t ∧ Writable t.store := by
  obtain ⟨limit, request, s₁, hopening, hattempt⟩ := h
  obtain ⟨hlimit, hknown⟩ := opening_opens hopening hu
  have hreturned : Plays world (rt.diagnose o f) s₂ _ :=
    diagnose_returns hw (known_keeps hknown hattempt) f
  obtain ⟨u, t, hr, ht⟩ := hreturned.returns
  refine ⟨limit, t, hlimit, hr, ?_, ht⟩
  rw [run_step hopening]
  refine closing_congr ?_
  rw [run_catching, hattempt]
  dsimp only
  rw [recordFailure_eq]
  exact run_bind_of hr

/-- A step whose failure the run does not take comes to raise another exception. -/
theorem Breaks.refused (h : rt.Breaks world objective grants s₀ o f s₂)
    (hu : Dated deadline s₀.store) (hn : ¬ Writable s₂.store) :
    ∃ limit e t, limit.isSome = deadline.isSome ∧
      (rt.diagnose o f).run (Scene.answer world) s₂ = (.error e, t) ∧
      (rt.step objective grants).run (Scene.answer world) s₀ =
        (closing limit (Prog.raise e)).run (Scene.answer world) t ∧ Ordinary e ∧
          ¬ Writable t.store := by
  obtain ⟨limit, request, s₁, hopening, hattempt⟩ := h
  obtain ⟨hlimit, -⟩ := opening_opens hopening hu
  have hraised : Plays world (rt.diagnose o f) s₂ _ := diagnose_raises hn o f
  obtain ⟨e, t, hr, he, ht⟩ := hraised.raises
  refine ⟨limit, e, t, hlimit, hr, ?_, he, ht⟩
  rw [run_step hopening]
  refine closing_congr ?_
  rw [run_catching, hattempt]
  dsimp only
  rw [recordFailure_eq]
  exact run_bind_error hr

/-- How a step without a deadline ends whose failure the run takes. -/
theorem Breaks.kept (h : rt.Breaks world objective grants s₀ o f s₂) (hu : Untimed s₀.store)
    (hw : Writable s₂.store) :
    ∃ t, (rt.diagnose o f).run (Scene.answer world) s₂ = (.ok (), t) ∧
      (rt.step objective grants).run (Scene.answer world) s₀ = (.error f.2, t.ask world .release) ∧
        Writable t.store := by
  obtain ⟨limit, t, hlimit, hr, hstep, ht⟩ := h.recorded hu hw
  obtain rfl : limit = none := by simpa using hlimit
  exact ⟨t, hr, hstep.trans (run_closing rfl), ht⟩

end Runtime

/-! ## The handler of a session -/

theorem dated_sitting (q : Req ⊕ Prompt) (s : Sitting) (h : Dated deadline s.scene.store) :
    Dated deadline (Sitting.answer world cues q s).2.scene.store := by
  cases q with
  | inl q => exact dated_answer q s.scene h
  | inr p =>
    change Dated deadline (if p.yields then s.scene.store.after _ else s.scene.store)
    obtain ⟨b, hb⟩ := id h
    split
    · exact ⟨_, boundAt_after hb _⟩
    · exact h

/-- What each change keeps of the tables, an answer keeps. -/
theorem sitting_keeps {I : Tables → Prop}
    (hI : ∀ handle clock t c t', I t → Change handle clock t c t' → I t')
    (q : Req ⊕ Prompt) (s : Sitting) (h : I s.scene.store.db) :
    I (Sitting.answer world cues q s).2.scene.store.db := by
  rcases q with (c | a) | p
  · exact call_keeps hI h c
  · exact meanwhile_keeps hI h a
  · exact prompt_keeps hI h p

theorem sitting_grows {n : Nat} (q : Req ⊕ Prompt) (s : Sitting)
    (h : n ≤ s.scene.store.db.completedOperations) :
    n ≤ (Sitting.answer world cues q s).2.scene.store.db.completedOperations :=
  sitting_keeps (I := fun t => n ≤ t.completedOperations)
    (fun _ _ _ _ _ hb hc => change_grows hc hb) q s h

namespace Session

variable {frame : Nat × Option ℚ} {k : Nat} {carry : Carry} {u v u₀ u₁ : Sitting}

/-- What the handler of `execute` records, before it raises the exception again. -/
def record (baseline : Nat) (error : Exn) : Act Unit := do
  let completed ← calls .completedOperations
  let termination ← Prog.ofExcept
    (TerminationFields.create ⟨kindOf error, ofString error.typeName, (completed : Int) - baseline⟩)
  let _ ← calls (.finish (.typed termination.recorded))
  return ()

theorem conclude_eq {α : Type} (baseline : Nat) (e : Exn) :
    (conclude baseline e : Act α) = record baseline e >>= fun _ => Prog.raise e := by
  unfold conclude record
  rw [bind_bind]
  congr 1
  funext completed
  rw [bind_bind]
  congr 1
  funext termination
  generalize termination.recorded = text
  rw [bind_bind]
  rfl

theorem finish_raises (outcome : Dyn String) : (SQLiteRun.finish outcome).Raises Ordinary := by
  intro self e he
  unfold SQLiteRun.finish at he
  split at he
  · split at he
    · exact Method.raises_raise (P := Ordinary) ⟨⟨rfl, rfl⟩, rfl, rfl⟩ self e he
    · exact transaction_raises ⟨⟨rfl, rfl⟩, rfl, rfl⟩
        (fun _ => Txn.raises_bind requireOpen_raises fun _ => Txn.raises_modify _) self e he
  · exact Method.raises_raise (P := Ordinary) ⟨⟨rfl, rfl⟩, rfl, rfl⟩ self e he

/-- The handler comes to its raise in a run that takes a record, if the class of the
exception has a name. -/
theorem record_returns {n : Nat} (h : Writable u.scene.store)
    (hn : n ≤ u.scene.store.db.completedOperations) (he : blank e.typeName = false) :
    Acts world cues (record n e) u (Results (fun _ s' => ∃ t : SessionTermination,
      s'.scene.store.db.run.outcome = some t.recorded ∧ t.kind = kindOf e ∧
        t.reason = ofString e.typeName)
        fun _ _ => False) := by
  obtain ⟨handle, hh⟩ := Option.isSome_iff_exists.mp h.live
  have hans : Call.completedOperations.answer (world u.scene.turn).clock u.scene.store =
      .ok u.scene.store.db.completedOperations := congrArg Prod.fst (query_of_live hh)
  have hstore : (u.call world .completedOperations).scene.store = u.scene.store :=
    reads_store rfl u.scene
  have haccepted : (⟨kindOf e, ofString e.typeName,
      (u.scene.store.db.completedOperations : Int) - n⟩ :
      TerminationFields).postInit = none := by
    have hcount : ¬ (u.scene.store.db.completedOperations : Int) - n < 0 := by omega
    simp [TerminationFields.postInit, he, hcount]
  unfold record
  refine plays_after (G := fun m s' => m = u.scene.store.db.completedOperations ∧
    u.call world .completedOperations = s') (acts_calls ?_) fun m s₁ hms => ?_
  · rw [hans]
    exact ⟨rfl, rfl⟩
  obtain ⟨hm, hs⟩ := hms
  subst hm hs
  refine plays_after (G := fun t s' => u.call world .completedOperations = s' ∧
    t.kind = kindOf e ∧ t.reason = ofString e.typeName) (plays_ret ?_) fun t s₁ hts => ?_
  · rw [create_ok_of haccepted]
    exact ⟨rfl, rfl, rfl⟩
  have hs : u.call world .completedOperations = s₁ := hts.1
  have hkind : t.kind = kindOf e := hts.2.1
  have hreason : t.reason = ofString e.typeName := hts.2.2
  subst hs
  have htext := recorded_named t
  -- the text of the record is never looked into
  generalize hjson : t.recorded = text at htext ⊢
  have hch : Change handle (world (u.call world .completedOperations).scene.turn).clock
      (u.call world .completedOperations).scene.store.db (.finish (.typed text)) _ :=
    .finish (by rw [hstore]; exact h.unended) htext
  obtain ⟨hok, hs⟩ := call_commits ((congrArg SQLiteRun.handle hstore).trans hh) hch rfl
  refine plays_after (G := fun _ s' => s'.scene.store.db.run.outcome = some text)
    (acts_calls (results_any (fun _ _ => ?_) fun e he => ?_))
    fun _ _ houtcome => plays_value ⟨t, hjson ▸ houtcome, hkind, hreason⟩
  · exact congrArg (fun run : SQLiteRun => run.db.run.outcome) hs
  · rw [he] at hok
    cases hok

theorem create_named {f : TerminationFields} {t : SessionTermination} (h : f.create = .ok t) :
    blankText f.reason = false := by
  rw [create_termination_iff.mp h]
  have haccepted := t.accepted
  unfold TerminationFields.postInit at haccepted
  by_contra hb
  rw [if_pos (by simpa using hb)] at haccepted
  cases haccepted

/-- Otherwise it raises what the store or the constructor of the termination raises. -/
theorem record_raises {n : Nat} {e : Exn}
    (h : Writable u.scene.store → blank e.typeName = true) :
    Acts world cues (record n e) u
      (Results (fun _ _ => False) fun e' _ => Ordinary e') := by
  unfold record
  refine plays_then (G := fun _ s' => Writable s'.scene.store → blank e.typeName = true)
    (acts_calls (results_any (fun _ _ hw => ?_) fun e he => ?_)) fun m s₁ h₁ => ?_
  · by_contra hn
    exact not_writable_call (s := u.scene) (fun hu => hn (h hu)) (by simp) (by simp) hw
  · exact query_raises (P := Ordinary) ⟨⟨rfl, rfl⟩, rfl, rfl⟩ (fun _ _ h => by cases h) _ _ he
  refine plays_then (G := fun _ s' => ¬ Writable s'.scene.store) (plays_ret (results_any
    (fun t ht hw => ?_) fun e he => ?_)) fun t s₂ h₂ => ?_
  · have hnamed := create_named ht
    rw [blankText_ofString] at hnamed
    rw [h₁ hw] at hnamed
    cases hnamed
  · unfold TerminationFields.create at he
    split at he
    · cases he
    · cases he
      exact ⟨⟨rfl, rfl⟩, rfl, rfl⟩
  generalize t.recorded = text
  refine plays_then (G := fun _ _ => False) (acts_calls (results_any (fun _ hans => h₂ ?_)
    fun e he => finish_raises _ _ _ he)) fun _ _ hf => hf.elim
  obtain ⟨handle, hh, hch⟩ := call_changes rfl hans
  generalize (s₂.scene.call world _).store.db = t' at hch
  cases hch with
  | finish unended => exact ⟨by rw [hh]; rfl, unended⟩

/-- The handler that comes to its raise has recorded the exception. -/
theorem recorded {n : Nat} (h : (record n e).run (Sitting.answer world cues) u = (.ok (), v)) :
    Writable u.scene.store ∧ blank e.typeName = false := by
  by_contra hn
  have hraised : Acts world cues (record n e) u _ :=
    record_raises fun hw => by simpa [hw] using hn
  obtain ⟨e', _, hr, -⟩ := hraised.raises
  rw [h] at hr
  cases hr

/-- A session without a deadline raises what its last turn raised, once it is recorded. -/
theorem run_closing {n : Nat}
    (h : (record n e).run (Sitting.answer world cues) u = (.ok (), v)) :
    (closing (n, none) (Prog.raise e)).run (Sitting.answer world cues) u =
      (.error e, v.prompt cues .unlock) := by
  have hexpiring : ((Prog.raise e : Act (Option SessionTermination)).catching
      (expiring none)).run (Sitting.answer world cues) u = (.error e, u) := by
    rw [run_catching]
    simp only [Prog.raise, Prog.run, expiring, Option.isSome_none, Bool.and_false,
      Bool.false_eq_true, if_false]
  have hconclude : (conclude n e : Act (Option SessionTermination)).run
      (Sitting.answer world cues) u = (.error e, v) := by
    rw [conclude_eq]
    exact run_bind_of h
  unfold closing finally_
  rw [run_bind, run_catching, run_catching, hexpiring]
  dsimp only
  rw [hconclude]
  rfl

/-- What every answer keeps, the turns of a session keep. -/
theorem Reaches.keeps {I : Sitting → Prop} (h : sn.Reaches world cues u₀ frame k carry u)
    (hI : ∀ q s, I s → I (Sitting.answer world cues q s).2) (h₀ : I u₀) : I u := by
  induction h with
  | first h => exact run_keeps hI h₀ h
  | next h hturn ih => exact run_keeps hI (ih) hturn

/-- What a session has opened. -/
theorem opening_opens (h : opening.run (Sitting.answer world cues) u₀ = (.ok frame, u))
    (hu : Dated deadline u₀.scene.store) :
    frame.2.isSome = deadline.isSome ∧ frame.1 ≤ u.scene.store.db.completedOperations := by
  obtain ⟨locked, s₁, h₁, h⟩ := run_bind_ok h
  obtain ⟨_, s₂, h₂, h⟩ := run_bind_ok h
  obtain ⟨outcome, s₃, h₃, h⟩ := run_bind_ok h
  obtain ⟨_, s₄, h₄, h⟩ := run_bind_ok h
  obtain ⟨pending, s₅, h₅, h⟩ := run_bind_ok h
  obtain ⟨_, s₆, h₆, h⟩ := run_bind_ok h
  obtain ⟨baseline, s₇, h₇, h⟩ := run_bind_ok h
  obtain ⟨_, s₈, h₈, h⟩ := run_bind_ok h
  obtain ⟨limit, s₉, h₉, h⟩ := run_bind_ok h
  cases h
  have hkeep : ∀ {α : Type} {x : Act α} {r : Except Exn α} {s s' : Sitting},
      Dated deadline s.scene.store → x.run (Sitting.answer world cues) s = (r, s') →
        Dated deadline s'.scene.store :=
    fun hs hr => run_keeps (I := fun s => Dated deadline s.scene.store) dated_sitting hs hr
  have hu₈ := hkeep (hkeep (hkeep (hkeep (hkeep (hkeep (hkeep (hkeep hu h₁) h₂) h₃) h₄) h₅) h₆)
    h₇) h₈
  refine ⟨dated_limit hu₈ (congrArg Prod.fst h₉), ?_⟩
  have hbaseline : baseline = s₆.scene.store.db.completedOperations :=
    ((query_answer (congrArg Prod.fst h₇)).2 |> Except.ok.inj).symm
  have hgrow : ∀ {α : Type} {x : Act α} {r : Except Exn α} {s s' : Sitting},
      baseline ≤ s.scene.store.db.completedOperations →
        x.run (Sitting.answer world cues) s = (r, s') →
          baseline ≤ s'.scene.store.db.completedOperations :=
    fun hs hr => run_keeps (I := fun s => baseline ≤ s.scene.store.db.completedOperations)
      sitting_grows hs hr
  exact hgrow (hgrow (hgrow hbaseline.le h₇) h₈) h₉

theorem Reaches.opens (h : sn.Reaches world cues u₀ frame k carry u)
    (hu : Dated deadline u₀.scene.store) :
    frame.2.isSome = deadline.isSome ∧ frame.1 ≤ u.scene.store.db.completedOperations := by
  induction h with
  | first h => exact opening_opens h hu
  | next h hturn ih =>
    exact ⟨(ih).1, run_keeps (I := fun s => frame.1 ≤ s.scene.store.db.completedOperations)
      sitting_grows (ih).2 hturn⟩

/-! ## A rejection that is handed over -/

end Session

/-! ## Every failure -/

/-- The request that the sample runtime starts with. -/
def sampleStarted : InferenceRequest where
  objective := "goal"
  base := ⟨0, "draft"⟩
  allowedTools := ["act"]
  tools := sampleRuntime.tools.specifications ["act"]

theorem breaks_of {request : InferenceRequest} {objective : String}
    {grants : Option (List String)} {limit : Option ℚ}
    (ho : ((rt.opening objective grants).run (Scene.answer world) s₀).1 = .ok (limit, o, request))
    (ha : ((rt.attempt o request).run (Scene.answer world)
      ((rt.opening objective grants).run (Scene.answer world) s₀).2).1 = .error f) :
    rt.Breaks world objective grants s₀ o f ((rt.attempt o request).run (Scene.answer world)
      ((rt.opening objective grants).run (Scene.answer world) s₀).2).2 :=
  ⟨limit, request, _, Prod.ext ho rfl, Prod.ext ha rfl⟩

end FlynnAgents
