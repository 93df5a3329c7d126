-- The record of a session. When nobody else writes to the run, the two counters
-- of `execute` agree: what a view shows and what the end records is the number
-- of operations that were completed meanwhile.
import FlynnAgents.Sitting
import FlynnAgents.StepTrace

namespace FlynnAgents

open Programs Relational
open Text (ofString)

variable {world : Nat → Beat} {cues : Nat → Cue} {s : Sitting} {c : Call} {p : Prompt}
  {before : Tables} {n : Nat} {sn : Session}

/-! ## Counting -/

/-- The number of operations that are completed in `t'` and were not in `t`. -/
def Tables.completedSince (t t' : Tables) : Nat :=
  t'.operations.rows.countP fun row => decide (row.stage = .completed) &&
    !(t.operation? row.id).any fun old => decide (old.stage = .completed)

theorem completedSince_eq {t t' : Tables} (h : ∀ id, t.Completed id → t'.Completed id) :
    t'.completedOperations = t.completedOperations + t.completedSince t' := by
  refine Table.countP_since fun id hid => ?_
  simp only [Option.any_eq_true, decide_eq_true_eq] at hid ⊢
  exact h id hid

/-- The view shows the state, the observation and the count of the file. -/
structure Current (before t : Tables) (v : SessionView) : Prop where
  state : v.state = t.read
  observation : v.observation = t.latestObservation
  completed : v.completedSteps = before.completedSince t

/-- The view that a prompt hands over. -/
def Prompt.view? : Prompt → Option SessionView
  | .policy view => some view
  | .onRejection _ view => some view
  | _ => none

/-- Every view was current when it was handed over. -/
def Shown (before : Tables) (heard : List Heard) : Prop :=
  ∀ h ∈ heard, ∀ v, h.prompt.view? = some v → Current before h.scene.store.db v

/-! ## The counters of a session -/

/-- Since the tables `before`, `n` operations were completed, in a run that goes on. -/
structure Counted (before : Tables) (n : Nat) (s : Sitting) : Prop where
  steady : Steady s.scene
  running : s.scene.store.db.run.outcome = none
  stays : ∀ id, before.Completed id → s.scene.store.db.Completed id
  count : s.scene.store.db.completedOperations = before.completedOperations + n
  shown : Shown before s.heard

theorem Counted.since (h : Counted before n s) : before.completedSince s.scene.store.db = n := by
  have := completedSince_eq h.stays
  have := h.count
  omega

/-- The run has ended with the termination, which counts what was completed. -/
structure Closed (before : Tables) (termination : SessionTermination) (s : Sitting) : Prop where
  outcome : s.scene.store.db.run.outcome = some termination.recorded
  completed : termination.completedSteps = before.completedSince s.scene.store.db
  shown : Shown before s.heard

/-- A call that only reads leaves the counters. -/
theorem Counted.reads (h : Counted before n s) (hr : c.onlyReads = true) :
    Counted before n (s.call world c) := by
  have hstore : (s.call world c).scene.store = s.scene.store := reads_store hr s.scene
  obtain ⟨hc, ho⟩ := onlyReads_open hr
  refine ⟨h.steady.call hc ho, ?_, ?_, ?_, h.shown⟩
  · exact hstore ▸ h.running
  · exact hstore ▸ h.stays
  · exact hstore ▸ h.count

theorem prompt_scene (hc : Silent cues) (s : Sitting) (p : Prompt) :
    (s.prompt cues p).scene = s.scene := by
  unfold Sitting.prompt
  simp only [after_onlyReads (hc s.heard.length), ite_self]

theorem shown_prompt (h : Shown before s.heard)
    (hv : ∀ v, p.view? = some v → Current before s.scene.store.db v) :
    Shown before (s.prompt cues p).heard := by
  intro i hi
  rcases List.mem_append.mp hi with hi | hi
  · exact h i hi
  · rw [List.mem_singleton.mp hi]
    exact hv

/-- A prompt leaves the counters, if the view that it hands over is current. -/
theorem Counted.prompt (h : Counted before n s) (hc : Silent cues)
    (hv : ∀ v, p.view? = some v → Current before s.scene.store.db v) :
    Counted before n (s.prompt cues p) := by
  have hscene := prompt_scene hc s p
  refine ⟨?_, ?_, ?_, ?_, shown_prompt h.shown hv⟩
  · exact hscene ▸ h.steady
  · exact hscene ▸ h.running
  · exact hscene ▸ h.stays
  · exact hscene ▸ h.count

/-! ## The parts of a session -/

/-- A step completes one operation when it returns, and none when its runtime certifies the
rejection that it raises. -/
theorem Course.gains {rt : Runtime} {base scene : Scene} {r : Except Exn StepResult}
    (h : Course rt world base r scene) :
    ∃ k, scene.store.db.completedOperations = base.store.db.completedOperations + k ∧
      (∀ result, r = .ok result → k = 1) ∧
      ∀ e, r = .error e → scene.rejected = some e → k = 0 := by
  cases h with
  | waited hu | unstarted hu => exact ⟨0, hu.completed, by simp, by simp⟩
  | finished hf =>
    obtain ⟨name, hp⟩ := hf
    exact ⟨1, by simpa using hp.completed, by simp, by simp⟩
  | @stopped o f e _ hs =>
    obtain ⟨marks, stage, -, -, -, hst⟩ := hs.stand
    obtain ⟨marks', hstand⟩ : ∃ marks', Stand base o marks' stage.afterFailure scene :=
      hst.elim (fun h => ⟨_, h⟩) fun h => ⟨_, h.1⟩
    refine ⟨_, hstand.completed, by simp, ?_⟩
    rintro e' he hr
    rcases hs.rejected with hn | ⟨-, -, -, hat⟩
    · rw [hn] at hr
      cases hr
    · rw [at_unique hstand.stands hat]
      simp

/-- A step goes on counting. -/
theorem Counted.step (h : Counted before n s) (hw : Quiet world) (rt : Runtime)
    (objective : String) (grants : Option (List String)) :
    Acts world cues (rt.step objective grants).embed s fun r s' =>
      ∃ k, Counted before (n + k) s' ∧ (∀ result, r = .ok result → k = 1) ∧
        ∀ e, r = .error e → s'.scene.rejected = some e → k = 0 := by
  have hcourse := h.steady.step hw.onlyFinishes rt objective grants
  have houtcome := plays_outcome (s := s.scene) hw
    (@Runtime.wp_step rt objective grants)
  have hstays : Plays world (rt.step objective grants) s.scene fun _ scene =>
      ∀ id, before.Completed id → scene.store.db.Completed id := by
    refine plays_scene (I := fun scene => ∀ id, before.Completed id → scene.store.db.Completed id)
      (fun _ c hi id hid => ?_) (fun _ a hi id hid => ?_) h.stays
    · exact call_keeps (I := fun t => t.Completed id)
        (fun _ _ _ _ _ hd hc => (hc.completed_iff id).mpr (.inl hd)) (hi id hid) c
    · exact meanwhile_keeps (I := fun t => t.Completed id)
        (fun _ _ _ _ _ hd hc => (hc.completed_iff id).mpr (.inl hd)) (hi id hid) a
  refine acts_step (plays_weaken (plays_and hcourse (plays_and houtcome hstays)) ?_)
  rintro r scene ⟨hc, ho, hs⟩
  obtain ⟨k, hk, hok, herror⟩ := hc.gains
  refine ⟨k, ⟨hc.steady, ho.trans h.running, hs, ?_, h.shown⟩, hok, herror⟩
  have := h.count
  change scene.store.db.completedOperations = _
  omega

theorem Counted.checkReady (h : Counted before n s) :
    Acts world cues Session.checkReady s
      (Results (fun _ s' => Counted before n s') fun _ s' => Counted before n s') := by
  unfold Session.checkReady
  refine plays_then (G := fun _ s' => Counted before n s') (acts_calls (results_any ?_ ?_))
    fun _ s₁ h₁ => plays_then (G := fun _ s' => Counted before n s')
      (acts_calls (results_any ?_ ?_))
      fun _ s₂ h₂ => plays_raiseIf (fun _ => h₂) fun _ => h₂
  · exact fun _ _ => h.reads rfl
  · exact fun _ _ => h.reads rfl
  · exact fun _ _ => h₁.reads rfl
  · exact fun _ _ => h₁.reads rfl

/-- A call that only reads is answered from the file. -/
theorem Counted.asks (h : Counted before n s) (hr : c.onlyReads = true) {v : c.Result}
    (hv : ∀ clock, c.answer clock s.scene.store = .ok v) :
    Acts world cues (calls c) s (Results (fun v' s' => v' = v ∧ Counted before n s' ∧
      s'.scene.store = s.scene.store) fun _ _ => False) := by
  refine acts_calls ?_
  rw [hv]
  exact ⟨rfl, h.reads hr, reads_store hr s.scene⟩

/-- The view of a turn is current. -/
theorem Counted.view {carry : Session.Carry} (h : Counted before carry.count s) :
    Acts world cues (Session.view carry) s
      (Results (fun v s' => Counted before carry.count s' ∧ Current before s'.scene.store.db v)
        fun _ _ => False) := by
  obtain ⟨handle, hlive⟩ := Option.isSome_iff_exists.mp h.steady.live
  unfold Session.view
  refine plays_then (h.asks (c := .read) rfl fun _ => congrArg Prod.fst (query_of_live hlive))
    fun state s₁ ⟨hstate, h₁, hs₁⟩ => ?_
  have hlive₁ : s₁.scene.store.handle = some handle := hs₁ ▸ hlive
  refine plays_then (h₁.asks (c := .latestObservation) rfl fun _ =>
    congrArg Prod.fst (query_of_live hlive₁)) fun observation s₂ ⟨hobservation, h₂, hs₂⟩ => ?_
  refine plays_value ⟨h₂, ⟨?_, ?_, h₂.since.symm⟩⟩
  · rw [hs₂, hs₁]
    exact hstate
  · rw [hs₂]
    exact hobservation

/-- A callback without a view leaves the counters. -/
theorem Counted.callback {α : Type} {r : p.Answer → Except Exn α} (h : Counted before n s)
    (hc : Silent cues) (hv : ∀ v, p.view? = some v → Current before s.scene.store.db v) :
    Acts world cues (.ask (.inr p) fun x => .ret (r x)) s
      (Results (fun _ s' => Counted before n s') fun _ s' => Counted before n s') :=
  acts_callback (fun _ _ => h.prompt hc hv) fun _ _ => h.prompt hc hv

theorem Counted.decision {carry : Session.Carry} (h : Counted before carry.count s)
    (hc : Silent cues) :
    Acts world cues (Session.decision carry) s
      (Results (fun _ s' => Counted before carry.count s') fun _ s' =>
        Counted before carry.count s') := by
  unfold Session.decision
  split
  · exact plays_value h
  · refine plays_after h.view
      fun v s₁ ⟨h₁, hv⟩ => ?_
    refine h₁.callback (p := .policy v) hc fun v' he => ?_
    cases he
    exact hv

/-- A termination whose text can be recorded. -/
theorem recorded_named (t : SessionTermination) : blank t.recorded = false := by
  unfold blank SessionTermination.recorded Text.chars
  rw [String.toList_ofList]
  rfl

/-- An end can be recorded in a run that goes on. -/
theorem Counted.ends (h : Counted before n s) {text : String} (ht : blank text = false) :
    Acts world cues (calls (.finish (.typed text))) s
      (Results (fun _ s' => s'.scene.store.db.run.outcome = some text ∧
        before.completedSince s'.scene.store.db = n ∧ Shown before s'.heard) fun _ _ => False) := by
  obtain ⟨handle, hlive⟩ := Option.isSome_iff_exists.mp h.steady.live
  have hch : Change handle (world s.scene.turn).clock s.scene.store.db (.finish (.typed text)) _ :=
    .finish h.running ht
  obtain ⟨hok, hstore⟩ := call_commits hlive hch rfl
  have hdb : (s.call world (.finish (.typed text))).scene.store.db =
      { s.scene.store.db with run := { s.scene.store.db.run with outcome := some text } } :=
    congrArg SQLiteRun.db hstore
  refine acts_calls (results_any (fun _ _ => ⟨by rw [hdb], ?_, h.shown⟩) fun e he => ?_)
  · rw [hdb, ← h.since]
    rfl
  · rw [he] at hok
    cases hok

theorem Counted.finish (h : Counted before n s) {t : SessionTermination}
    (ht : t.completedSteps = (n : Int)) :
    Acts world cues (calls (.finish (.typed t.recorded))) s
      (Results (fun _ s' => Closed before t s') fun _ _ => False) := by
  refine plays_mono (h.ends (recorded_named t)) (fun _ s' hs => ⟨hs.1, ?_, hs.2.2⟩) fun _ _ hf => hf
  rw [ht, hs.2.1]

theorem create_ok_of {f : TerminationFields} (h : f.postInit = none) :
    f.create = .ok ⟨f, h⟩ := create_termination_iff.mpr rfl

theorem Counted.stop {carry : Session.Carry} (h : Counted before carry.count s)
    (decision : SessionStop) :
    Acts world cues (Session.stop carry decision) s
      (Results (fun t s' => Closed before t s') fun _ _ => False) := by
  have hreason : blank decision.reason = false := by
    have := decision.accepted
    unfold StopFields.postInit at this
    by_cases hb : blank decision.reason = true
    · simp [hb] at this
    · simpa using hb
  have haccepted : (⟨.stopped, ofString decision.reason, carry.count⟩ :
      TerminationFields).postInit = none := by
    simp [TerminationFields.postInit, hreason]
  unfold Session.stop
  refine plays_then (G := fun t s' => s' = s ∧ t.completedSteps = (carry.count : Int))
    (plays_ret ?_) ?_
  · rw [create_ok_of haccepted]
    exact ⟨rfl, rfl⟩
  · rintro t _ ⟨rfl, ht⟩
    -- the text of the record is never looked into
    have hfin : Acts world cues _ _ _ := h.finish ht
    generalize t.recorded = text at hfin ⊢
    exact plays_then hfin fun _ s₁ h₁ => plays_value h₁

theorem create_refused {f : TerminationFields} (h : blankText f.reason = true) :
    f.create = .error (contractError "Session termination requires a reason") := by
  have hf : f.postInit = some "Session termination requires a reason" := by
    unfold TerminationFields.postInit
    rw [if_pos h]
  unfold TerminationFields.create
  split
  · rename_i hn
    rw [hf] at hn
    cases hn
  · rename_i message hm
    rw [hf] at hm
    cases hm
    rfl

/-- The handler of `execute` records nothing of an exception whose class has no name, and
raises another one. -/
theorem acts_nameless {α : Type} {e : Exn} (he : blank e.typeName = true) (baseline : Nat)
    (hlive : s.scene.store.handle.isSome = true) :
    Acts world cues (Session.conclude (α := α) baseline e) s
      (Results (fun _ _ => False) fun e' s' =>
      e' = contractError "Session termination requires a reason" ∧
        s' = s.call world .completedOperations) := by
  obtain ⟨handle, hlive⟩ := Option.isSome_iff_exists.mp hlive
  have hanswer : Call.completedOperations.answer (world s.scene.turn).clock s.scene.store =
      .ok s.scene.store.db.completedOperations := congrArg Prod.fst (query_of_live hlive)
  unfold Session.conclude
  refine plays_then (G := fun _ s' => s' = s.call world .completedOperations)
    (acts_calls ?_) fun completed s₁ hs => ?_
  · rw [hanswer]
    exact rfl
  · rw [create_refused ((blankText_ofString _).trans he)]
    exact ⟨rfl, hs⟩

/-- The handler of `execute` records the kind of the exception, and raises it. -/
theorem Counted.conclude {α : Type} (h : Counted before n s) {e : Exn}
    (he : blank e.typeName = false) :
    Acts world cues (Session.conclude (α := α) before.completedOperations e) s
      (Results (fun _ _ => False) fun e' s' => e' = e ∧ ∃ t, Closed before t s' ∧
        t.kind = Session.kindOf e ∧ t.reason = ofString e.typeName) := by
  obtain ⟨handle, hlive⟩ := Option.isSome_iff_exists.mp h.steady.live
  unfold Session.conclude
  refine plays_after (h.asks (c := .completedOperations) rfl fun _ =>
    congrArg Prod.fst (query_of_live hlive)) ?_
  rintro _ s₁ ⟨rfl, h₁, -⟩
  rw [h.count]
  have haccepted : (⟨Session.kindOf e, ofString e.typeName,
      ((before.completedOperations + n : Nat) : Int) - before.completedOperations⟩ :
        TerminationFields).postInit = none := by
    simp [TerminationFields.postInit, he]
  refine plays_then (G := fun t s' => s' = s₁ ∧ t.completedSteps = (n : Int) ∧
    t.kind = Session.kindOf e ∧ t.reason = ofString e.typeName) (plays_ret ?_)
    fun t s₂ ⟨hs, ht, hkind, hreason⟩ => ?_
  · rw [create_ok_of haccepted]
    exact ⟨rfl, by simp, rfl, rfl⟩
  · subst hs
    have hfin : Acts world cues _ _ _ := h₁.finish ht
    generalize t.recorded = text at hfin ⊢
    exact plays_after hfin
      fun _ s₃ h₃ => plays_raise ⟨rfl, t, h₃, hkind, hreason⟩

/-- After a turn the session has stopped, or it goes on counting. -/
def Proceeds (before : Tables) : SessionTermination ⊕ Session.Carry → Sitting → Prop
  | .inl t, s => Closed before t s
  | .inr carry, s => Counted before carry.count s

/-- A rejection that the runtime certifies is corrected, and nothing was completed. -/
theorem Counted.correct {carry : Session.Carry} {e : Exn} {k : Nat}
    (h : Counted before (carry.count + k) s) (hc : Silent cues)
    (hk : s.scene.rejected = some e → k = 0) :
    Acts world cues (sn.correct carry e) s
      (Results (fun carry s' => Counted before carry.count s') fun _ s' =>
        ∃ n, Counted before n s') := by
  unfold Session.correct
  refine plays_check (fun _ => ⟨_, h⟩) fun _ => ?_
  refine plays_check (fun _ => ⟨_, h⟩) fun _ => ?_
  have h₁ := h.prompt (p := .rejected) hc fun _ he => by cases he
  refine plays_then (G := fun r s' => r = s.scene.rejected ∧ s' = s.prompt cues .rejected)
    (acts_prompted ⟨rfl, rfl⟩) ?_
  rintro _ _ ⟨rfl, rfl⟩
  refine plays_check (fun _ => ⟨_, h₁⟩) fun hr => ?_
  rw [hk (not_not.mp hr), Nat.add_zero] at h₁
  refine plays_then (plays_raised h₁.checkReady fun _ _ hp => ⟨_, hp⟩)
    fun _ s₂ h₂ => ?_
  refine plays_after h₂.view
    fun v s₃ ⟨h₃, hv⟩ => ?_
  refine plays_then (G := fun _ s' => Counted before carry.count s') ?_ fun d s₄ h₄ => ?_
  · refine plays_raised
      (h₃.callback (p := .onRejection e v) hc fun v' he => ?_) fun _ _ hp => ⟨_, hp⟩
    cases he
    exact hv
  · cases d with
    | other => exact plays_raise ⟨_, h₄⟩
    | typed d => exact plays_value h₄

theorem Counted.turn {carry : Session.Carry} (h : Counted before carry.count s)
    (hw : Quiet world) (hc : Silent cues) :
    Acts world cues (sn.turn carry) s
      (Results (Proceeds before) fun _ s' => ∃ n, Counted before n s') := by
  unfold Session.turn
  refine plays_then (plays_raised (h.decision hc) fun _ _ hp => ⟨_, hp⟩)
    fun d s₁ h₁ => ?_
  refine plays_then (plays_raised h₁.checkReady fun _ _ hp => ⟨_, hp⟩)
    fun _ s₂ h₂ => ?_
  split
  · exact plays_raise ⟨_, h₂⟩
  · rename_i stop
    have hstop : Acts world cues (Session.stop { carry with correction := none } stop) s₂ _ :=
      Counted.stop h₂ stop
    exact plays_after hstop
      fun t s₃ h₃ => plays_value h₃
  · rename_i step
    refine plays_then (plays_attempted (h₂.step hw sn.runtime step.objective (some step.grants)))
      fun r s₃ ⟨k, h₃, hok, herror⟩ => ?_
    cases r with
    | error e =>
      have hcorrect : Acts world cues (sn.correct { carry with correction := none } e) s₃ _ :=
        Counted.correct h₃ hc (herror e rfl)
      exact plays_then hcorrect fun carry' s₄ h₄ => plays_value h₄
    | ok result =>
      cases hok result rfl
      dsimp only
      split
      · refine plays_then (plays_raised
          (h₃.callback (p := .onStep result) hc fun _ he => by cases he)
          fun _ _ hp => ⟨_, hp⟩) fun _ s₄ h₄ => plays_value h₄
      · exact plays_value h₃

/-- How the loop ends: it has stopped, it goes on, or it was left by an exception. -/
def Looped (before : Tables) (r : Option SessionTermination) (s : Sitting) : Prop :=
  match r with
  | some t => Closed before t s
  | none => ∃ n, Counted before n s

theorem Counted.loop (hw : Quiet world) (hc : Silent cues) (fuel : Nat) :
    ∀ {carry : Session.Carry} {s : Sitting}, Counted before carry.count s →
      Acts world cues (sn.loop fuel carry) s
        (Results (Looped before) fun _ s' => ∃ n, Counted before n s') := by
  induction fuel with
  | zero =>
    intro carry s h
    exact plays_value ⟨_, h⟩
  | succ fuel ih =>
    intro carry s h
    refine plays_then (h.turn hw hc) fun next s₁ h₁ => ?_
    cases next with
    | inl t => exact plays_value h₁
    | inr carry => exact ih h₁

/-! ## The record -/

theorem Closed.prompt {t : SessionTermination} (h : Closed before t s) (hc : Silent cues)
    (hv : p.view? = none) : Closed before t (s.prompt cues p) := by
  have hscene := prompt_scene hc s p
  refine ⟨?_, ?_, shown_prompt h.shown fun v he => ?_⟩
  · exact hscene ▸ h.outcome
  · exact hscene ▸ h.completed
  · rw [hv] at he
    cases he

/-- The end of the session is recorded: the run has the termination that `execute`
returns, or the kind and the type of the exception that it raises, with the number
of operations that were completed meanwhile. -/
def EndRecorded (before : Tables) (r : Except Exn (Option SessionTermination)) (s : Sitting) :
    Prop :=
  ∃ t : SessionTermination, s.scene.store.db.run.outcome = some t.recorded ∧
    t.completedSteps = before.completedSince s.scene.store.db ∧
    (∀ t', r = .ok (some t') → t' = t) ∧
    ∀ e, r = .error e → t.kind = Session.kindOf e ∧ t.reason = ofString e.typeName

/-- How the session ends after its `try` was left with `r`. -/
def Concluded (before : Tables) (r r' : Except Exn (Option SessionTermination))
    (s : Sitting) : Prop :=
  Shown before s.heard ∧ match r with
    | .ok none => r' = .ok none
    | .ok (some _) => EndRecorded before r' s
    | .error e => if blank e.typeName = true then s.scene.store.db.run.outcome = none
      else EndRecorded before r' s

/-- The `try` of `execute`. -/
theorem Counted.tried (h : Counted before 0 s) (hw : Quiet world) (hc : Silent cues)
    (fuel : Nat) :
    Acts world cues (sn.tried fuel) s
      (Results (Looped before) fun _ s' => ∃ n, Counted before n s') := by
  have hnone : ∀ {n : Nat} {s' : Sitting} (e : Exn), Counted before n s' →
      Counted before n (s'.prompt cues (.expired e)) :=
    fun e h => h.prompt hc fun _ he => by cases he
  unfold Session.tried
  refine plays_then (plays_raised h.checkReady fun _ _ hp => ⟨_, hp⟩) fun _ s₁ h₁ => ?_
  have hloop : Acts world cues (sn.loop fuel {}) (s₁.call world .secondsRemaining) _ :=
    Counted.loop hw hc fuel (h₁.reads rfl)
  refine acts_timeout hloop ?_
  rintro e s₂ ⟨n, h₂⟩
  exact ⟨⟨n, hnone e h₂⟩, n, hnone e h₂⟩

/-- The `try` of `execute` with its handler. -/
theorem Counted.guarded (h : Counted before 0 s) (hw : Quiet world) (hc : Silent cues)
    (fuel : Nat) {r : Except Exn (Option SessionTermination)} {s₁ : Sitting}
    (hr : (sn.tried fuel).run (Sitting.answer world cues) s = (r, s₁)) :
    Acts world cues ((sn.tried fuel).catching (Session.conclude before.completedOperations)) s
      fun r' s' => Concluded before r r' s' := by
  have htried : (sn.tried fuel).Plays (Sitting.answer world cues) s _ := h.tried hw hc fuel
  refine plays_catching (Q := fun r₀ s₀ => (r₀ = r ∧ s₀ = s₁) ∧ Results (Looped before)
    (fun _ s' => ∃ n, Counted before n s') r₀ s₀) ?_ ?_ ?_
  · unfold Prog.Plays at htried ⊢
    rw [hr] at htried ⊢
    exact ⟨⟨rfl, rfl⟩, htried⟩
  · rintro t s₂ ⟨⟨rfl, rfl⟩, h₂⟩
    cases t with
    | none =>
      obtain ⟨n, h₂⟩ := h₂
      exact ⟨h₂.shown, rfl⟩
    | some t =>
      refine ⟨h₂.shown, t, h₂.outcome, h₂.completed, fun t' heq => ?_, fun e heq => ?_⟩
      · cases heq
        rfl
      · cases heq
  · rintro e s₂ ⟨⟨rfl, rfl⟩, n, h₂⟩
    cases he : blank e.typeName with
    | true =>
      -- nothing is written, and the other exception leaves
      refine plays_weaken (acts_nameless he before.completedOperations h₂.steady.live) ?_
      rintro (e' | t) s₃ hs
      · obtain ⟨-, rfl⟩ := hs
        have h₃ : Counted before n (s₂.call world .completedOperations) := h₂.reads rfl
        exact ⟨h₃.shown, by simpa [he] using h₃.running⟩
      · exact hs.elim
    | false =>
      refine plays_weaken (h₂.conclude he) ?_
      rintro (e' | t) s₃ hs
      · obtain ⟨rfl, t, ht, hkind, hreason⟩ := hs
        refine ⟨ht.shown, ?_⟩
        simp only [he, Bool.false_eq_true, if_false]
        refine ⟨t, ht.outcome, ht.completed, fun t' heq => ?_, fun e heq => ?_⟩
        · cases heq
        · cases heq
          exact ⟨hkind, hreason⟩
      · exact hs.elim

theorem Concluded.prompt {r r' : Except Exn (Option SessionTermination)}
    (h : Concluded before r r' s) (hc : Silent cues) (hv : p.view? = none) :
    Concluded before r r' (s.prompt cues p) := by
  have hscene := prompt_scene hc s p
  refine ⟨shown_prompt h.1 fun v he => ?_, ?_⟩
  · rw [hv] at he
    cases he
  · have h := h.2
    unfold EndRecorded at h ⊢
    rw [hscene]
    exact h

/-- An admitted session. -/
theorem acts_admitted (ha : Admitted cues s.scene.store) (hs : Steady s.scene)
    (hheard : s.heard = []) (hw : Quiet world) (hc : Silent cues) {fuel : Nat}
    {r : Except Exn (Option SessionTermination)} {s₁ : Sitting}
    (hr : (sn.tried fuel).run (Sitting.answer world cues) (s.admitted world cues) = (r, s₁)) :
    Acts world cues (sn.execute fuel) s fun r' s' => Concluded s.scene.store.db r r' s' := by
  have hstart : Counted s.scene.store.db 0 s :=
    ⟨hs, ha.unended, fun _ h => h, rfl, hheard ▸ fun _ hm => absurd hm List.not_mem_nil⟩
  have hscene : (s.prompt cues .lock).scene = s.scene := prompt_scene hc s .lock
  have h₁ : Counted s.scene.store.db 0 (s.admitted world cues) :=
    (((hstart.prompt hc fun _ he => by cases he).reads rfl).reads rfl).reads rfl
  refine acts_execute (Q := fun r' s' => Concluded s.scene.store.db r r' s') ?_ hheard ?_
    fun r' s' h => h.prompt hc rfl
  · rw [hscene]
    exact ha
  · rw [hscene]
    exact h₁.guarded hw hc fuel hr

theorem query_answer {α : Type} {f : Tables → Except Exn α} {self : SQLiteRun} {a : α}
    (h : ((query f).run self).1 = .ok a) : self.handle.isSome = true ∧ f self.db = .ok a := by
  rw [query_eq] at h
  split at h
  · cases h
  · rename_i handle hh
    exact ⟨by rw [hh]; rfl, h⟩

/-- A session that is not admitted is refused, and leaves the store. -/
theorem acts_refused (ha : ¬ Admitted cues s.scene.store) (hheard : s.heard = [])
    (hc : Silent cues) (fuel : Nat) :
    Acts world cues (sn.execute fuel) s
      (Results (fun _ _ => False) fun _ s' => s'.scene.store = s.scene.store) := by
  unfold Session.execute
  refine plays_then (G := fun r s' => r = (cues 0).reply .lock ∧
    s'.scene.store = s.scene.store) (acts_prompted ⟨?_, ?_⟩) ?_
  · change (cues s.heard.length).reply .lock = _
    rw [hheard]
    rfl
  · rw [prompt_scene hc]
  · rintro r s₁ ⟨hr, hs₁⟩
    refine plays_then (G := fun _ s' => r = .ok () ∧ s'.scene.store = s.scene.store)
      (plays_ret (results_any (fun _ he => ⟨he, hs₁⟩) fun _ _ => hs₁)) fun _ s₂ ⟨hok, hs₂⟩ => ?_
    refine plays_finally (Q := Results (fun _ _ => False) fun _ s' =>
      s'.scene.store = s.scene.store) ?_ ?_
    · refine plays_then (G := fun outcome s' => s'.scene.store = s.scene.store ∧
        s.scene.store.handle.isSome = true ∧ s.scene.store.db.run.outcome = outcome)
        (acts_calls (results_any (fun outcome hans => ⟨?_, ?_⟩) fun _ _ => ?_))
        fun outcome s₃ ⟨hs₃, hlive, hout⟩ => ?_
      · exact (reads_store rfl s₂.scene).trans hs₂
      · obtain ⟨hl, he⟩ := query_answer hans
        rw [hs₂] at hl he
        exact ⟨hl, Except.ok.inj he⟩
      · exact (reads_store rfl s₂.scene).trans hs₂
      refine plays_check (fun _ => hs₃) fun hn => ?_
      refine plays_then (G := fun pending s' => s'.scene.store = s.scene.store ∧
        s.scene.store.db.pending = .ok pending)
        (acts_calls (results_any (fun pending hans => ⟨?_, ?_⟩) fun _ _ => ?_))
        fun pending s₄ ⟨hs₄, hpending⟩ => ?_
      · exact (reads_store rfl s₃.scene).trans hs₃
      · have he := (query_answer hans).2
        rwa [hs₃] at he
      · exact (reads_store rfl s₃.scene).trans hs₃
      refine plays_check (fun _ => hs₄) fun hm => absurd ?_ ha
      rw [not_not.mp hn] at hout
      rw [not_not.mp hm] at hpending
      exact ⟨hr ▸ hok, hlive, hout, hpending⟩
    · rintro (e | r) s₃ h₃
      · refine plays_then (G := fun _ s' => s'.scene = s₃.scene)
          (acts_prompted (prompt_scene hc s₃ .unlock)) fun _ s₄ h₄ => plays_value ?_
        change s₄.scene.store = s.scene.store
        rw [h₄]
        exact h₃
      · exact h₃.elim

/-- When nobody else writes to the run, whatever the policy, the callbacks and
the application answer or raise: every view that is handed over is current, and a
session that gets past its refusals and ends leaves in the file the termination
that it returns, or the kind and the type of the exception that it raises, with
the number of operations that were completed meanwhile. It does so unless its
`try` is left by an exception whose class has a blank name. A session that is
refused leaves the store. -/
theorem the_session_records_its_end_iff_the_failure_has_a_name {now : ℚ} {clock : Clock}
    {self : SQLiteRun} {runId state : Dyn String} {limits : RunLimits}
    {observation : Option (Dyn String)}
    (h : SQLiteRun.create now clock runId state limits observation = .ok self)
    (calls : List Timed) (sn : Session) (fuel : Nat) (world : Nat → Beat) (cues : Nat → Cue)
    (hw : Quiet world) (hc : Silent cues) :
    (Admitted cues (self.after calls) →
      Shown (self.after calls).db (sn.sit fuel world cues (self.after calls)).2.heard ∧
      ((sn.sit fuel world cues (self.after calls)).1 ≠ .ok none →
        (EndRecorded (self.after calls).db (sn.sit fuel world cues (self.after calls)).1
          (sn.sit fuel world cues (self.after calls)).2 ↔
        ∀ e s, sn.Leaves fuel world cues (self.after calls) e s → blank e.typeName = false))) ∧
    (¬ Admitted cues (self.after calls) →
      (∃ e, (sn.sit fuel world cues (self.after calls)).1 = .error e) ∧
      (sn.sit fuel world cues (self.after calls)).2.scene.store = self.after calls) := by
  constructor
  · intro ha
    rcases hr : (sn.tried fuel).run (Sitting.answer world cues)
      (Sitting.admitted world cues { scene := { store := self.after calls } }) with ⟨r, s₁⟩
    have hrun : Acts world cues (sn.execute fuel) { scene := { store := self.after calls } } _ :=
      acts_admitted ha (steady_created h calls ha.live) rfl hw hc hr
    change Concluded (self.after calls).db r (sn.sit fuel world cues (self.after calls)).1
      (sn.sit fuel world cues (self.after calls)).2 at hrun
    obtain ⟨hshown, hend⟩ := hrun
    refine ⟨hshown, fun hne => ?_⟩
    unfold Session.Leaves
    rw [hr]
    rcases r with e | t
    · cases he : blank e.typeName with
      | true =>
        simp only [he, if_true] at hend
        refine ⟨?_, fun hall => ?_⟩
        · rintro ⟨t, ht, -⟩
          rw [hend] at ht
          cases ht
        · rw [hall e s₁ rfl] at he
          cases he
      | false =>
        simp only [he, Bool.false_eq_true, if_false] at hend
        refine ⟨fun _ e' s' heq => ?_, fun _ => hend⟩
        cases heq
        exact he
    · cases t with
      | none => exact absurd hend hne
      | some t =>
        refine ⟨fun _ e s heq => ?_, fun _ => hend⟩
        cases heq
  · intro ha
    have hrun : Acts world cues (sn.execute fuel) { scene := { store := self.after calls } } _ :=
      acts_refused ha rfl hc fuel
    change Results _ _ (sn.sit fuel world cues (self.after calls)).1
      (sn.sit fuel world cues (self.after calls)).2 at hrun
    rcases hr : sn.sit fuel world cues (self.after calls) with ⟨e | r, s'⟩ <;> rw [hr] at hrun
    · exact ⟨⟨e, rfl⟩, hrun⟩
    · exact hrun.elim

/-- A policy that takes one step and stops. -/
def sampleCue (_ : Nat) : Cue where
  reply
    | .lock => .ok ()
    | .unlock => ()
    | .policy view =>
      if view.completedSteps = 0 then .ok (.typed (.step ⟨⟨"goal", ["act"]⟩, by decide⟩))
      else .ok (.typed (.stop ⟨⟨"done"⟩, by decide⟩))
    | .onStep _ => .ok ()
    | .onRejection _ _ => .ok .other
    | .rejected => none
    | .expired _ => false

def sampleSession : Session where
  runtime := sampleRuntime
  stepping := true
  rejecting := false

/-- The policy raises an instance of `type('', (Exception,), {})`. -/
def namelessCue (_ : Nat) : Cue where
  reply
    | .lock => .ok ()
    | .unlock => ()
    | .policy _ => .error (otherError "" "")
    | .onStep _ => .ok ()
    | .onRejection _ _ => .ok .other
    | .rejected => none
    | .expired _ => false

theorem sampleCue_silent : Silent sampleCue := fun _ _ hi => absurd hi List.not_mem_nil

theorem namelessCue_silent : Silent namelessCue := fun _ _ hi => absurd hi List.not_mem_nil

theorem the_session_records_its_end_sample :
    EndRecorded (sampleStore.after []).db
        (sampleSession.sit 3 sampleBeat sampleCue (sampleStore.after [])).1
        (sampleSession.sit 3 sampleBeat sampleCue (sampleStore.after [])).2 ∧
      ¬ EndRecorded (sampleStore.after []).db
        (sampleSession.sit 3 sampleBeat namelessCue (sampleStore.after [])).1
        (sampleSession.sit 3 sampleBeat namelessCue (sampleStore.after [])).2 := by
  have hw : Quiet sampleBeat := fun _ _ hi => absurd hi List.not_mem_nil
  refine ⟨?_, ?_⟩
  · have hsample := the_session_records_its_end_iff_the_failure_has_a_name create_sampleStore []
      sampleSession 3 sampleBeat sampleCue hw sampleCue_silent
    refine ((hsample.1 ⟨rfl, rfl, rfl, by decide +kernel⟩).2 (by decide +kernel)).mpr ?_
    intro e s hleaves
    have hok : ((sampleSession.tried 3).run (Sitting.answer sampleBeat sampleCue)
        (Sitting.admitted sampleBeat sampleCue
          { scene := { store := sampleStore.after [] } })).1.toOption.isSome = true := by
      decide +kernel
    rw [show _ = _ from hleaves] at hok
    cases hok
  · have hnameless := the_session_records_its_end_iff_the_failure_has_a_name create_sampleStore []
      sampleSession 3 sampleBeat namelessCue hw namelessCue_silent
    refine fun hrecorded => ?_
    have hnamed := ((hnameless.1 ⟨rfl, rfl, rfl, by decide +kernel⟩).2 (by decide +kernel)).mp
      hrecorded (otherError "" "") _ (Prod.ext (by decide +kernel) rfl)
    exact absurd hnamed (by decide +kernel)

theorem a_failure_without_a_name_is_not_recorded :
    ¬ ∀ (now : ℚ) (clock : Clock) (self : SQLiteRun) (runId state : Dyn String)
        (limits : RunLimits) (observation : Option (Dyn String)),
      SQLiteRun.create now clock runId state limits observation = .ok self →
      ∀ (calls : List Timed) (sn : Session) (fuel : Nat) (world : Nat → Beat) (cues : Nat → Cue),
        Quiet world → Silent cues → Admitted cues (self.after calls) →
        (sn.sit fuel world cues (self.after calls)).1 ≠ .ok none →
          ∃ t : SessionTermination, (sn.sit fuel world cues
            (self.after calls)).2.scene.store.db.run.outcome = some t.recorded := by
  intro hall
  obtain ⟨t, ht⟩ := hall _ _ _ _ _ _ _ create_sampleStore [] sampleSession 3 sampleBeat namelessCue
    (fun _ _ hi => absurd hi List.not_mem_nil) namelessCue_silent ⟨rfl, rfl, rfl, by decide +kernel⟩
    (by decide +kernel)
  have hnone : (sampleSession.sit 3 sampleBeat namelessCue
      (sampleStore.after [])).2.scene.store.db.run.outcome = none := by decide +kernel
  rw [hnone] at ht
  cases ht

end FlynnAgents
