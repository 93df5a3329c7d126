-- A deadline that passes while a step waits. The expiry cancels the task, and a block of
-- `asyncio.timeout` turns only an exception that is exactly a `CancelledError` into a
-- `TimeoutError`: the cancellation that carries a usage is recorded as a cancellation.
import FlynnAgents.Failures

namespace FlynnAgents

open Programs Prog Transactional

variable {world : Nat → Beat} {cues : Nat → Cue} {s t s₀ s₂ : Scene} {c : Call} {rt : Runtime}
  {sn : Session} {o : String} {f : String × Exn} {e : Exn} {deadline : Option ℚ}
  {stepDue sessionDue : Bool} {α β : Type}

/-! ## What leaves a block that expired -/

/-- `type(error) is asyncio.CancelledError` -/
def Exn.plainlyCancelled (e : Exn) : Bool :=
  decide (e.typeName = "CancelledError" ∧ e.bases = [.cancelledError])

/-- What a component may raise when it is cancelled: a `CancelledError`, or the
`InferenceCancelled` of the inference contract. -/
def Exn.Cancellation (e : Exn) : Prop :=
  e.plainlyCancelled = true ∨ e.typeName = "InferenceCancelled" ∧ e.bases = [.inferenceCancelled]

theorem Exn.Cancellation.isinstance (h : e.Cancellation) :
    e.isinstance .cancelledError = true ∧ e.isinstance .timeoutError = false ∧
      e.isinstance .proposalRejected = false ∧ e.isinstance .inferenceRejected = false := by
  rcases h with h | ⟨-, h⟩
  · simp only [Exn.plainlyCancelled, decide_eq_true_eq] at h
    simp [Exn.isinstance, h.2, ExnClass.mro]
  · simp [Exn.isinstance, h, ExnClass.mro]

/-- `asyncio.timeout` of CPython 3.11, when nobody else cancels the task: the deadline of the
step, of the session, or of both has passed. Each expiry cancels the task once, and the block
that takes the last cancellation back makes a `TimeoutError` of a plain `CancelledError`. -/
structure Expires (stepDue sessionDue : Bool) (world : Nat → Beat) (cues : Nat → Cue) :
    Prop where
  due : (stepDue || sessionDue) = true
  step : ∀ n e, (world n).reply (.expired e) = (stepDue && !sessionDue && e.plainlyCancelled)
  session : ∀ n e, (cues n).reply (.expired e) = (sessionDue && e.plainlyCancelled)

/-- What the end of a block raises. -/
def Exn.expiredAs (e : Exn) (due : Bool) : Exn :=
  if due && e.plainlyCancelled then timeoutError else e

/-- The class of what a cancellation becomes has a name. -/
theorem Exn.Cancellation.expired_named (h : e.Cancellation) (due : Bool) :
    blank (e.expiredAs due).typeName = false := by
  unfold Exn.expiredAs
  split
  · decide
  · rcases h with h | ⟨h, -⟩
    · simp only [Exn.plainlyCancelled, decide_eq_true_eq] at h
      rw [h.1]
      decide
    · rw [h]
      decide

theorem Runtime.run_expiring {limit : Option ℚ} (hl : limit.isSome = true)
    (he : e.isinstance .cancelledError = true) {due : Bool}
    (hdue : (world s.turn).reply (.expired e) = (due && e.plainlyCancelled)) :
    ∃ t, (Runtime.closing limit (Prog.raise e)).run (Scene.answer world) s =
      (.error (e.expiredAs due), t) ∧ t.store = s.store := by
  have hexpiring : ((Prog.raise e : Flow Exn StepResult).catching
      (Runtime.expiring limit)).run (Scene.answer world) s =
        (.error (e.expiredAs due), s.ask world (.expired e)) := by
    rw [run_catching]
    simp only [Prog.raise, Prog.run, Runtime.expiring, he, hl, Bool.and_self, if_true]
    change (if (world s.turn).reply (.expired e) = true then
      (Prog.raise timeoutError : Flow Exn StepResult) else Prog.raise e).run (Scene.answer world)
        (s.ask world (.expired e)) = _
    rw [hdue, Exn.expiredAs]
    split <;> rfl
  refine ⟨(s.ask world (.expired e)).ask world .release, ?_, rfl⟩
  unfold Runtime.closing finally_
  rw [run_bind, run_catching, hexpiring]
  rfl

/-- A block passes on what is no cancellation. -/
theorem Runtime.run_passing {limit : Option ℚ} (he : e.isinstance .cancelledError = false) :
    (Runtime.closing limit (Prog.raise e)).run (Scene.answer world) s =
      (.error e, s.ask world .release) := by
  have hexpiring : ((Prog.raise e : Flow Exn StepResult).catching
      (Runtime.expiring limit)).run (Scene.answer world) s = (.error e, s) := by
    rw [run_catching]
    simp only [Prog.raise, Prog.run, Runtime.expiring, he, Bool.false_and, Bool.false_eq_true,
      if_false]
  unfold Runtime.closing finally_
  rw [run_bind, run_catching, hexpiring]
  rfl

/-! ## The await that was interrupted -/

/-- What an await of a component raised. -/
def Ask.interruption : (q : Ask) → q.Answer → Option Exn
  | .generate _ _, .error e => some e
  | .check _ _ _ _, .error e => some e
  | .execute _ _ _, .error e => some e
  | .evaluate _, .error e => some e
  | _, _ => none

/-- The exception of the last answer that was no call of the store, if a component raised it. -/
def Scene.interruption (s : Scene) : Option Exn :=
  (s.told.filterMap fun told =>
    match told.toSaid with
    | ⟨.ask q, x⟩ => some (q.interruption x)
    | ⟨.store _, _⟩ => none).getLast?.join

theorem interruption_call : (s.call world c).interruption = s.interruption := by
  unfold Scene.interruption Scene.call
  simp [List.filterMap_append]

theorem interruption_ask {q : Ask} :
    (s.ask world q).interruption = q.interruption ((world s.turn).reply q) := by
  unfold Scene.interruption Scene.ask
  simp [List.filterMap_append]

/-- The failure is what the component raised, or the refusal of the usage that this carried. -/
def Explains (s : Scene) (f : Exn) : Prop :=
  ∀ e, s.interruption = some e → f = e ∨ Ordinary f ∧ e.plainlyCancelled = false

theorem explains_none (h : s.interruption = none) (f : Exn) : Explains s f := by
  intro e he
  rw [h] at he
  cases he

/-- A program that raises what interrupted it. -/
def Tells (world : Nat → Beat) (x : Flow Exn α) : Prop :=
  ∀ s, s.interruption = none → Plays world x s
    (Results (fun _ s' => s'.interruption = none) fun f s' => Explains s' f)

theorem tells_store : Tells world (store c) := by
  intro s hs
  refine plays_store (results_any (fun _ _ => interruption_call.trans hs) fun e _ => ?_)
  exact explains_none (interruption_call.trans hs) e

theorem tells_ask {q : Ask} {r : q.Answer → Except Exn α}
    (h : ∀ x e, q.interruption x = some e → r x = .error e) :
    Tells world (.ask (.ask q) fun x => .ret (r x)) := by
  intro s hs
  refine plays_reply (fun v hv => ?_) fun f hf e he => ?_
  · rw [interruption_ask]
    cases hi : q.interruption ((world s.turn).reply q) with
    | none => rfl
    | some e =>
      rw [h _ e hi] at hv
      cases hv
  · rw [interruption_ask] at he
    rw [h _ e he] at hf
    cases hf
    exact .inl rfl

theorem tells_value {v : α} : Tells world (pure v : Flow Exn α) := fun _ hs => plays_value hs

theorem tells_raise (e : Exn) : Tells world (Prog.raise e : Flow Exn α) :=
  fun _ hs => plays_raise (explains_none hs e)

theorem tells_then {x : Flow Exn α} {f : α → Flow Exn β} (hx : Tells world x)
    (hf : ∀ v, Tells world (f v)) : Tells world (x >>= f) :=
  fun s hs => plays_then (hx s hs) fun v t ht => hf v t ht

theorem tells_raiseIf (p : Prop) [Decidable p] (e : Exn) :
    Tells world (Prog.raiseIf p e : Flow Exn Unit) :=
  fun _ hs => plays_raiseIf (fun _ => explains_none hs e) fun _ => hs

namespace Runtime

theorem tells_emit {event : Event} {b : Bool} : Tells world (rt.emit event b) := by
  unfold emit
  refine tells_then tells_store fun _ => tells_then (tells_ask fun _ _ h => by cases h) fun _ => ?_
  split
  · exact tells_ask fun _ _ h => by cases h
  · exact tells_value

theorem tells_deadline : Tells world checkDeadline :=
  tells_then tells_store fun _ => tells_raiseIf _ _

theorem tells_prepare {broker : ToolBroker} {call : ToolCall} {allowed : List String} :
    Tells world (broker.prepare call allowed) := by
  unfold ToolBroker.prepare
  refine tells_then (tells_raiseIf _ _) fun _ => ?_
  split
  · exact tells_raise _
  · refine tells_then (fun s hs => ?_) fun _ => tells_value
    refine plays_catching (Q := fun (_ : Except Exn Unit) (s' : Scene) => s'.interruption = none)
      (plays_ask interruption_ask) (fun _ _ ht => ht) fun e t ht => ?_
    · split
      · exact plays_raise (explains_none ht _)
      · split <;> exact plays_raise (explains_none ht _)

theorem tells_checkGuard {request : InferenceRequest} {call : ToolCall} {guard : DispatchGuard} :
    Tells world (rt.checkGuard o request call guard) := by
  unfold checkGuard
  refine tells_then (tells_ask fun x e h => ?_) fun decision => ?_
  · cases x <;> cases h
    rfl
  · split
    · exact tells_raise _
    · refine tells_then tells_store fun _ => tells_then tells_emit fun _ => ?_
      exact tells_raiseIf _ _

theorem tells_publish {call : ToolCall} {candidate : Candidate} :
    Tells world (rt.publish o call candidate) := by
  unfold publish
  refine tells_then tells_emit fun _ => tells_then tells_deadline fun _ => ?_
  refine tells_then (tells_ask fun x e h => ?_) fun _ =>
    tells_then tells_deadline fun _ => tells_store
  cases x <;> cases h
  rfl

theorem not_plain
    (h : (e.isinstance .inferenceFailure || e.isinstance .inferenceCancelled) = true) :
    e.plainlyCancelled = false := by
  by_contra hp
  rw [Bool.not_eq_false] at hp
  simp only [Exn.plainlyCancelled, decide_eq_true_eq] at hp
  simp [Exn.isinstance, hp.2, ExnClass.mro] at h

theorem tells_infer {request : InferenceRequest} : Tells world (infer o request) := by
  intro s hs
  unfold infer
  refine plays_then (G := fun _ s' => s'.interruption = none) ?_ fun response t ht => ?_
  · refine plays_catching (Q := fun r s' => s' = s.ask world (.generate o request) ∧
      r = (world s.turn).reply (.generate o request)) ⟨rfl, rfl⟩ ?_ ?_
    · rintro v t ⟨rfl, hr⟩
      refine interruption_ask.trans ?_
      rw [← hr]
      rfl
    · rintro e t ⟨rfl, hr⟩
      have hi : (s.ask world (.generate o request)).interruption = some e := by
        rw [interruption_ask, ← hr]
        rfl
      have hraise : ∀ s' : Scene, s'.interruption = some e → Explains s' e := by
        intro s' hs' e' he'
        rw [hs'] at he'
        cases he'
        exact .inl rfl
      dsimp only
      split
      · rename_i hfailure
        split
        · refine plays_then (G := fun _ (s' : Scene) => s'.interruption = some e)
            (plays_store (results_any (fun _ _ => interruption_call.trans hi) fun f hf => ?_))
            fun _ s' hs' => plays_raise (hraise s' hs')
          intro e' he'
          rw [interruption_call, hi] at he'
          cases he'
          exact .inr ⟨recordUsage_raises _ _ _ hf, not_plain hfailure⟩
        · exact plays_raise (hraise _ hi)
      · exact plays_raise (hraise _ hi)
  · split
    · exact tells_raise _ t ht
    · exact tells_then tells_store (fun _ => tells_value) t ht

/-- The failure of the body of a step is what the component raised that was interrupted, or
the refusal of its usage. -/
theorem tells_attempt {request : InferenceRequest} (hs : s.interruption = none) :
    Plays world (rt.attempt o request) s
      (Results (fun _ _ => True) fun f s' => Explains s' f.2) := by
  unfold attempt
  refine plays_then (plays_at (tells_emit s hs)) fun _ s₁ h₁ => ?_
  refine plays_then (plays_at (tells_infer s₁ h₁)) fun response s₂ h₂ => ?_
  refine plays_then (plays_at (tells_store s₂ h₂)) fun _ s₃ h₃ => ?_
  refine plays_then (plays_at (tells_emit s₃ h₃)) fun _ s₄ h₄ => ?_
  refine plays_then (G := fun _ s' => s'.interruption = none) (plays_at (plays_ret (results_any
    (fun _ _ => h₄) fun e _ => explains_none h₄ e))) fun call s₅ h₅ => ?_
  refine plays_then (plays_at (tells_prepare s₅ h₅)) fun tool s₆ h₆ => ?_
  refine plays_then (plays_forEach (fun _ s' => s'.interruption = none) h₆
    fun _ _ _ t ht => plays_at (tells_checkGuard t ht)) fun _ s₇ h₇ => ?_
  refine plays_then (plays_at (tells_store s₇ h₇)) fun _ s₈ h₈ => ?_
  refine plays_then (plays_at (tells_emit s₈ h₈)) fun _ s₉ h₉ => ?_
  refine plays_then (plays_at (tells_ask (fun x e h => ?_) s₉ h₉)) fun output s₁₀ h₁₀ => ?_
  · cases x <;> cases h
    rfl
  refine plays_then (plays_at (tells_store s₁₀ h₁₀)) fun candidate s₁₁ h₁₁ => ?_
  refine plays_then (plays_at (tells_publish s₁₁ h₁₁)) fun result s₁₂ h₁₂ => ?_
  refine plays_then (plays_at (tells_emit s₁₂ h₁₂)) fun _ s₁₃ h₁₃ => ?_
  exact plays_value trivial

/-- What the last request before the body was answered. -/
theorem opening_uninterrupted {objective : String} {grants : Option (List String)}
    {limit : Option ℚ} {request : InferenceRequest} {s₁ : Scene}
    (h : (rt.opening objective grants).run (Scene.answer world) s₀ =
      (.ok (limit, o, request), s₁)) : s₁.interruption = none := by
  obtain ⟨_, t₁, h₁, h⟩ := run_bind_ok h
  obtain ⟨_, t₂, h₂, h⟩ := run_bind_ok h
  obtain ⟨_, t₃, h₃, h⟩ := run_bind_ok h
  obtain ⟨_, t₄, h₄, h⟩ := run_bind_ok h
  obtain ⟨_, t₅, h₅, h⟩ := run_bind_ok h
  obtain ⟨base, t₆, h₆, h⟩ := run_bind_ok h
  obtain ⟨request, t₇, h₇, h⟩ := run_bind_ok h
  obtain ⟨⟨reservation, request'⟩, t₈, h₈, h⟩ := run_bind_ok h
  obtain ⟨o, t₉, h₉, h⟩ := run_bind_ok h
  obtain ⟨u, t₁₀, h₁₀, h⟩ := run_bind_ok h
  cases h
  have hid : t₈.ask world .newId = t₉ := congrArg Prod.snd h₉
  have hstart : t₉.call world _ = s₁ := congrArg Prod.snd h₁₀
  rw [← hstart, interruption_call, ← hid, interruption_ask]
  rfl

/-- The failure of a step that was interrupted. -/
theorem Breaks.explained {objective : String} {grants : Option (List String)}
    (h : rt.Breaks world objective grants s₀ o f s₂) : Explains s₂ f.2 := by
  obtain ⟨limit, request, s₁, hopening, hattempt⟩ := h
  have hplays : Plays world (rt.attempt o request) s₁ _ :=
    tells_attempt (opening_uninterrupted hopening)
  unfold Plays Prog.Plays at hplays
  rw [hattempt] at hplays
  exact hplays

end Runtime

/-! ## A step that the deadline interrupts -/

namespace Runtime

variable {objective : String} {grants : Option (List String)}

/-- A cancellation that the run takes leaves the step as its block makes it. -/
theorem Breaks.expires (h : rt.Breaks world objective grants s₀ o f s₂)
    (hd : Dated deadline s₀.store) (hlimit : deadline.isSome = true) (hf : f.2.Cancellation)
    (hx : Expires stepDue sessionDue world cues) (hw : Writable s₂.store) :
    ∃ t, (rt.step objective grants).run (Scene.answer world) s₀ =
      (.error (f.2.expiredAs (stepDue && !sessionDue)), t) ∧ Writable t.store := by
  obtain ⟨limit, t, hl, -, hstep, ht⟩ := h.recorded hd hw
  obtain ⟨t', hrun, hstore⟩ := run_expiring (hl.trans hlimit) hf.isinstance.1
    (hx.step t.turn f.2)
  exact ⟨t', hstep.trans hrun, hstore ▸ ht⟩

/-- Where the run does not take it, the step raises what the store raises. -/
theorem Breaks.lost (h : rt.Breaks world objective grants s₀ o f s₂)
    (hd : Dated deadline s₀.store) (hn : ¬ Writable s₂.store) :
    ∃ e t, (rt.step objective grants).run (Scene.answer world) s₀ = (.error e, t) ∧ Ordinary e ∧
      ¬ Writable t.store := by
  obtain ⟨limit, e, t, -, -, hstep, he, ht⟩ := h.refused hd hn
  exact ⟨e, _, hstep.trans (run_passing he.uncancelled), he, ht⟩

end Runtime

/-! ## A session that the deadline interrupts -/

namespace Session

variable {frame : Nat × Option ℚ} {k : Nat} {carry : Carry} {u u₀ u₁ v w : Sitting}

/-- `execute` raises a `TimeoutError`, and the termination in the file says the same. -/
def TimesOut (sn : Session) (world : Nat → Beat) (cues : Nat → Cue) (u₀ : Sitting) (fuel : Nat) :
    Prop :=
  ∃ e v, (sn.execute fuel).run (Sitting.answer world cues) u₀ = (.error e, v) ∧
    e.isinstance .timeoutError = true ∧ ∃ termination : SessionTermination,
      v.scene.store.db.run.outcome = some termination.recorded ∧ termination.kind = .timedOut

/-- What the block of the session makes of an exception. -/
theorem run_expiring {limit : Option ℚ} (hl : limit.isSome = true)
    (he : e.isinstance .cancelledError = true) {due : Bool}
    (hdue : (cues u.heard.length).reply (.expired e) = (due && e.plainlyCancelled)) :
    ((Prog.raise e : Act (Option SessionTermination)).catching (expiring limit)).run
      (Sitting.answer world cues) u = (.error (e.expiredAs due), u.prompt cues (.expired e)) := by
  rw [run_catching]
  simp only [Prog.raise, Prog.run, expiring, he, hl, Bool.and_self, if_true]
  change (if (cues u.heard.length).reply (.expired e) = true then
    (Prog.raise timeoutError : Act (Option SessionTermination)) else Prog.raise e).run
      (Sitting.answer world cues) (u.prompt cues (.expired e)) = _
  rw [hdue, Exn.expiredAs]
  split <;> rfl

theorem run_passing {limit : Option ℚ} (he : e.isinstance .cancelledError = false) :
    ((Prog.raise e : Act (Option SessionTermination)).catching (expiring limit)).run
      (Sitting.answer world cues) u = (.error e, u) := by
  rw [run_catching]
  simp only [Prog.raise, Prog.run, expiring, he, Bool.false_and, Bool.false_eq_true, if_false]

/-- The session raises what left its block, once it is recorded. -/
theorem run_recorded {e' : Exn}
    (h : ((Prog.raise e : Act (Option SessionTermination)).catching (expiring frame.2)).run
      (Sitting.answer world cues) u = (.error e', v))
    (hr : (record frame.1 e').run (Sitting.answer world cues) v = (.ok (), w)) :
    (closing frame (Prog.raise e)).run (Sitting.answer world cues) u =
      (.error e', w.prompt cues .unlock) := by
  have hconclude : (conclude frame.1 e' : Act (Option SessionTermination)).run
      (Sitting.answer world cues) v = (.error e', w) := by
    rw [conclude_eq]
    exact run_bind_of hr
  unfold closing finally_
  rw [run_bind, run_catching, run_catching, h]
  dsimp only
  rw [hconclude]
  rfl

/-- Where it cannot be recorded, the session raises what the record raised. -/
theorem run_unrecorded {e' e'' : Exn}
    (h : ((Prog.raise e : Act (Option SessionTermination)).catching (expiring frame.2)).run
      (Sitting.answer world cues) u = (.error e', v))
    (hr : (record frame.1 e').run (Sitting.answer world cues) v = (.error e'', w)) :
    (closing frame (Prog.raise e)).run (Sitting.answer world cues) u =
      (.error e'', w.prompt cues .unlock) := by
  have hconclude : (conclude frame.1 e' : Act (Option SessionTermination)).run
      (Sitting.answer world cues) v = (.error e'', w) := by
    rw [conclude_eq]
    exact run_bind_error hr
  unfold closing finally_
  rw [run_bind, run_catching, run_catching, h]
  dsimp only
  rw [hconclude]
  rfl

/-- What leaves both blocks of a cancellation: a timeout in the place of a plain one. -/
theorem expires_both (hx : Expires stepDue sessionDue world cues) (hf : e.Cancellation)
    {limit : Option ℚ} (hl : limit.isSome = true) :
    ∃ v, ((Prog.raise (e.expiredAs (stepDue && !sessionDue)) :
      Act (Option SessionTermination)).catching (expiring limit)).run
        (Sitting.answer world cues) u = (.error (e.expiredAs true), v) ∧ v.scene = u.scene := by
  by_cases hstep : (stepDue && !sessionDue) = true ∧ e.plainlyCancelled = true
  · refine ⟨u, ?_, rfl⟩
    simp only [Exn.expiredAs, hstep.1, hstep.2, Bool.and_self, if_true]
    exact run_passing rfl
  · refine ⟨u.prompt cues (.expired e), ?_, rfl⟩
    have hsame : e.expiredAs (stepDue && !sessionDue) = e := by
      unfold Exn.expiredAs
      rw [if_neg (by rwa [Bool.and_eq_true])]
    rw [hsame, run_expiring hl hf.isinstance.1 (hx.session _ e)]
    have hdue := hx.due
    unfold Exn.expiredAs
    cases hplain : e.plainlyCancelled
    · simp
    · cases sessionDue
      · simp_all
      · rfl

/-- An exception that is no rejection is not corrected. -/
theorem uncorrected (hp : e.isinstance .proposalRejected = false)
    (hi : e.isinstance .inferenceRejected = false) : ¬ sn.Corrects e t := by
  rintro ⟨h | h, -⟩
  · rw [hp] at h
    cases h
  · rw [hi] at h
    cases h

/-- From the handler of a step to that of the session, nobody else calls the store. -/
theorem raised_store {t : Scene} (h : v = { u₁ with scene := t } ∨
    v = Sitting.prompt cues { u₁ with scene := t } .rejected) : v.scene.store = t.store := by
  rcases h with rfl | rfl <;> rfl

theorem Reaches.dated (h : sn.Reaches world cues u₀ frame k carry u)
    (hd : Dated deadline u₀.scene.store) {step : SessionStep}
    (hs : Stepping world cues carry u step u₁) : Dated deadline u₁.scene.store := by
  obtain ⟨s₁, hdecision, hready⟩ := hs
  have hu := h.keeps (I := fun s => Dated deadline s.scene.store) dated_sitting hd
  have h₁ := run_keeps (I := fun s => Dated deadline s.scene.store) dated_sitting hu hdecision
  exact run_keeps (I := fun s => Dated deadline s.scene.store) dated_sitting h₁ hready

section Interrupted

variable {step : SessionStep} {fuel : Nat}

/-- In a run that takes no record, the session does not time out. -/
theorem Reaches.lost (h : sn.Reaches world cues u₀ frame k carry u)
    (hd : Dated deadline u₀.scene.store) (hs : Stepping world cues carry u step u₁)
    (hb : sn.runtime.Breaks world step.objective (some step.grants) u₁.scene o f s₂)
    (hn : ¬ Writable s₂.store) (hfuel : k < fuel) : ¬ sn.TimesOut world cues u₀ fuel := by
  rintro ⟨e'', w', hrun', htimeout, -⟩
  obtain ⟨e, t, hstep, he, ht⟩ := hb.lost (h.dated hd hs) hn
  obtain ⟨v, hturn, hv⟩ := hs.raises hstep (uncorrected he.proposal he.inference)
  rw [← raised_store hv] at ht
  have hraised : Acts world cues (record frame.1 e) v _ := record_raises fun hw => absurd hw ht
  obtain ⟨e', w, hrecord, he'⟩ := hraised.raises
  rw [h.run_error hturn hfuel, run_unrecorded (run_passing he.uncancelled) hrecord] at hrun'
  cases hrun'
  rw [he'.untimed] at htimeout
  cases htimeout

/-- A refusal of the store is no timeout. -/
theorem Reaches.refused (h : sn.Reaches world cues u₀ frame k carry u)
    (hd : Dated deadline u₀.scene.store) (hs : Stepping world cues carry u step u₁)
    (hb : sn.runtime.Breaks world step.objective (some step.grants) u₁.scene o f s₂)
    (hw : Writable s₂.store) (hf : Ordinary f.2) (hfuel : k < fuel) :
    ¬ sn.TimesOut world cues u₀ fuel := by
  rintro ⟨e, w', hrun', htimeout, -⟩
  obtain ⟨limit, t, -, -, hstep, ht⟩ := hb.recorded (h.dated hd hs) hw
  obtain ⟨v, hturn, hv⟩ := hs.raises (hstep.trans (Runtime.run_passing hf.uncancelled))
    (uncorrected hf.proposal hf.inference)
  have htv : Writable v.scene.store := raised_store hv ▸ ht
  have hgrown := run_keeps (I := fun s => frame.1 ≤ s.scene.store.db.completedOperations)
    sitting_grows (h.opens hd).2 hturn
  cases hname : blank f.2.typeName with
  | true =>
    have hraised : Acts world cues (record frame.1 f.2) v _ := record_raises fun _ => hname
    obtain ⟨e', w, hrecord, he'⟩ := hraised.raises
    rw [h.run_error hturn hfuel, run_unrecorded (run_passing hf.uncancelled) hrecord] at hrun'
    have he : e' = e := Except.error.inj (congrArg Prod.fst hrun')
    rw [← he, he'.untimed] at htimeout
    cases htimeout
  | false =>
    have hreturned : Acts world cues (record frame.1 f.2) v _ := record_returns htv hgrown hname
    obtain ⟨_, w, hrecord, -⟩ := hreturned.returns
    rw [h.run_error hturn hfuel, run_recorded (run_passing hf.uncancelled) hrecord] at hrun'
    have he : f.2 = e := Except.error.inj (congrArg Prod.fst hrun')
    rw [← he, hf.untimed] at htimeout
    cases htimeout

/-- A cancellation that the run records is a timeout exactly when it is a plain one. -/
theorem Reaches.expires_iff (h : sn.Reaches world cues u₀ frame k carry u)
    (hd : Dated deadline u₀.scene.store) (hlimit : deadline.isSome = true)
    (hs : Stepping world cues carry u step u₁)
    (hb : sn.runtime.Breaks world step.objective (some step.grants) u₁.scene o f s₂)
    (hw : Writable s₂.store) (hf : f.2.Cancellation)
    (hx : Expires stepDue sessionDue world cues) (hfuel : k < fuel) :
    sn.TimesOut world cues u₀ fuel ↔ f.2.plainlyCancelled = true := by
  obtain ⟨t, hstep, ht⟩ := hb.expires (h.dated hd hs) hlimit hf hx hw
  have hcorrects : ¬ sn.Corrects (f.2.expiredAs (stepDue && !sessionDue)) t := by
    obtain ⟨-, -, hp, hi⟩ := hf.isinstance
    unfold Exn.expiredAs
    split
    · exact uncorrected rfl rfl
    · exact uncorrected hp hi
  obtain ⟨v, hturn, hv⟩ := hs.raises hstep hcorrects
  obtain ⟨hframe, hgrown⟩ := h.opens hd
  have hgrown' := run_keeps (I := fun s => frame.1 ≤ s.scene.store.db.completedOperations)
    sitting_grows hgrown hturn
  obtain ⟨v', hexpired, hscene⟩ := expires_both (u := v) hx hf (hframe.trans hlimit)
  rw [← raised_store hv, ← hscene] at ht
  rw [← hscene] at hgrown'
  have hreturned : Acts world cues (record frame.1 (f.2.expiredAs true)) v' _ :=
    record_returns ht hgrown' (hf.expired_named true)
  obtain ⟨_, w, hrecord, termination, houtcome, hkind, -⟩ := hreturned.returns
  have hrun := (h.run_error hturn hfuel).trans (run_recorded hexpired hrecord)
  constructor
  · rintro ⟨e, w', hrun', htimeout, -⟩
    by_contra hplain
    rw [hrun] at hrun'
    have he : f.2.expiredAs true = e := Except.error.inj (congrArg Prod.fst hrun')
    have hsame : f.2.expiredAs true = f.2 := by simp [Exn.expiredAs, hplain]
    rw [← he, hsame, hf.isinstance.2.1] at htimeout
    cases htimeout
  · intro hplain
    have he : f.2.expiredAs true = timeoutError := by simp [Exn.expiredAs, hplain]
    rw [he] at hrun hkind
    exact ⟨timeoutError, _, hrun, rfl, termination, houtcome, hkind.trans (by decide)⟩

/-- A session whose step the deadline interrupts times out exactly when the component raises a
plain `CancelledError`, in a run that takes the record. -/
theorem Reaches.timesOut_iff (h : sn.Reaches world cues u₀ frame k carry u)
    (hd : Dated deadline u₀.scene.store) (hlimit : deadline.isSome = true)
    (hs : Stepping world cues carry u step u₁)
    (hb : sn.runtime.Breaks world step.objective (some step.grants) u₁.scene o f s₂)
    (hi : s₂.interruption = some e) (he : e.Cancellation)
    (hx : Expires stepDue sessionDue world cues) (hfuel : k < fuel) :
    sn.TimesOut world cues u₀ fuel ↔ e.plainlyCancelled = true ∧ Writable s₂.store := by
  by_cases hw : Writable s₂.store
  · rw [and_iff_left hw]
    rcases hb.explained e hi with hf | ⟨hf, hplain⟩
    · rw [← hf]
      exact h.expires_iff hd hlimit hs hb hw (hf ▸ he) hx hfuel
    · refine iff_of_false (h.refused hd hs hb hw hf hfuel) ?_
      rw [hplain]
      decide
  · exact iff_of_false (h.lost hd hs hb hw hfuel) fun hplain => hw hplain.2

end Interrupted

end Session

/-! ## Every expiry -/

/-- In every run with a wall-time limit, from every state of it, in every session and at every
await of a step that the deadline interrupts: `execute` raises a `TimeoutError` and records that
it timed out exactly when the component raises a plain `CancelledError`, and the run is open and
has no end at that moment. -/
theorem an_expiry_times_out_iff_the_cancellation_is_plain {now : ℚ} {clock : Clock}
    {self : SQLiteRun} {runId state : Dyn String} {limits : RunLimits}
    {observation : Option (Dyn String)}
    (h : SQLiteRun.create now clock runId state limits observation = .ok self)
    (hwall : limits.wallTimeSeconds.isSome = true) (calls : List Timed) {world : Nat → Beat}
    {cues : Nat → Cue} {stepDue sessionDue : Bool} (hx : Expires stepDue sessionDue world cues)
    (sn : Session) (frame : Nat × Option ℚ) (k : Nat) (carry : Session.Carry) (s s₁ : Sitting)
    (step : SessionStep) (o : String) (f : String × Exn) (s₂ : Scene) (e : Exn) (fuel : Nat)
    (hreach : sn.Reaches world cues { scene := { store := self.after calls } } frame k carry s)
    (hstep : Session.Stepping world cues carry s step s₁)
    (hbreaks : sn.runtime.Breaks world step.objective (some step.grants) s₁.scene o f s₂)
    (hawait : s₂.interruption = some e) (he : e.Cancellation) (hfuel : k < fuel) :
    sn.TimesOut world cues { scene := { store := self.after calls } } fuel ↔
      e.plainlyCancelled = true ∧ Writable s₂.store := by
  have hdated : Dated (limits.wallTimeSeconds.map fun seconds => now + seconds)
      (self.after calls) := ⟨_, boundAt_after (create_boundAt h) calls⟩
  exact hreach.timesOut_iff hdated (by rw [Option.isSome_map]; exact hwall) hstep hbreaks hawait he
    hx hfuel

/-- The inference is interrupted, and raises `e`; the deadline of the step has passed. -/
def expiryBeat (e : Exn) (_ : Nat) : Beat where
  clock := ⟨0, 0⟩
  reply
    | .generate _ _ => .error e
    | .expired e' => e'.plainlyCancelled
    | q => sampleReply q

/-- What an adapter reports of a request that was sent. -/
def cancelledUsage : InferenceUsage where
  kind := .model
  status := .unknown
  requestStarted := true
  provider := some "deepseek"
  model := some "deepseek-chat"
  accepted := by decide

/-- The cancellation of an inference, with its usage. -/
def sampleInferenceCancelled : Exn :=
  ⟨"InferenceCancelled", [.inferenceCancelled], "Inference cancelled",
    some (.typed cancelledUsage)⟩

abbrev timedStore : SQLiteRun := sampleRun (sampleLimits (some 1) none (by decide +kernel))

theorem create_timedStore : SQLiteRun.create 0 ⟨0, 0⟩ (.typed "run") (.typed "draft")
    (sampleLimits (some 1) none (by decide +kernel)) none = .ok timedStore := create_sample _

theorem expires_sample (e : Exn) : Expires true false (expiryBeat e) sampleCue where
  due := rfl
  step _ _ := rfl
  session _ _ := rfl

def expirySitting : Sitting := { scene := { store := timedStore.after [] } }

theorem goal_steps : StepFields.postInit ⟨"goal", ["act"]⟩ = none := by
  decide

def expiryStep : SessionStep := ⟨⟨"goal", ["act"]⟩, goal_steps⟩

/-- The session comes to its first step, and the inference is interrupted. -/
def expiryFirst (e : Exn) : Sitting :=
  (Session.opening.run (Sitting.answer (expiryBeat e) sampleCue) expirySitting).2

def expiryDecided (e : Exn) : Sitting :=
  ((Session.decision {}).run (Sitting.answer (expiryBeat e) sampleCue) (expiryFirst e)).2

def expiryReady (e : Exn) : Sitting :=
  (Session.checkReady.run (Sitting.answer (expiryBeat e) sampleCue) (expiryDecided e)).2

def expiryStarted (e : Exn) : Scene :=
  ((sampleRuntime.opening "goal" (some ["act"])).run (Scene.answer (expiryBeat e))
    (expiryReady e).scene).2

def expiryScene (e : Exn) : Scene :=
  ((sampleRuntime.attempt "op" sampleStarted).run (Scene.answer (expiryBeat e))
    (expiryStarted e)).2

/-- A run with its first component read off. -/
theorem eq_pair_of_fst {p : α × β} {a : α} (h : p.1 = a) : p = (a, p.2) := by rw [← h]

theorem expiry_reaches (h : e = cancelledError ∨ e = sampleInferenceCancelled) :
    sampleSession.Reaches (expiryBeat e) sampleCue expirySitting (0, some 1) 0 {}
      (expiryFirst e) := by
  have hopening : (Session.opening.run (Sitting.answer (expiryBeat e) sampleCue)
      expirySitting).1 = .ok (0, some 1) := by
    rcases h with rfl | rfl <;> decide +kernel
  refine .first ?_
  unfold expiryFirst
  exact eq_pair_of_fst hopening

theorem expiry_stepping (h : e = cancelledError ∨ e = sampleInferenceCancelled) :
    Session.Stepping (expiryBeat e) sampleCue {} (expiryFirst e) expiryStep (expiryReady e) := by
  have hdecision : ((Session.decision {}).run (Sitting.answer (expiryBeat e) sampleCue)
      (expiryFirst e)).1 = .ok (.typed (.step expiryStep)) := by
    rcases h with rfl | rfl <;> decide +kernel
  have hready : (Session.checkReady.run (Sitting.answer (expiryBeat e) sampleCue)
      (expiryDecided e)).1 = .ok () := by
    rcases h with rfl | rfl <;> decide +kernel
  refine ⟨expiryDecided e, ?_, ?_⟩
  · unfold expiryDecided
    exact eq_pair_of_fst hdecision
  · unfold expiryReady
    exact eq_pair_of_fst hready

theorem expiry_breaks (h : e = cancelledError ∨ e = sampleInferenceCancelled) :
    sampleSession.runtime.Breaks (expiryBeat e) "goal" (some ["act"]) (expiryReady e).scene "op"
      ("inference", e) (expiryScene e) ∧ (expiryScene e).interruption = some e := by
  have hopening : ((sampleRuntime.opening "goal" (some ["act"])).run (Scene.answer (expiryBeat e))
      (expiryReady e).scene).1 = .ok (some 1, "op", sampleStarted) := by
    rcases h with rfl | rfl <;> decide +kernel
  have hattempt : ((sampleRuntime.attempt "op" sampleStarted).run (Scene.answer (expiryBeat e))
      (expiryStarted e)).1 = .error ("inference", e) := by
    rcases h with rfl | rfl <;> decide +kernel
  have hawait : (expiryScene e).interruption = some e := by
    rcases h with rfl | rfl <;> decide +kernel
  refine ⟨?_, hawait⟩
  unfold expiryStarted at hattempt
  unfold expiryScene expiryStarted
  exact breaks_of hopening hattempt

/-- The deadline interrupts an inference, and the cancellation that carries its usage is not
recorded as a timeout. -/
theorem a_cancellation_with_usage_hides_the_expiry :
    ¬ ∀ (now : ℚ) (clock : Clock) (self : SQLiteRun) (runId state : Dyn String)
      (limits : RunLimits) (observation : Option (Dyn String)),
      SQLiteRun.create now clock runId state limits observation = .ok self →
      limits.wallTimeSeconds.isSome = true → ∀ (world : Nat → Beat) (cues : Nat → Cue)
        (stepDue sessionDue : Bool), Expires stepDue sessionDue world cues → Quiet world →
        Silent cues → ∀ (sn : Session) (frame : Nat × Option ℚ) (s s₁ : Sitting)
          (step : SessionStep) (o : String) (f : String × Exn) (s₂ : Scene) (e : Exn),
          sn.Reaches world cues { scene := { store := self.after [] } } frame 0 {} s →
          Session.Stepping world cues {} s step s₁ →
          sn.runtime.Breaks world step.objective (some step.grants) s₁.scene o f s₂ →
          s₂.interruption = some e → e.Cancellation →
            sn.TimesOut world cues { scene := { store := self.after [] } } 1 := by
  intro h
  have hreach := expiry_reaches (.inr rfl)
  have hstep := expiry_stepping (.inr rfl)
  obtain ⟨hbreaks, hawait⟩ := expiry_breaks (.inr rfl)
  have he : sampleInferenceCancelled.Cancellation := .inr ⟨rfl, rfl⟩
  have htimes := h _ _ _ _ _ _ _ create_timedStore rfl _ _ _ _
    (expires_sample sampleInferenceCancelled) (fun _ _ hi => absurd hi List.not_mem_nil)
    (fun _ _ hi => absurd hi List.not_mem_nil) sampleSession _ _ _ expiryStep _ _ _ _ hreach hstep
    hbreaks hawait he
  have hdated : Dated (some (0 + 1)) (timedStore.after []) :=
    ⟨_, boundAt_after (create_boundAt create_timedStore) []⟩
  have hplain := ((hreach.timesOut_iff hdated rfl hstep hbreaks hawait he
    (expires_sample _) Nat.zero_lt_one).mp htimes).1
  exact absurd hplain (by decide)

/-- A plain cancellation of the same inference is recorded as a timeout. -/
theorem an_expiry_times_out_iff_the_cancellation_is_plain_sample :
    sampleSession.TimesOut (expiryBeat cancelledError) sampleCue expirySitting 1 := by
  have hreach := expiry_reaches (.inl rfl)
  have hstep := expiry_stepping (.inl rfl)
  obtain ⟨hbreaks, hawait⟩ := expiry_breaks (.inl rfl)
  have hwritable : Writable (expiryScene cancelledError).store :=
    ⟨by decide +kernel, by decide +kernel⟩
  exact (an_expiry_times_out_iff_the_cancellation_is_plain create_timedStore rfl []
    (expires_sample cancelledError) sampleSession (0, some 1) 0 {} _ _ expiryStep "op" _ _
    cancelledError 1 hreach hstep hbreaks hawait (.inl (by decide)) Nat.zero_lt_one).mpr
      ⟨by decide, hwritable⟩

end FlynnAgents
