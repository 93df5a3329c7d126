-- The phases of a step and of a recovery: what the runtime may ask when, as
-- far as the safety of the run depends on it. Both programs keep to it,
-- whatever they are answered.
import FlynnAgents.Runtime

namespace FlynnAgents

open Programs

/-- How far a task of the runtime has come. -/
inductive Phase where
  | idle
  | started (operationId : String)
  | reporting (operationId : String) (usage : InferenceUsage)
  | inferred (operationId : String)
  | dispatched (operationId : String) (externalAction : Bool)
  | executed (operationId : String)
  | returned (candidate : Candidate)
  | evaluated (candidate : Candidate) (evaluation : Dyn Evaluation)
  | finished (result : StepResult)

/-- The usage report that the answer of an adapter carries. -/
def reportOf : Except Exn (Dyn InferenceResult) → Option InferenceUsage
  | .ok (.typed ⟨_, .typed usage⟩) => some usage
  | .error e =>
    if e.isinstance .inferenceFailure || e.isinstance .inferenceCancelled then
      match e.usage with
      | some (.typed usage) => some usage
      | _ => none
    else none
  | _ => none

/-- The calls that a task may make in any phase but `reporting`: they read, or
they record what happened. -/
def Call.isQuiet : Call → Bool
  | .recordEvent _ | .failed _ _ | .outcome | .read | .latestObservation | .pending | .checkReady
  | .outputBudget | .secondsRemaining => true
  | _ => false

/-- The calls to the store that a task may make in a phase. -/
def Phase.mayCall : Phase → Call → Prop
  | .reporting o u, call => call = .recordUsage o (.typed u)
  | .idle, call => call.isQuiet = true ∨ (∃ o r out g, call = .start o r out g) ∨
      ∃ o, call = .abandonUndispatched o
  | .inferred o, call => call.isQuiet = true ∨ call = .recordUsage o .other ∨
      (∃ c, call = .proposed o c) ∨ (∃ g d, call = .recordGuard o g d) ∨
      ∃ b x, call = .dispatch o b x
  | .executed o, call => call.isQuiet = true ∨ ∃ out, call = .returned o out
  | .evaluated _ e, call => call.isQuiet = true ∨ call = .complete e
  | _, call => call.isQuiet = true

/-- What a task may ask the application in a phase. Each await has a phase of
its own. -/
def Phase.mayAsk (p : Phase) : Ask → Prop
  | .acquire => p = .idle
  | .generate o _ => p = .started o
  | .check _ o _ _ => p = .inferred o
  | .execute o tool _ => p = .dispatched o tool.externalAction
  | .evaluate c => p = .returned c
  | _ => ∀ o u, p ≠ .reporting o u

/-- The phase after an answer. -/
def Phase.next : Phase → (q : Req) → q.Answer → Phase
  | .idle, .store (.start o _ _ _), .ok _ => .started o
  | .idle, .store .pending, .ok (some ⟨_, _, some candidate⟩) => .returned candidate
  | .started o, .ask (.generate _ _), x =>
    match reportOf x with
    | some u => .reporting o u
    | none => .inferred o
  | .reporting o _, .store (.recordUsage _ _), _ => .inferred o
  | .inferred o, .store (.dispatch _ _ externalAction), .ok _ => .dispatched o externalAction
  | .dispatched o _, .ask (.execute _ _ _), _ => .executed o
  | .executed _, .store (.returned _ _), .ok candidate => .returned candidate
  | .returned c, .ask (.evaluate _), .ok evaluation => .evaluated c evaluation
  | .evaluated _ _, .store (.complete _), .ok result => .finished result
  | p, _, _ => p

/-- The protocol of the runtime. -/
def phases : Protocol Req Req.Answer Phase where
  allowed
    | p, .store call => p.mayCall call
    | p, .ask a => p.mayAsk a
  possible _ _ _ := True
  next := Phase.next

/-- No report waits to be written. -/
def Phase.Calm (p : Phase) : Prop := ∀ o u, p ≠ .reporting o u

/-- A program may end in a phase: no report waits, and a value is as `Q`
says. -/
def Ends {ε α : Type} (Q : α → Phase → Prop) (r : Except ε α) (p : Phase) : Prop :=
  p.Calm ∧ ∀ a, r = .ok a → Q a p

/-- A value leaves the phase as it was. -/
def Keeps {α : Type} (p : Phase) (_ : α) (p' : Phase) : Prop := p' = p

variable {p : Phase} {ε ε' α β : Type} {Q : α → Phase → Prop} {goal : β → Phase → Prop}

theorem calm_idle : Phase.idle.Calm := fun _ _ h => nomatch h

theorem calm_inferred (o : String) : (Phase.inferred o).Calm := fun _ _ h => nomatch h

theorem ends_error {e : ε} (hp : p.Calm) : Ends Q (.error e) p := ⟨hp, nofun⟩

theorem ends_ok {a : α} (hp : p.Calm) (h : Q a p) : Ends Q (.ok a : Except ε α) p :=
  ⟨hp, fun b hb => by cases hb; exact h⟩

theorem ends_all {r : Except ε α} (hp : p.Calm) (h : ∀ a, Q a p) : Ends Q r p :=
  ⟨hp, fun a _ => h a⟩

/-! ## Rules -/

theorem wp_then {x : Flow ε α} {f : α → Flow ε β} (hx : phases.wp x p (Ends Q))
    (hf : ∀ a p', p'.Calm → Q a p' → phases.wp (f a) p' (Ends goal)) :
    phases.wp (x >>= f) p (Ends goal) := by
  rw [Protocol.wp_bind]
  refine Protocol.wp_mono hx ?_
  rintro (e | a) p' ⟨hc, hg⟩
  · exact ends_error hc
  · exact hf a p' hc (hg a rfl)

theorem wp_handled {x : Flow ε α} {f : ε → Flow ε' α} (hx : phases.wp x p (Ends Q))
    (hf : ∀ e p', p'.Calm → phases.wp (f e) p' (Ends Q)) :
    phases.wp (x.catching f) p (Ends Q) := by
  rw [Protocol.wp_catching]
  refine Protocol.wp_mono hx ?_
  rintro (e | a) p' ⟨hc, hg⟩
  · exact hf e p' hc
  · exact ends_ok hc (hg a rfl)

theorem wp_value {a : α} (hp : p.Calm) (h : Q a p) :
    phases.wp (pure a : Flow ε α) p (Ends Q) := ends_ok hp h

theorem wp_raised {e : ε} (hp : p.Calm) : phases.wp (Prog.raise e : Flow ε α) p (Ends Q) :=
  ends_error hp

theorem wp_refusal {c : Prop} [Decidable c] {e : ε} (hp : p.Calm) :
    phases.wp (Prog.raiseIf c e : Flow ε Unit) p (Ends (Keeps p)) := by
  rw [Protocol.wp_raiseIf]
  split
  · exact ends_error hp
  · exact ends_ok hp rfl

/-- A quiet call leaves the phase as it is, but for `pending`. -/
theorem wp_quiet {call : Call} (hp : p.Calm) (hc : call.isQuiet = true) (hn : call ≠ .pending) :
    phases.wp (store call) p (Ends (Keeps p)) := by
  refine ⟨?_, fun x _ => ?_⟩
  · cases p with
    | reporting o u => exact absurd rfl (hp o u)
    | idle | inferred _ | executed _ | evaluated _ _ => exact .inl hc
    | _ => exact hc
  · have hnext : phases.next p (.store call) x = p := by
      change p.next (.store call) x = p
      cases call <;> first | (cases hc; done) | (exact absurd rfl hn) | (cases p <;> rfl)
    rw [hnext]
    exact ⟨hp, fun _ _ => rfl⟩

/-- The asks that no phase depends on. -/
def Ask.isPlain : Ask → Bool
  | .generate _ _ | .execute _ _ _ | .evaluate _ | .check _ _ _ _ | .acquire => false
  | _ => true

theorem wp_plain {a : Ask} {k : a.Answer → Flow ε α} (hp : p.Calm) (ha : a.isPlain = true)
    (h : ∀ x, phases.wp (k x) p (Ends Q)) : phases.wp (.ask (.ask a) k) p (Ends Q) := by
  refine ⟨?_, fun x _ => ?_⟩
  · change p.mayAsk a
    cases a <;> first | (cases ha; done) | exact hp
  · have hnext : phases.next p (.ask a) x = p := by
      change p.next (.ask a) x = p
      cases a <;> first | (cases ha; done) | (cases p <;> rfl)
    rw [hnext]
    exact h x

theorem wp_at {stage : String} {x : Flow Exn α} (h : phases.wp x p (Ends Q)) :
    phases.wp (at_ stage x) p (Ends Q) := by
  rw [at_, Protocol.wp_mapError]
  refine Protocol.wp_mono h ?_
  rintro (e | a) p' ⟨hc, hg⟩
  · exact ends_error hc
  · exact ends_ok hc (hg a rfl)

theorem wp_checkDeadline (hp : p.Calm) : phases.wp checkDeadline p (Ends (Keeps p)) := by
  refine wp_then (wp_quiet hp rfl (by simp)) fun left p' hp' hk => ?_
  cases hk
  exact wp_refusal hp'

theorem wp_expired {e : Exn} (hp : p.Calm) : phases.wp (expired e) p (Ends (Keeps p)) :=
  wp_plain hp rfl fun _ => ends_ok hp rfl

theorem wp_acquire : phases.wp acquire .idle (Ends (Keeps .idle)) := by
  refine ⟨rfl, fun x _ => ?_⟩
  have hnext : phases.next .idle (.ask .acquire) x = .idle := rfl
  rw [hnext]
  exact ⟨calm_idle, fun _ _ => rfl⟩

theorem wp_release (hp : p.Calm) : phases.wp release p (Ends (Keeps p)) :=
  wp_plain hp rfl fun _ => ends_ok hp rfl

theorem wp_locked {x : Flow Exn α} (hx : phases.wp x .idle (Ends Q)) :
    phases.wp (locked x) .idle (Ends Q) := by
  unfold locked
  apply wp_then wp_acquire
  intro u p' hp' hk
  cases hk
  unfold Prog.finally_
  refine wp_then (wp_handled hx fun e p' hp' => ?_) fun a p' hp' hg => ?_
  · exact wp_then (wp_release hp') fun _ _ hp'' _ => wp_raised hp''
  · refine wp_then (wp_release hp') fun _ p'' hp'' hk => ?_
    cases hk
    exact wp_value hp'' hg

theorem wp_timeout {x : Flow Exn α} (hp : p.Calm) (hx : phases.wp x p (Ends Q)) :
    phases.wp (timeout x) p (Ends Q) := by
  refine wp_then (wp_quiet hp rfl (by simp)) fun limit p' hp' hk => ?_
  cases hk
  refine wp_handled hx fun e p' hp' => ?_
  split
  · refine wp_then (wp_expired hp') fun b p'' hp'' _ => ?_
    split <;> exact wp_raised hp''
  · exact wp_raised hp'

/-! ## The parts of a step -/

namespace Runtime

variable {rt : Runtime} {o : String}

theorem wp_appendEvent {event : Event} (hp : p.Calm) :
    phases.wp (appendEvent event) p (Ends (Keeps p)) :=
  wp_plain hp rfl fun _ => ends_ok hp rfl

theorem wp_emit {event : Event} {b : Bool} (hp : p.Calm) :
    phases.wp (rt.emit event b) p (Ends (Keeps p)) := by
  unfold emit
  refine wp_then (wp_quiet hp rfl (by simp)) fun _ p' hp' hk => ?_
  cases hk
  refine wp_then (wp_appendEvent hp') fun _ p' hp' hk => ?_
  cases hk
  split
  · exact wp_plain hp' rfl fun _ => ⟨hp', fun _ _ => rfl⟩
  · exact wp_value hp' rfl

theorem wp_recordFailure {f : String × Exn} {Q : StepResult → Phase → Prop} (hp : p.Calm) :
    phases.wp (rt.recordFailure o f) p (Ends Q) := by
  obtain ⟨stage, error⟩ := f
  unfold recordFailure
  refine wp_then (wp_quiet hp rfl (by simp)) fun _ p' hp' hk => ?_
  refine wp_then (wp_emit hp') fun _ p' hp' hk => ?_
  dsimp only
  split
  · exact wp_plain hp' rfl fun _ => wp_raised hp'
  · exact wp_raised hp'

theorem wp_prepared {request : InferenceRequest} (hp : p.Calm) :
    phases.wp (rt.prepared request) p (Ends (Keeps p)) := by
  unfold prepared
  split
  · exact wp_plain hp rfl fun _ => ⟨hp, fun _ _ => rfl⟩
  · exact wp_value hp rfl

theorem wp_request {objective : String} {base : State} {effective : List String} (hp : p.Calm) :
    phases.wp (rt.request objective base effective) p (Ends (Keeps p)) := by
  unfold request
  refine wp_then (wp_quiet hp rfl (by simp)) fun observation p' hp' hk => ?_
  cases hk
  refine wp_then (wp_prepared hp) fun request p' hp' hk => ?_
  cases hk
  refine wp_then (wp_refusal hp) fun _ p' hp' hk => ?_
  cases hk
  refine wp_then (wp_refusal hp) fun _ p' hp' hk => ?_
  exact wp_value hp' hk

theorem wp_reservation {request : InferenceRequest} (hp : p.Calm) :
    phases.wp (rt.reservation request) p (Ends (Keeps p)) := by
  unfold reservation
  refine wp_then (wp_quiet hp rfl (by simp)) fun budget p' hp' hk => ?_
  cases hk
  split
  · exact wp_value hp rfl
  · refine wp_then (wp_refusal hp) fun _ p' hp' hk => ?_
    cases hk
    refine wp_then (Q := Keeps p) (wp_plain hp rfl fun _ => ⟨hp, fun _ _ => rfl⟩)
      fun reservation p' hp' hk => ?_
    cases hk
    split
    · exact wp_raised hp
    · refine wp_then (wp_refusal hp) fun _ p' hp' hk => ?_
      exact wp_value hp' hk

theorem wp_prepare {broker : ToolBroker} {call : ToolCall} {grants : List String} (hp : p.Calm) :
    phases.wp (broker.prepare call grants) p (Ends (Keeps p)) := by
  unfold ToolBroker.prepare
  refine wp_then (wp_refusal hp) fun _ p' hp' hk => ?_
  cases hk
  split
  · exact wp_raised hp
  · refine wp_then (Q := Keeps p) (wp_handled ?_ fun e p' hp' => ?_) fun _ p' hp' hk => ?_
    · exact wp_plain hp rfl fun _ => ⟨hp, fun _ _ => rfl⟩
    · split
      · exact wp_raised hp'
      · split <;> exact wp_raised hp'
    · exact wp_value hp' hk

theorem wp_checkGuard {request : InferenceRequest} {call : ToolCall} {guard : DispatchGuard} :
    phases.wp (rt.checkGuard o request call guard) (.inferred o) (Ends (Keeps (.inferred o))) := by
  have hp := calm_inferred o
  unfold checkGuard
  refine wp_then (Q := Keeps (.inferred o)) ⟨rfl, fun x _ => ⟨hp, fun _ _ => rfl⟩⟩
    fun decision p' hp' hk => ?_
  cases hk
  split
  · exact wp_raised hp
  · rename_i decision
    refine wp_then (Q := Keeps (.inferred o)) ?_ fun _ p' hp' hk => ?_
    · exact ⟨.inr (.inr (.inr (.inl ⟨_, _, rfl⟩))), fun x _ => ⟨hp, fun _ _ => rfl⟩⟩
    · cases hk
      refine wp_then (wp_emit hp) fun _ p' hp' hk => ?_
      cases hk
      exact wp_refusal hp

/-- The phase in which a report waits to be written. -/
def reportPhase (o : String) : Dyn InferenceUsage → Phase
  | .typed usage => .reporting o usage
  | .other => .inferred o

theorem wp_report {usage : Dyn InferenceUsage} :
    phases.wp (store (.recordUsage o usage)) (reportPhase o usage) fun _ p => p = .inferred o := by
  rcases usage with u | _
  · exact ⟨rfl, fun _ _ => rfl⟩
  · exact ⟨.inr (.inl rfl), fun _ _ => rfl⟩

/-- The report of an answer is handed to the store before anything else. -/
theorem wp_infer {request : InferenceRequest} :
    phases.wp (infer o request) (.started o) (Ends (Keeps (.inferred o))) := by
  have hp := calm_inferred o
  unfold infer
  rw [Protocol.wp_bind, Protocol.wp_catching]
  refine ⟨rfl, fun x _ => ?_⟩
  change phases.wp (.ret x) ((Phase.started o).next (.ask (.generate o request)) x) _
  rw [Protocol.wp_ret]
  rcases x with e | (response | _)
  · by_cases hc : (e.isinstance .inferenceFailure || e.isinstance .inferenceCancelled) = true
    · rcases hu : e.usage with _ | usage
      · simp only [Phase.next, reportOf, hc, hu, if_true]
        exact ends_error hp
      · have hnext : (Phase.started o).next (.ask (.generate o request)) (.error e) =
            reportPhase o usage := by
          rcases usage with u | _ <;> simp only [Phase.next, reportOf, hc, hu, if_true, reportPhase]
        simp only [hnext, hc, hu, if_true]
        rw [Protocol.wp_bind]
        refine Protocol.wp_mono wp_report ?_
        rintro (e' | u) p' rfl <;> exact ends_error hp
    · simp only [Phase.next, reportOf, hc]
      exact ends_error hp
  · have hnext : (Phase.started o).next (.ask (.generate o request)) (.ok (.typed response)) =
        reportPhase o response.usage := by
      rcases response with ⟨call, u | _⟩ <;> rfl
    rw [hnext]
    refine Protocol.wp_bind.mpr (Protocol.wp_mono wp_report ?_)
    rintro (e | u) p' rfl
    · exact ends_error hp
    · exact ends_ok hp rfl
  · exact ends_error hp

theorem wp_publish {call : ToolCall} {candidate : Candidate} :
    phases.wp (rt.publish o call candidate) (.returned candidate)
      (Ends fun result p => p = .finished result) := by
  have hp : (Phase.returned candidate).Calm := fun _ _ h => nomatch h
  unfold publish
  refine wp_then (wp_emit hp) fun _ p' hp' hk => ?_
  cases hk
  refine wp_then (wp_checkDeadline hp) fun _ p' hp' hk => ?_
  cases hk
  refine wp_then (Q := fun e p' => p' = .evaluated candidate e) ⟨rfl, fun x _ => ?_⟩
    fun e p' hp' hk => ?_
  · rcases x with e | e
    · exact ends_error hp
    · exact ends_ok (fun _ _ h => nomatch h) rfl
  · subst hk
    refine wp_then (wp_checkDeadline hp') fun _ p' hp' hk => ?_
    cases hk
    refine ⟨.inr rfl, fun x _ => ?_⟩
    rcases x with e | e
    · exact ends_error hp'
    · exact ends_ok (fun _ _ h => nomatch h) rfl

theorem wp_attempt {request : InferenceRequest} :
    phases.wp (rt.attempt o request) (.started o) (Ends fun result p => p = .finished result) := by
  have hi := calm_inferred o
  have hs : (Phase.started o).Calm := fun _ _ h => nomatch h
  unfold attempt
  refine wp_then (wp_at (wp_emit hs)) fun _ p' hp' hk => ?_
  cases hk
  refine wp_then (wp_at wp_infer) fun response p' hp' hk => ?_
  cases hk
  refine wp_then (Q := Keeps (.inferred o)) (wp_at ?_) fun _ p' hp' hk => ?_
  · exact ⟨.inr (.inr (.inl ⟨_, rfl⟩)), fun x _ => ⟨hi, fun _ _ => rfl⟩⟩
  cases hk
  refine wp_then (wp_at (wp_emit hi)) fun _ p' hp' hk => ?_
  cases hk
  refine wp_then (Q := Keeps (.inferred o)) (wp_at ⟨hi, fun _ _ => rfl⟩) fun call p' hp' hk => ?_
  cases hk
  refine wp_then (wp_at (wp_prepare hi)) fun tool p' hp' hk => ?_
  cases hk
  refine wp_then (Q := Keeps (.inferred o)) ?_ fun _ p' hp' hk => ?_
  · refine Protocol.wp_forEach (· = .inferred o) rfl (fun guard _ p hp => ?_) fun p hp => ?_
    · subst hp
      refine Protocol.wp_mono (wp_at wp_checkGuard) ?_
      rintro (e | u) p' ⟨hc, hk⟩
      · exact ends_error hc
      · exact hk u rfl
    · subst hp
      exact ends_ok hi rfl
  cases hk
  refine wp_then (Q := fun _ p => p = .dispatched o tool.externalAction) (wp_at ?_)
    fun _ p' hp' hk => ?_
  · refine ⟨.inr (.inr (.inr (.inr ⟨_, _, rfl⟩))), fun x _ => ?_⟩
    rcases x with e | u
    · exact ends_error hi
    · exact ends_ok (fun _ _ h => nomatch h) rfl
  subst hk
  refine wp_then (wp_at (wp_emit hp')) fun _ p' hp' hk => ?_
  cases hk
  refine wp_then (Q := fun _ p => p = .executed o) (wp_at ?_) fun output p' hp' hk => ?_
  · exact ⟨rfl, fun x _ => ends_all (fun _ _ h => nomatch h) fun _ => rfl⟩
  subst hk
  refine wp_then (Q := fun c p => p = .returned c) (wp_at ?_) fun candidate p' hp' hk => ?_
  · refine ⟨.inr ⟨_, rfl⟩, fun x _ => ?_⟩
    rcases x with e | c
    · exact ends_error hp'
    · exact ends_ok (fun _ _ h => nomatch h) rfl
  subst hk
  refine wp_then (wp_at wp_publish) fun result p' hp' hk => ?_
  refine wp_then (wp_at (wp_emit hp')) fun _ p'' hp'' hk' => ?_
  cases hk'
  exact wp_value hp'' hk

theorem wp_stepBody {objective : String} {grants : Option (List String)} :
    phases.wp (rt.stepBody objective grants) .idle (Ends fun result p => p = .finished result) := by
  unfold stepBody
  refine wp_then (wp_refusal calm_idle) fun _ p' hp' hk => ?_
  cases hk
  refine wp_then (wp_quiet calm_idle rfl (by simp)) fun base p' hp' hk => ?_
  cases hk
  refine wp_then (wp_request calm_idle) fun request p' hp' hk => ?_
  cases hk
  refine wp_then (wp_reservation calm_idle) fun plan p' hp' hk => ?_
  cases hk
  refine wp_then (Q := Keeps .idle) (wp_plain calm_idle rfl fun _ => ends_ok calm_idle rfl)
    fun o p' hp' hk => ?_
  cases hk
  refine wp_then (Q := fun _ p => p = .started o) ?_ fun _ p' hp' hk => ?_
  · refine ⟨.inr (.inl ⟨_, _, _, _, rfl⟩), fun x _ => ?_⟩
    rcases x with e | u
    · exact ends_error calm_idle
    · exact ends_ok (fun _ _ h => nomatch h) rfl
  · subst hk
    exact wp_handled wp_attempt fun e p' hp' => wp_recordFailure hp'

/-- A step keeps to the phases, whatever it is answered. -/
theorem wp_step {objective : String} {grants : Option (List String)} :
    phases.wp (rt.step objective grants) .idle (Ends fun result p => p = .finished result) := by
  unfold step
  refine wp_locked (wp_then (Q := Keeps .idle) ?_ fun _ p' hp' hk => ?_)
  · exact wp_plain calm_idle rfl fun _ => ends_ok calm_idle rfl
  · cases hk
    refine wp_then (wp_quiet calm_idle rfl (by simp)) fun _ p' hp' hk => ?_
    cases hk
    exact wp_timeout calm_idle wp_stepBody

/-- The phase of a recovery that has read what is pending. -/
def pendingPhase : Option PendingOperation → Phase
  | some ⟨_, _, some candidate⟩ => .returned candidate
  | _ => .idle

theorem wp_pending :
    phases.wp (store .pending) .idle (Ends fun pending p => p = pendingPhase pending) := by
  refine ⟨.inl rfl, fun x _ => ?_⟩
  rcases x with e | _ | ⟨id, stage, _ | candidate⟩
  · exact ends_error calm_idle
  · exact ends_ok calm_idle rfl
  · exact ends_ok calm_idle rfl
  · exact ends_ok (fun _ _ h => nomatch h) rfl

/-- The evaluation of a recovered candidate, and its publication. -/
theorem wp_republish {candidate : Candidate} :
    phases.wp (do
        let evaluation ← evaluate candidate
        checkDeadline
        let result ← store (.complete evaluation)
        return some result : Flow Exn (Option StepResult)) (.returned candidate)
      (Ends fun result p => ∀ r, result = some r → p = .finished r) := by
  refine wp_then (Q := fun e p' => p' = .evaluated candidate e) ⟨rfl, fun x _ => ?_⟩
    fun e p' hp' hk => ?_
  · rcases x with e | e
    · exact ends_error fun _ _ h => nomatch h
    · exact ends_ok (fun _ _ h => nomatch h) rfl
  · subst hk
    refine wp_then (wp_checkDeadline hp') fun _ p' hp' hk => ?_
    cases hk
    refine wp_then (Q := fun r p' => p' = .finished r) ⟨.inr rfl, fun x _ => ?_⟩
      fun r p' hp' hk => ?_
    · rcases x with e | r
      · exact ends_error hp'
      · exact ends_ok (fun _ _ h => nomatch h) rfl
    · exact wp_value hp' fun r' hr => by cases hr; exact hk

/-- A recovery keeps to the phases, whatever it is answered. -/
theorem wp_recover :
    phases.wp recover .idle
      (Ends fun result p => ∀ r, result = some r → p = .finished r) := by
  unfold recover
  refine wp_locked (wp_then (wp_quiet calm_idle rfl (by simp)) fun outcome p' hp' hk => ?_)
  cases hk
  refine wp_then (wp_refusal calm_idle) fun _ p' hp' hk => ?_
  cases hk
  refine wp_then wp_pending fun pending p' hp' hk => ?_
  subst hk
  rcases pending with _ | ⟨id, stage, candidate⟩
  · exact wp_value hp' fun r hr => by cases hr
  · refine wp_then (wp_refusal hp') fun _ p' hp' hk => ?_
    cases hk
    rcases candidate with _ | candidate
    · refine wp_then (Q := Keeps .idle) ⟨.inr (.inr ⟨_, rfl⟩), fun x _ => ?_⟩
        fun _ p' hp' hk => wp_value hp' fun r hr => by cases hr
      exact ⟨calm_idle, fun _ _ => rfl⟩
    · refine wp_then (wp_checkDeadline hp') fun _ p' hp' hk => ?_
      cases hk
      exact wp_timeout hp' wp_republish

end Runtime

end FlynnAgents
