-- The output plan of a step with the DeepSeek adapter, from the budget to the report: what
-- is planned is reserved, what is reserved is sent, and what is reported is an answer.
import FlynnAgents.Authority
import FlynnAgents.DeepSeekLaws

namespace FlynnAgents

open Programs

variable {a : DeepSeekAdapter} {loads : Loads} {truth : String → Int} {o : String}
  {request : InferenceRequest} {h h' : Speech} {ε ε' α β : Type}

/-! ## The adapter -/

/-- A plan stays within the limit of the adapter and the ceiling of the request. -/
theorem planOutput_ok {available : Int} {x : Dyn OutputReservation}
    (hx : a.planOutput request available = .ok x) : ∃ reservation : OutputReservation,
    x = .typed reservation ∧ reservation.kind = .model ∧ reservation.tokens ≤ a.maxTokens ∧
      ∀ c, request.maxOutputTokens = some c → reservation.tokens ≤ c := by
  unfold DeepSeekAdapter.planOutput at hx
  split at hx
  · cases hx
  obtain ⟨limit, hlimit, hx⟩ := except_bind_ok hx
  obtain ⟨reservation, hcreate, hx⟩ := except_bind_ok hx
  cases hx
  have hfields : reservation.toReservationFields = ⟨.model, min available limit⟩ := by
    unfold ReservationFields.create at hcreate
    split at hcreate
    · cases hcreate
      rfl
    · cases hcreate
  refine ⟨reservation, rfl, by rw [hfields], ?_⟩
  rw [hfields]
  unfold DeepSeekAdapter.outputLimit at hlimit
  split at hlimit
  · next hnone =>
    cases hlimit
    exact ⟨min_le_right _ _, fun c hc => by rw [hnone] at hc; cases hc⟩
  · next limit' hsome =>
    split at hlimit
    · cases hlimit
    · cases hlimit
      refine ⟨(min_le_right _ _).trans (min_le_left _ _), fun c hc => ?_⟩
      rw [hsome] at hc
      cases hc
      exact (min_le_right _ _).trans (min_le_right _ _)

/-- What is sent allows the ceiling of the request, within the limit of the adapter. -/
theorem prepare_limit {sent : Payload × String} (hp : a.prepare loads request = .ok sent)
    {m : Int} (hm : request.maxOutputTokens = some m) : sent.1.maxTokens = min a.maxTokens m := by
  cases hfunctions : a.functions loads request with
  | error e =>
    simp only [DeepSeekAdapter.prepare, DeepSeekAdapter.payload, hfunctions] at hp
    cases hp
  | ok tools =>
    rw [prepare_eq hfunctions] at hp
    split at hp
    · cases hp
    split at hp
    · cases hp
    have hlimit : a.outputLimit request = .error (providerError
        "A model request requires a positive output-token ceiling") ∨
        a.outputLimit request = .ok (min a.maxTokens m) := by
      unfold DeepSeekAdapter.outputLimit
      rw [hm]
      by_cases hpos : m ≤ 0
      · exact .inl (if_pos hpos)
      · exact .inr (if_neg hpos)
    rcases hlimit with hlimit | hlimit <;> rw [hlimit] at hp
    · cases hp
    · dsimp only at hp
      split at hp
      · cases hp
      · cases hp
        rfl

/-- The adapter answers a request: with what it makes of the POST, whose completion count, if
there is one, is the true one. -/
def DeepSeekAdapter.Answers (a : DeepSeekAdapter) (loads : Loads) (truth : String → Int)
    (o : String) (request : InferenceRequest) (x : Except Exn (Dyn InferenceResult)) : Prop :=
  ∃ redact sink posted, x = (a.generate loads redact sink request posted).outcome.map Dyn.typed ∧
    ∀ sent n, a.prepare loads request = .ok sent →
      ReportedCount "completion_tokens" posted n → n = truth o

/-- The report that an exit hands on is that of its attempt. -/
theorem generate_reports {redact : Redactor} {sink : Sink} {posted : Posted} {u : InferenceUsage}
    (hu : reportOf ((a.generate loads redact sink request posted).outcome.map Dyn.typed) = some u) :
    u.toUsageFields = (a.attempt loads redact request posted).usageFields := by
  obtain ⟨usage, hcreate, hfields⟩ := attempt_reports a loads redact request posted
  rw [← hfields]
  rcases @generate_usage a loads redact sink request posted usage hcreate with hcarried |
    ⟨e, hescaped, hnone⟩
  · cases hexit : a.generate loads redact sink request posted with
    | escaped e =>
      rw [hexit] at hcarried
      cases hcarried
    | _ =>
      rw [hexit] at hu hcarried
      cases hcarried
      exact congrArg _ (Option.some.inj hu).symm
  · rw [hescaped] at hu
    simp only [Exit.outcome, Except.map, reportOf, hnone] at hu
    split at hu <;> cases hu

/-- What the report of an answer says: the truth of what was sent, or nothing spent. -/
theorem answers_report {x : Except Exn (Dyn InferenceResult)} {u : InferenceUsage}
    (hx : a.Answers loads truth o request x) (hu : reportOf x = some u) :
    u.kind = .model ∧
      (∀ sent n, a.prepare loads request = .ok sent → u.outputTokens = some n → n = truth o) ∧
      (∀ e, a.prepare loads request = .error e → u.outputTokens = some 0) := by
  obtain ⟨redact, sink, posted, rfl, htrue⟩ := hx
  have hfields := generate_reports hu
  refine ⟨by rw [hfields]; rfl, fun sent n hsent hn => ?_, fun e hrefused => ?_⟩
  · obtain ⟨p, digest⟩ := sent
    have hcounts := (sent_usage hsent hfields).2.2.2.2.1
    exact htrue _ n hsent ((hcounts n).mp hn)
  · rw [hfields, attempt_refused hrefused]
    rfl

/-! ## What a step may say -/

/-- The requests that plan, reserve, send or report output. -/
def Req.plans : Req → Bool
  | .store (.start ..) | .store (.recordUsage ..) => true
  | .ask (.prepareRequest _) | .ask (.planOutput ..) | .ask (.generate ..) => true
  | _ => false

def Req.generates : Req → Bool
  | .ask (.generate ..) => true
  | _ => false

/-- Nothing was sent yet. -/
def Unsent (h : Speech) : Prop := ∀ e ∈ h, e.request.generates = false

/-- The tokens are within every ceiling that `prepare_request` has set. -/
def WithinCeilings (h : Speech) (tokens : Int) : Prop :=
  ∀ prior prepared c, ⟨.ask (.prepareRequest prior), .ok prepared⟩ ∈ h →
    prepared.maxOutputTokens = some c → tokens ≤ c

/-- A reservation of a start comes from the plan of the adapter. -/
structure Reserves (a : DeepSeekAdapter) (h : Speech) (reservation : OutputReservation) :
    Prop where
  kind : reservation.kind = .model
  adapter : reservation.tokens ≤ a.maxTokens
  ceilings : WithinCeilings h reservation.tokens

/-- The operation was started with a request and an output that the adapter planned. -/
def StartedWith (h : Speech) (o : String) (request : InferenceRequest)
    (output : Option (Dyn OutputReservation)) : Prop :=
  ∃ guards, ⟨.store (.start o request output guards), .ok ()⟩ ∈ h

/-- What a task may ask after it has said `h`. -/
def MayPlan (a : DeepSeekAdapter) (h : Speech) : Req → Prop
  | .store (.start _ _ output _) => Unsent h ∧ ∀ x, output = some x →
      ∃ reservation, x = .typed reservation ∧ Reserves a h reservation
  | .store (.recordUsage o (.typed u)) => ∃ request x,
      ⟨.ask (.generate o request), x⟩ ∈ h ∧ reportOf x = some u
  | .ask (.prepareRequest _) => Unsent h
  | .ask (.generate o request) => Unsent h ∧ ∃ output, StartedWith h o request output ∧
      ∀ reservation, output = some (.typed reservation) → WithinCeilings h reservation.tokens
  | _ => True

/-- The protocol of a step whose adapter is `a`. -/
def planned (a : DeepSeekAdapter) (loads : Loads) (truth : String → Int) :
    Protocol Req Req.Answer Speech where
  allowed := MayPlan a
  possible
    | _, .ask (.planOutput request available), x => x = a.planOutput request available
    | _, .ask (.generate o request), x => a.Answers loads truth o request x
    | _, _, _ => True
  next h q x := h ++ [⟨q, x⟩]

theorem mayPlan_plain {q : Req} (hq : q.plans = false) : MayPlan a h q := by
  unfold MayPlan
  split <;> trivial

/-- The program keeps to the protocol from here on. -/
def KeepsPlan (a : DeepSeekAdapter) (loads : Loads) (truth : String → Int) (x : Flow ε α)
    (h : Speech) : Prop :=
  (planned a loads truth).wp x h fun _ _ => True

/-- More was said that plans nothing. -/
def AddsPlain (h h' : Speech) : Prop := ∃ new, h' = h ++ new ∧ ∀ e ∈ new, e.request.plans = false

theorem addsPlain_refl (h : Speech) : AddsPlain h h := ⟨[], by simp, by simp⟩

theorem AddsPlain.trans {h'' : Speech} (h₁ : AddsPlain h h') (h₂ : AddsPlain h' h'') :
    AddsPlain h h'' := by
  obtain ⟨new, rfl, hn⟩ := h₁
  obtain ⟨more, rfl, hm⟩ := h₂
  refine ⟨new ++ more, by simp, fun e he => ?_⟩
  rcases List.mem_append.mp he with he | he
  · exact hn e he
  · exact hm e he

theorem addsPlain_one {q : Req} (hq : q.plans = false) (x : q.Answer) :
    AddsPlain h (h ++ [⟨q, x⟩]) := by
  refine ⟨[⟨q, x⟩], rfl, fun e he => ?_⟩
  obtain rfl := List.mem_singleton.mp he
  exact hq

theorem AddsPlain.unsent (ha : AddsPlain h h') (hu : Unsent h) : Unsent h' := by
  obtain ⟨new, rfl, hn⟩ := ha
  intro e he
  rcases List.mem_append.mp he with he | he
  · exact hu e he
  · have hplain := hn e he
    revert hplain
    unfold Req.generates
    split <;> simp_all [Req.plans]

theorem AddsPlain.ceilings (ha : AddsPlain h h') {m : Int} (hc : WithinCeilings h m) :
    WithinCeilings h' m := by
  obtain ⟨new, rfl, hn⟩ := ha
  intro prior prepared c hm hsome
  rcases List.mem_append.mp hm with hm | hm
  · exact hc prior prepared c hm hsome
  · have := hn _ hm
    cases this

theorem AddsPlain.started (ha : AddsPlain h h') {output : Option (Dyn OutputReservation)}
    (hs : StartedWith h o request output) : StartedWith h' o request output := by
  obtain ⟨new, rfl, -⟩ := ha
  obtain ⟨guards, hm⟩ := hs
  exact ⟨guards, List.mem_append_left new hm⟩

/-! ## Programs that plan nothing -/

/-- A program that plans nothing, whatever it is answered. -/
def plain : Protocol Req Req.Answer Unit where
  allowed _ q := q.plans = false
  possible _ _ _ := True
  next _ _ _ := ()

def Plain (x : Flow ε α) : Prop := plain.wp x () fun _ _ => True

theorem plain_ask {q : Req} {k : q.Answer → Flow ε α} (hq : q.plans = false)
    (hk : ∀ x, Plain (k x)) : Plain (.ask q k) := ⟨hq, fun x _ => hk x⟩

theorem plain_ret {r : Except ε α} : Plain (.ret r : Flow ε α) := trivial

theorem plain_store {call : Call} (hc : (Req.store call).plans = false) : Plain (store call) :=
  plain_ask hc fun _ => plain_ret

theorem plain_raiseIf (p : Prop) [Decidable p] (e : ε) :
    Plain (Prog.raiseIf p e : Flow ε Unit) := by
  unfold Plain
  rw [Protocol.wp_raiseIf]
  split <;> trivial

theorem plain_then {x : Flow ε α} {f : α → Flow ε β} (hx : Plain x) (hf : ∀ a, Plain (f a)) :
    Plain (x >>= f) := by
  refine Protocol.wp_bind.mpr (Protocol.wp_mono hx ?_)
  rintro (e | a) p -
  · trivial
  · exact hf a

theorem plain_handled {x : Flow ε α} {f : ε → Flow ε' α} (hx : Plain x)
    (hf : ∀ e, Plain (f e)) : Plain (x.catching f) := by
  refine Protocol.wp_catching.mpr (Protocol.wp_mono hx ?_)
  rintro (e | a) p -
  · exact hf e
  · trivial

theorem plain_at {stage : String} {x : Flow Exn α} (hx : Plain x) : Plain (at_ stage x) :=
  plain_handled hx fun _ => plain_ret

theorem plain_forEach {τ : Type} {f : τ → Flow ε Unit} (hf : ∀ t, Plain (f t)) (ts : List τ) :
    Plain (Prog.forEach f ts) := by
  induction ts with
  | nil => exact plain_ret
  | cons t ts ih => exact plain_then (hf t) fun _ => ih

/-- What such a program says, it may say at any time. -/
theorem Plain.wp {x : Flow ε α} (hx : Plain x) (h : Speech) :
    (planned a loads truth).wp x h fun _ h' => AddsPlain h h' := by
  induction x generalizing h with
  | ret r => exact addsPlain_refl h
  | ask q k ih =>
    refine ⟨mayPlan_plain hx.1, fun x _ => ?_⟩
    refine Protocol.wp_mono (ih x (hx.2 x trivial) _) fun _ h' ha => ?_
    exact (addsPlain_one hx.1 x).trans ha

theorem Plain.keeps {x : Flow ε α} (hx : Plain x) (h : Speech) : KeepsPlan a loads truth x h :=
  Protocol.wp_mono (hx.wp h) fun _ _ _ => trivial

theorem keeps_then {x : Flow ε α} {f : α → Flow ε β} (hx : Plain x)
    (hf : ∀ v h', AddsPlain h h' → KeepsPlan a loads truth (f v) h') :
    KeepsPlan a loads truth (x >>= f) h := by
  refine Protocol.wp_bind.mpr (Protocol.wp_mono (hx.wp h) ?_)
  rintro (e | v) h' ha
  · trivial
  · exact hf v h' ha

theorem keeps_before {x : Flow ε α} {f : α → Flow ε β} (hx : KeepsPlan a loads truth x h)
    (hf : ∀ v, Plain (f v)) : KeepsPlan a loads truth (x >>= f) h := by
  refine Protocol.wp_bind.mpr (Protocol.wp_mono hx ?_)
  rintro (e | v) h' -
  · trivial
  · exact (hf v).keeps h'

theorem keeps_handled {x : Flow ε α} {f : ε → Flow ε' α} (hx : KeepsPlan a loads truth x h)
    (hf : ∀ e, Plain (f e)) : KeepsPlan a loads truth (x.catching f) h := by
  refine Protocol.wp_catching.mpr (Protocol.wp_mono hx ?_)
  rintro (e | v) h' -
  · exact (hf e).keeps h'
  · trivial

/-! ## The parts of a step -/

section Parts

variable {rt : Runtime}

theorem plain_emit {event : Event} {b : Bool} : Plain (rt.emit event b) := by
  unfold Runtime.emit
  refine plain_then (plain_store rfl) fun _ => ?_
  refine plain_then (plain_ask rfl fun _ => plain_ret) fun _ => ?_
  split
  · exact plain_ask rfl fun _ => plain_ret
  · exact plain_ret

theorem plain_release : Plain release := plain_ask rfl fun _ => plain_ret

theorem plain_deadline : Plain checkDeadline :=
  plain_then (plain_store rfl) fun _ => plain_raiseIf _ _

theorem plain_prepare {broker : ToolBroker} {call : ToolCall} {allowed : List String} :
    Plain (broker.prepare call allowed) := by
  unfold ToolBroker.prepare
  refine plain_then (plain_raiseIf _ _) fun _ => ?_
  split
  · exact plain_ret
  · refine plain_then (plain_handled (plain_ask rfl fun _ => plain_ret) fun e => ?_)
      fun _ => plain_ret
    split
    · exact plain_ret
    · split <;> exact plain_ret

theorem plain_checkGuard {call : ToolCall} {guard : DispatchGuard} :
    Plain (rt.checkGuard o request call guard) := by
  unfold Runtime.checkGuard
  refine plain_then (plain_ask rfl fun _ => plain_ret) fun decision => ?_
  split
  · exact plain_ret
  · refine plain_then (plain_store rfl) fun _ => plain_then plain_emit fun _ => ?_
    exact plain_raiseIf _ _

theorem plain_publish {call : ToolCall} {candidate : Candidate} :
    Plain (rt.publish o call candidate) := by
  unfold Runtime.publish
  refine plain_then plain_emit fun _ => plain_then plain_deadline fun _ => ?_
  refine plain_then (plain_ask rfl fun _ => plain_ret) fun _ => ?_
  exact plain_then plain_deadline fun _ => plain_store rfl

theorem plain_recordFailure {failure : String × Exn} : Plain (rt.recordFailure o failure) := by
  obtain ⟨stage, error⟩ := failure
  unfold Runtime.recordFailure
  refine plain_then (plain_store rfl) fun _ => plain_then plain_emit fun _ => ?_
  dsimp only
  split
  · exact plain_then (plain_ask rfl fun _ => plain_ret) fun _ => plain_ret
  · exact plain_ret

/-- The inference sends the request that was started, and reports what it was answered. -/
theorem keeps_infer {output : Option (Dyn OutputReservation)} (hu : Unsent h)
    (hs : StartedWith h o request output)
    (hc : ∀ reservation, output = some (.typed reservation) → WithinCeilings h reservation.tokens) :
    KeepsPlan a loads truth (Runtime.infer o request) h := by
  have hreport : ∀ (x : Except Exn (Dyn InferenceResult)) (usage : Dyn InferenceUsage),
      (∀ u, usage = .typed u → reportOf x = some u) →
      MayPlan a (h ++ [⟨.ask (.generate o request), x⟩]) (.store (.recordUsage o usage)) := by
    intro x usage hx
    cases usage with
    | other => trivial
    | typed u => exact ⟨request, x, by simp, hx u rfl⟩
  unfold KeepsPlan Runtime.infer
  refine Protocol.wp_bind.mpr (Protocol.wp_catching.mpr ⟨⟨hu, output, hs, hc⟩, fun x _ => ?_⟩)
  cases x with
  | error e =>
    by_cases hfailure : e.isinstance .inferenceFailure || e.isinstance .inferenceCancelled
    · cases husage : e.usage with
      | none =>
        simp only [Protocol.wp_ret, hfailure, husage, if_true]
        trivial
      | some usage =>
        simp only [Protocol.wp_ret, hfailure, husage, if_true]
        refine ⟨hreport _ usage fun u hu => ?_, fun y _ => ?_⟩
        · simp only [reportOf, hfailure, husage, hu, if_true]
        · cases y <;> trivial
    · simp only [Protocol.wp_ret, hfailure]
      trivial
  | ok response =>
    cases response with
    | other => trivial
    | typed response =>
      refine ⟨hreport _ response.usage fun u hu => ?_, fun y _ => ?_⟩
      · obtain ⟨call, usage⟩ := response
        cases hu
        rfl
      · cases y <;> trivial

theorem keeps_attempt {output : Option (Dyn OutputReservation)} (hu : Unsent h)
    (hs : StartedWith h o request output)
    (hc : ∀ reservation, output = some (.typed reservation) → WithinCeilings h reservation.tokens) :
    KeepsPlan a loads truth (rt.attempt o request) h := by
  unfold Runtime.attempt
  refine keeps_then (plain_at plain_emit) fun _ h' ha => ?_
  refine keeps_before (keeps_handled (keeps_infer (ha.unsent hu) (ha.started hs)
    fun reservation hr => ha.ceilings (hc reservation hr)) fun _ => plain_ret) fun response => ?_
  refine plain_then (plain_at (plain_store rfl)) fun _ => ?_
  refine plain_then (plain_at plain_emit) fun _ => ?_
  refine plain_then (plain_at plain_ret) fun call => ?_
  refine plain_then (plain_at plain_prepare) fun tool => ?_
  refine plain_then (plain_forEach (fun _ => plain_at plain_checkGuard) _) fun _ => ?_
  refine plain_then (plain_at (plain_store rfl)) fun _ => ?_
  refine plain_then (plain_at plain_emit) fun _ => ?_
  refine plain_then (plain_at (plain_ask rfl fun _ => plain_ret)) fun _ => ?_
  refine plain_then (plain_at (plain_store rfl)) fun _ => ?_
  refine plain_then (plain_at plain_publish) fun _ => ?_
  exact plain_then (plain_at plain_emit) fun _ => plain_ret

/-- Nothing was sent, and every ceiling that was set is that of the request. -/
structure Prepared (h : Speech) (request : InferenceRequest) : Prop where
  unsent : Unsent h
  ceilings : ∀ prior prepared, ⟨.ask (.prepareRequest prior), .ok prepared⟩ ∈ h →
    prepared.maxOutputTokens = request.maxOutputTokens

theorem AddsPlain.prepared (ha : AddsPlain h h') (hp : Prepared h request) :
    Prepared h' request := by
  refine ⟨ha.unsent hp.unsent, ?_⟩
  obtain ⟨new, rfl, hn⟩ := ha
  intro prior prepared hm
  rcases List.mem_append.mp hm with hm | hm
  · exact hp.ceilings prior prepared hm
  · cases hn _ hm

/-- Nothing was planned yet. -/
def Unplanned (h : Speech) : Prop := ∀ e ∈ h, e.request.plans = false

theorem Unplanned.unsent (hu : Unplanned h) : Unsent h := by
  have ha : AddsPlain [] h := ⟨h, rfl, hu⟩
  exact ha.unsent fun _ he => absurd he List.not_mem_nil

theorem AddsPlain.unplanned (ha : AddsPlain h h') (hu : Unplanned h) : Unplanned h' := by
  obtain ⟨new, rfl, hn⟩ := ha
  intro e he
  rcases List.mem_append.mp he with he | he
  · exact hu e he
  · exact hn e he

/-- The request of a step has the ceiling that `prepare_request` has set, if it is asked. -/
theorem keeps_prepared {first : InferenceRequest} (hu : Unplanned h) :
    (planned a loads truth).wp (rt.prepared first) h
      fun r h' => ∀ request, r = .ok request → Prepared h' request := by
  unfold Runtime.prepared
  split
  · refine ⟨hu.unsent, fun x _ request hx => ⟨?_, fun prior prepared hm => ?_⟩⟩
    · intro e he
      rcases List.mem_append.mp he with he | he
      · exact hu.unsent e he
      · rw [List.mem_singleton.mp he]
        rfl
    · rcases List.mem_append.mp hm with hm | hm
      · cases hu _ hm
      · cases List.mem_singleton.mp hm
        cases hx
        rfl
  · rintro request ⟨⟩
    exact ⟨hu.unsent, fun prior prepared hm => by cases hu _ hm⟩

theorem keeps_request {objective : String} {base : State} {effective : List String}
    (hu : Unplanned h) : (planned a loads truth).wp (rt.request objective base effective) h
      fun r h' => ∀ request, r = .ok request → Prepared h' request := by
  unfold Runtime.request
  refine Protocol.wp_bind.mpr (Protocol.wp_mono ((plain_store rfl).wp h) ?_)
  rintro (e | observation) h₁ ha
  · exact fun _ he => by cases he
  refine Protocol.wp_bind.mpr (Protocol.wp_mono (keeps_prepared (ha.unplanned hu)) ?_)
  rintro (e | request) h₂ hrequest
  · exact fun _ he => by cases he
  refine Protocol.wp_bind.mpr (Protocol.wp_mono ((plain_raiseIf _ _).wp h₂) ?_)
  rintro (e | _) h₃ hb
  · exact fun _ he => by cases he
  refine Protocol.wp_bind.mpr (Protocol.wp_mono ((plain_raiseIf _ _).wp h₃) ?_)
  rintro (e | _) h₄ hc
  · exact fun _ he => by cases he
  rintro request' ⟨⟩
  have hp := hc.prepared (hb.prepared (hrequest request rfl))
  exact ⟨hp.unsent, hp.ceilings⟩

/-- What is reserved is what the adapter planned. -/
theorem keeps_reservation (hp : Prepared h request) :
    (planned a loads truth).wp (rt.reservation request) h fun r h' => ∀ plan, r = .ok plan →
      Unsent h' ∧ ∀ x, plan.1 = some x →
        ∃ reservation, x = .typed reservation ∧ Reserves a h' reservation := by
  unfold Runtime.reservation
  refine Protocol.wp_bind.mpr (Protocol.wp_mono ((plain_store rfl).wp h) ?_)
  rintro (e | budget) h₁ ha
  · exact fun _ he => by cases he
  dsimp only
  split
  · rintro plan ⟨⟩
    exact ⟨(ha.prepared hp).unsent, fun x hx => by cases hx⟩
  rename_i available _
  refine Protocol.wp_bind.mpr (Protocol.wp_mono ((plain_raiseIf _ _).wp h₁) ?_)
  rintro (e | _) h₂ hb
  · exact fun _ he => by cases he
  have hp₂ := hb.prepared (ha.prepared hp)
  refine Protocol.wp_bind.mpr ⟨trivial, fun x hx => ?_⟩
  cases x with
  | error e => exact fun _ he => by cases he
  | ok plan =>
  obtain ⟨reservation, rfl, hkind, hadapter, hceiling⟩ := planOutput_ok (Eq.symm hx)
  obtain ⟨h₃, hh₃⟩ : ∃ h₃, h₃ = h₂ ++
      [⟨.ask (.planOutput request available), .ok (.typed reservation)⟩] := ⟨_, rfl⟩
  have hsaid : ∀ e ∈ h₃, e ∈ h₂ ∨
      e = ⟨.ask (.planOutput request available), .ok (.typed reservation)⟩ := by simp [hh₃]
  have hunsent : Unsent h₃ := by
    intro e he
    rcases hsaid e he with he | rfl
    · exact hp₂.unsent e he
    · rfl
  have hceilings : WithinCeilings h₃ reservation.tokens := by
    intro prior prepared c hm hc
    rcases hsaid _ hm with hm | hm
    · exact hceiling c ((hp₂.ceilings prior prepared hm).symm.trans hc)
    · cases hm
  change (planned a loads truth).wp _ (h₂ ++
    [⟨.ask (.planOutput request available), .ok (.typed reservation)⟩]) _
  rw [← hh₃]
  refine Protocol.wp_bind.mpr ?_
  rw [Protocol.wp_raiseIf]
  split
  · exact fun _ he => by cases he
  rintro plan ⟨⟩
  refine ⟨hunsent, fun x hx => ?_⟩
  cases hx
  exact ⟨reservation, rfl, hkind, hadapter, hceilings⟩

theorem keeps_stepBody {objective : String} {grants : Option (List String)} (hu : Unplanned h) :
    KeepsPlan a loads truth (rt.stepBody objective grants) h := by
  unfold Runtime.stepBody
  refine keeps_then (plain_raiseIf _ _) fun _ h₁ ha => ?_
  refine keeps_then (plain_store rfl) fun base h₂ hb => ?_
  refine Protocol.wp_bind.mpr (Protocol.wp_mono
    (keeps_request (hb.unplanned (ha.unplanned hu))) ?_)
  rintro (e | request) h₃ hrequest
  · trivial
  refine Protocol.wp_bind.mpr (Protocol.wp_mono (keeps_reservation (hrequest request rfl)) ?_)
  rintro (e | ⟨output, request⟩) h₄ hplan
  · trivial
  obtain ⟨hunsent, hreserves⟩ := hplan _ rfl
  refine keeps_then (plain_ask rfl fun _ => plain_ret) fun o h₅ hc => ?_
  have hplanned : ∀ x, output = some x →
      ∃ reservation, x = .typed reservation ∧ Reserves a h₅ reservation := by
    intro x hx
    obtain ⟨reservation, rfl, hkind, hadapter, hceilings⟩ := hreserves x hx
    exact ⟨reservation, rfl, hkind, hadapter, hc.ceilings hceilings⟩
  refine Protocol.wp_bind.mpr ⟨⟨hc.unsent hunsent, hplanned⟩, fun x _ => ?_⟩
  cases x with
  | error e => trivial
  | ok _ =>
  refine keeps_handled (@keeps_attempt _ _ _ _ _ _ _ output ?_ ?_ ?_) fun _ => plain_recordFailure
  · intro e he
    rcases List.mem_append.mp he with he | he
    · exact hc.unsent hunsent e he
    · rw [List.mem_singleton.mp he]
      rfl
  · exact ⟨_, List.mem_append_right _ (List.mem_singleton.mpr rfl)⟩
  · intro reservation hr prior prepared c hm hsome
    obtain ⟨_, hx, hreserves⟩ := hplanned _ hr
    cases hx
    rcases List.mem_append.mp hm with hm | hm
    · exact hreserves.ceilings prior prepared c hm hsome
    · cases List.mem_singleton.mp hm

theorem keeps_timeout {x : Flow Exn α} (hx : ∀ h', AddsPlain h h' → KeepsPlan a loads truth x h') :
    KeepsPlan a loads truth (timeout x) h := by
  unfold timeout
  refine keeps_then (plain_store rfl) fun limit h' ha => keeps_handled (hx h' ha) fun e => ?_
  split
  · refine plain_then (plain_ask rfl fun _ => plain_ret) fun b => ?_
    split <;> exact plain_ret
  · exact plain_ret

theorem keeps_locked {x : Flow Exn α} (hx : ∀ h', AddsPlain h h' → KeepsPlan a loads truth x h') :
    KeepsPlan a loads truth (locked x) h := by
  unfold locked
  refine keeps_then (plain_ask rfl fun _ => plain_ret) fun _ h' ha => ?_
  refine keeps_before (keeps_handled (hx h' ha) fun e => ?_) fun _ => ?_
  · exact plain_then plain_release fun _ => plain_ret
  · exact plain_then plain_release fun _ => plain_ret

theorem keeps_step {objective : String} {grants : Option (List String)} :
    KeepsPlan a loads truth (rt.step objective grants) [] := by
  unfold Runtime.step
  refine keeps_locked fun h₁ ha => keeps_then (plain_ask rfl fun _ => plain_ret) fun _ h₂ hb => ?_
  refine keeps_then (plain_store rfl) fun _ h₃ hc => keeps_timeout fun h₄ hd => keeps_stepBody ?_
  exact (((ha.trans hb).trans hc).trans hd).unplanned fun _ he => absurd he List.not_mem_nil

theorem plain_timeout {x : Flow Exn α} (hx : Plain x) : Plain (timeout x) := by
  refine plain_then (plain_store rfl) fun limit => plain_handled hx fun e => ?_
  split
  · refine plain_then (plain_ask rfl fun _ => plain_ret) fun b => ?_
    split <;> exact plain_ret
  · exact plain_ret

theorem plain_locked {x : Flow Exn α} (hx : Plain x) : Plain (locked x) := by
  refine plain_then (plain_ask rfl fun _ => plain_ret) fun _ => ?_
  refine plain_then (plain_handled hx fun e => ?_) fun _ => ?_
  · exact plain_then plain_release fun _ => plain_ret
  · exact plain_then plain_release fun _ => plain_ret

/-- A recovery plans nothing. -/
theorem plain_recover : Plain Runtime.recover := by
  refine plain_locked (plain_then (plain_store rfl) fun outcome => ?_)
  refine plain_then (plain_raiseIf _ _) fun _ => plain_then (plain_store rfl) fun pending => ?_
  rcases pending with _ | ⟨id, stage, candidate⟩
  · exact plain_ret
  refine plain_then (plain_raiseIf _ _) fun _ => ?_
  rcases candidate with _ | candidate
  · exact plain_then (plain_store rfl) fun _ => plain_ret
  refine plain_then plain_deadline fun _ => plain_timeout ?_
  refine plain_then (plain_ask rfl fun _ => plain_ret) fun evaluation => ?_
  refine plain_then plain_deadline fun _ => ?_
  exact plain_then (plain_store rfl) fun _ => plain_ret

/-- Every task keeps to the protocol from its beginning. -/
theorem keeps_job (job : Job) : KeepsPlan a loads truth (job.prog rt) [] := by
  cases job with
  | step objective grants => exact keeps_before keeps_step fun _ => plain_ret
  | recover => exact plain_recover.keeps []

end Parts

end FlynnAgents
