-- The authority of a tool call. A step asks for a tool only after everything
-- that permits it was said: the grants, the prepared request, the start, the
-- report, the call, its validation and the guards.
import FlynnAgents.Scene
import FlynnAgents.Tasks
import FlynnAgents.Durability

namespace FlynnAgents

open Programs

/-- All that a task asked and was answered. -/
abbrev Speech := List (Said Req Req.Answer)

/-- The operation and the request that an ask shows to the adapter or to a
guard. -/
def Req.shows : Req → Option (String × InferenceRequest)
  | .ask (.generate o request) => some (o, request)
  | .ask (.check _ o request _) => some (o, request)
  | _ => none

/-- The request after `prepare_request`, if the runtime has one. -/
def PreparedBy (rt : Runtime) (grants : Option (List String)) (prepared : InferenceRequest)
    (h : Speech) : Prop :=
  if rt.preparesRequest then
    ∃ first : InferenceRequest, ⟨.ask (.prepareRequest first), .ok prepared⟩ ∈ h ∧
      first.allowedTools = grants.getD rt.grants
  else prepared.allowedTools = grants.getD rt.grants

/-- What was said when the step of the operation `o` asks for the tool. -/
structure Evidence (rt : Runtime) (grants : Option (List String)) (o : String) (tool : Tool)
    (arguments : String) (prepared request : InferenceRequest) (h : Speech) : Prop where
  registered : tool ∈ rt.tools.tools
  constructed : tool.name ∈ rt.grants
  granted : ∀ g, grants = some g → tool.name ∈ g
  narrowed : PreparedBy rt grants prepared h
  allowed : tool.name ∈ prepared.allowedTools
  listed : ∀ spec ∈ request.tools, spec.name ∈ prepared.allowedTools
  started : ∃ output,
    ⟨.store (.start o request output (.typed (rt.guards.map DispatchGuard.id))), .ok ()⟩ ∈ h
  generated : ∃ x, ⟨.ask (.generate o request), x⟩ ∈ h
  shown : ∀ e ∈ h, ∀ p, e.request.shows = some p → p = (o, request)
  reported : ∃ usage, ⟨.store (.recordUsage o usage), .ok ()⟩ ∈ h
  proposed : ⟨.store (.proposed o (.typed ⟨tool.name, arguments⟩)), .ok ()⟩ ∈ h
  validated : ⟨.ask (.validate tool arguments), .ok ()⟩ ∈ h
  guarded : ∀ guard ∈ rt.guards, ∃ decision : GuardDecision, decision.allowed = true ∧
    ⟨.ask (.check guard.id o request ⟨tool.name, arguments⟩), .ok (.typed decision)⟩ ∈ h ∧
    ⟨.store (.recordGuard o guard.id (.typed decision)), .ok ()⟩ ∈ h

/-- A tool is asked for on evidence only. -/
def Permitted (rt : Runtime) (grants : Option (List String)) (h : Speech) : Req → Prop
  | .ask (.execute o tool arguments) =>
    ∃ prepared request, Evidence rt grants o tool arguments prepared request h
  | _ => True

abbrev authority (rt : Runtime) (grants : Option (List String)) :
    Protocol Req Req.Answer Speech :=
  histories (Permitted rt grants)

variable {rt : Runtime} {grants : Option (List String)} {o : String} {h h' : Speech}
  {P : String × InferenceRequest → Prop} {ε ε' α β : Type} {Q : α → Speech → Prop}
  {goal : β → Speech → Prop}

/-! ## What a part of the step adds -/

/-- More was said, and what it showed is as `P` says. -/
def Adds (P : String × InferenceRequest → Prop) (h h' : Speech) : Prop :=
  ∃ new, h' = h ++ new ∧ ∀ e ∈ new, ∀ p, e.request.shows = some p → P p

theorem adds_refl (P : String × InferenceRequest → Prop) (h : Speech) : Adds P h h :=
  ⟨[], by simp, by simp⟩

theorem Adds.trans {h'' : Speech} (ha : Adds P h h') (hb : Adds P h' h'') : Adds P h h'' := by
  obtain ⟨new, rfl, hn⟩ := ha
  obtain ⟨more, rfl, hm⟩ := hb
  refine ⟨new ++ more, by simp, fun e he => ?_⟩
  rcases List.mem_append.mp he with he | he
  · exact hn e he
  · exact hm e he

theorem Adds.mem (ha : Adds P h h') {e : Said Req Req.Answer} (he : e ∈ h) : e ∈ h' := by
  obtain ⟨new, rfl, -⟩ := ha
  exact List.mem_append_left new he

theorem adds_one {q : Req} (hq : ∀ p, q.shows = some p → P p) (x : q.Answer) :
    Adds P h (h ++ [⟨q, x⟩]) := by
  refine ⟨[⟨q, x⟩], rfl, fun e he => ?_⟩
  obtain rfl := List.mem_singleton.mp he
  exact hq

theorem Adds.shown (ha : Adds P h h') (hs : ∀ e ∈ h, ∀ p, e.request.shows = some p → P p) :
    ∀ e ∈ h', ∀ p, e.request.shows = some p → P p := by
  obtain ⟨new, rfl, hn⟩ := ha
  intro e he
  rcases List.mem_append.mp he with he | he
  · exact hs e he
  · exact hn e he

/-- A part of the step adds to what was said, and its value is as `Q` says. -/
def Adding (P : String × InferenceRequest → Prop) (h : Speech) (Q : α → Speech → Prop)
    (r : Except ε α) (h' : Speech) : Prop :=
  Adds P h h' ∧ ∀ a, r = .ok a → Q a h'

theorem adding_error {e : ε} (ha : Adds P h h') : Adding P h Q (.error e) h' := ⟨ha, nofun⟩

theorem adding_ok {a : α} (ha : Adds P h h') (hq : Q a h') :
    Adding P h Q (.ok a : Except ε α) h' :=
  ⟨ha, fun b hb => by cases hb; exact hq⟩

/-- A value that says nothing more. -/
def Anyway {α : Type} (_ : α) (_ : Speech) : Prop := True

/-- A request that is not a tool. -/
def Req.harmless : Req → Bool
  | .ask (.execute _ _ _) => false
  | _ => true

theorem permitted_harmless {q : Req} (hq : q.harmless = true) : Permitted rt grants h q := by
  unfold Permitted
  split
  · cases hq
  · trivial

theorem wp_said {q : Req} {k : q.Answer → Flow ε α} {R : Except ε α → Speech → Prop}
    (hq : q.harmless = true) (hk : ∀ x, (authority rt grants).wp (k x) (h ++ [⟨q, x⟩]) R) :
    (authority rt grants).wp (.ask q k) h R :=
  ⟨permitted_harmless hq, fun x _ => hk x⟩

theorem adding_said {q : Req} {k : q.Answer → Flow ε α} (hq : q.harmless = true)
    (hs : ∀ p, q.shows = some p → P p)
    (hk : ∀ x, (authority rt grants).wp (k x) (h ++ [⟨q, x⟩]) (Adding P (h ++ [⟨q, x⟩]) Q)) :
    (authority rt grants).wp (.ask q k) h (Adding P h Q) := by
  refine wp_said hq fun x => Protocol.wp_mono (hk x) ?_
  rintro r h' ⟨ha, hr⟩
  exact ⟨(adds_one hs x).trans ha, hr⟩

theorem adding_then {x : Flow ε α} {f : α → Flow ε β}
    (hx : (authority rt grants).wp x h (Adding P h Q))
    (hf : ∀ a h', Adds P h h' → Q a h' → (authority rt grants).wp (f a) h' (Adding P h' goal)) :
    (authority rt grants).wp (x >>= f) h (Adding P h goal) := by
  refine Protocol.wp_bind.mpr (Protocol.wp_mono hx ?_)
  rintro (e | a) h' ⟨ha, hr⟩
  · exact adding_error ha
  · refine Protocol.wp_mono (hf a h' ha (hr a rfl)) ?_
    rintro r h'' ⟨hb, hr⟩
    exact ⟨ha.trans hb, hr⟩

theorem adding_caught {x : Flow ε α} {f : ε → Flow ε' α}
    (hx : (authority rt grants).wp x h (Adding P h Q))
    (hf : ∀ e h', (authority rt grants).wp (f e) h' (Adding P h' Q)) :
    (authority rt grants).wp (x.catching f) h (Adding P h Q) := by
  refine Protocol.wp_catching.mpr (Protocol.wp_mono hx ?_)
  rintro (e | a) h' ⟨ha, hr⟩
  · refine Protocol.wp_mono (hf e h') ?_
    rintro r h'' ⟨hb, hr⟩
    exact ⟨ha.trans hb, hr⟩
  · exact adding_ok ha (hr a rfl)

theorem adding_value {a : α} (hq : Q a h) :
    (authority rt grants).wp (pure a : Flow ε α) h (Adding P h Q) :=
  adding_ok (adds_refl P h) hq

theorem adding_raise {e : ε} :
    (authority rt grants).wp (Prog.raise e : Flow ε α) h (Adding P h Q) :=
  adding_error (adds_refl P h)

theorem adding_raiseIf {c : Prop} [Decidable c] {e : ε} :
    (authority rt grants).wp (Prog.raiseIf c e : Flow ε Unit) h (Adding P h fun _ _ => ¬ c) := by
  rw [Protocol.wp_raiseIf]
  split
  · exact adding_error (adds_refl P h)
  · exact adding_ok (adds_refl P h) ‹_›

theorem adding_anyway {x : Flow ε α} (hx : (authority rt grants).wp x h (Adding P h Q)) :
    (authority rt grants).wp x h (Adding P h Anyway) := by
  refine Protocol.wp_mono hx ?_
  rintro r h' ⟨ha, -⟩
  exact ⟨ha, fun _ _ => trivial⟩

theorem adding_at {stage : String} {x : Flow Exn α}
    (hx : (authority rt grants).wp x h (Adding P h Q)) :
    (authority rt grants).wp (at_ stage x) h (Adding P h Q) := by
  rw [at_, Protocol.wp_mapError]
  refine Protocol.wp_mono hx ?_
  rintro (e | a) h' ⟨ha, hr⟩
  · exact adding_error ha
  · exact adding_ok ha (hr a rfl)

theorem adding_store (call : Call) :
    (authority rt grants).wp (store call) h
      (Adding P h fun x h' => ⟨.store call, .ok x⟩ ∈ h') := by
  refine adding_said rfl (by simp [Req.shows]) fun x => ⟨adds_refl P _, ?_⟩
  rintro a rfl
  simp

theorem PreparedBy.adds {prepared : InferenceRequest} (hp : PreparedBy rt grants prepared h)
    (ha : Adds P h h') : PreparedBy rt grants prepared h' := by
  unfold PreparedBy at hp ⊢
  split
  · rename_i hprep
    rw [if_pos hprep] at hp
    obtain ⟨first, hm, hf⟩ := hp
    exact ⟨first, ha.mem hm, hf⟩
  · rename_i hprep
    rwa [if_neg hprep] at hp

/-! ## The parts of a step -/

namespace Runtime

theorem adding_emit {event : Event} {b : Bool} :
    (authority rt grants).wp (rt.emit event b) h (Adding P h Anyway) := by
  unfold emit
  refine adding_then (adding_store _) fun _ h₁ _ _ => ?_
  refine adding_then (Q := Anyway) ?_ fun _ h₂ _ _ => ?_
  · exact adding_said rfl (by simp [Req.shows]) fun _ => adding_value trivial
  · split
    · exact adding_said rfl (by simp [Req.shows]) fun _ => ⟨adds_refl P _, fun _ _ => trivial⟩
    · exact adding_value trivial

theorem adding_checkDeadline : (authority rt grants).wp checkDeadline h (Adding P h Anyway) := by
  unfold checkDeadline
  refine adding_then (adding_store _) fun _ _ _ _ => ?_
  exact adding_anyway adding_raiseIf

/-- The request of a step: its tools are among those that the prepared one allows. -/
def Narrowed (rt : Runtime) (grants : Option (List String)) (request : InferenceRequest)
    (h : Speech) : Prop :=
  ∃ prepared, PreparedBy rt grants prepared h ∧ request.allowedTools = prepared.allowedTools ∧
    prepared.allowedTools ⊆ grants.getD rt.grants ∧
    ∀ spec ∈ request.tools, spec.name ∈ prepared.allowedTools

theorem adding_prepared {first : InferenceRequest}
    (hf : first.allowedTools = grants.getD rt.grants) :
    (authority rt grants).wp (rt.prepared first) h
      (Adding P h fun request h' => PreparedBy rt grants request h') := by
  unfold prepared PreparedBy
  split
  · refine adding_said rfl (by simp [Req.shows]) fun x => ⟨adds_refl P _, ?_⟩
    rintro request rfl
    exact ⟨first, by simp, hf⟩
  · exact adding_value hf

theorem adding_request {objective : String} {base : State} :
    (authority rt grants).wp (rt.request objective base (grants.getD rt.grants)) h
      (Adding P h (Narrowed rt grants)) := by
  unfold request
  refine adding_then (adding_store _) fun observation h₁ _ _ => ?_
  refine adding_then (adding_prepared rfl) fun request h₂ _ hprepared => ?_
  refine adding_then adding_raiseIf fun _ h₃ ha hbase => ?_
  refine adding_then adding_raiseIf fun _ h₄ hb hallowed => ?_
  refine adding_value ⟨request, (hprepared.adds ha).adds hb, rfl, not_not.mp hallowed,
    fun spec hs => ?_⟩
  simpa using (List.mem_filter.mp hs).2

theorem Narrowed.adds {request : InferenceRequest} (hn : Narrowed rt grants request h)
    (ha : Adds P h h') : Narrowed rt grants request h' := by
  obtain ⟨prepared, hp, hrest⟩ := hn
  exact ⟨prepared, hp.adds ha, hrest⟩

/-- The reservation changes the ceiling of the request only. -/
theorem adding_reservation {request : InferenceRequest} (hn : Narrowed rt grants request h) :
    (authority rt grants).wp (rt.reservation request) h
      (Adding P h fun plan h' => Narrowed rt grants plan.2 h') := by
  unfold reservation
  refine adding_then (adding_store _) fun budget h₁ ha _ => ?_
  split
  · exact adding_value (hn.adds ha)
  · refine adding_then adding_raiseIf fun _ h₂ hb _ => ?_
    refine adding_then (Q := Anyway) ?_ fun plan h₃ hc _ => ?_
    · exact adding_said rfl (by simp [Req.shows]) fun _ => ⟨adds_refl P _, fun _ _ => trivial⟩
    · split
      · exact adding_raise
      · refine adding_then adding_raiseIf fun _ h₄ hd _ => adding_value ?_
        have hn' := (((hn.adds ha).adds hb).adds hc).adds hd
        exact hn'

/-- What holds when the operation has started. -/
structure Begun (rt : Runtime) (grants : Option (List String)) (o : String)
    (request : InferenceRequest) (h : Speech) : Prop where
  within : grants.getD rt.grants ⊆ rt.grants
  narrowed : Narrowed rt grants request h
  started : ∃ output,
    ⟨.store (.start o request output (.typed (rt.guards.map DispatchGuard.id))), .ok ()⟩ ∈ h
  shown : ∀ e ∈ h, ∀ p, e.request.shows = some p → p = (o, request)

theorem Begun.adds {request : InferenceRequest} (hb : Begun rt grants o request h)
    (ha : Adds (· = (o, request)) h h') : Begun rt grants o request h' := by
  obtain ⟨hw, hn, ⟨output, hs⟩, hsh⟩ := hb
  exact ⟨hw, hn.adds ha, ⟨output, ha.mem hs⟩, ha.shown hsh⟩

theorem adding_infer {request : InferenceRequest} (hP : P (o, request)) :
    (authority rt grants).wp (infer o request) h
      (Adding P h fun _ h' => (∃ x, ⟨.ask (.generate o request), x⟩ ∈ h') ∧
        ∃ usage, ⟨.store (.recordUsage o usage), .ok ()⟩ ∈ h') := by
  unfold infer
  refine adding_then (Q := fun _ h' => ∃ x, ⟨.ask (.generate o request), x⟩ ∈ h') ?_
    fun response h₁ ha hg => ?_
  · refine adding_caught ?_ fun e h₁ => ?_
    · refine adding_said rfl (by rintro p ⟨⟩; exact hP) fun x => ⟨adds_refl P _, fun _ _ => ?_⟩
      exact ⟨x, by simp⟩
    · dsimp only
      split
      · split
        · exact adding_then (adding_store _) fun _ _ _ _ => adding_raise
        · exact adding_raise
      · exact adding_raise
  · obtain ⟨x, hx⟩ := hg
    split
    · exact adding_raise
    · rename_i response
      refine adding_then (adding_store _) fun _ h₂ hb hu => ?_
      exact adding_value ⟨⟨x, hb.mem hx⟩, _, hu⟩

/-- A tool that the broker prepared. -/
theorem adding_prepare {call : ToolCall} {allowed : List String} :
    (authority rt grants).wp (rt.tools.prepare call allowed) h
      (Adding P h fun tool h' => tool ∈ rt.tools.tools ∧ tool.name = call.name ∧
        tool.name ∈ allowed ∧ ⟨.ask (.validate tool call.arguments), .ok ()⟩ ∈ h') := by
  unfold ToolBroker.prepare
  refine adding_then adding_raiseIf fun _ h₁ _ hallowed => ?_
  split
  · exact adding_raise
  · rename_i tool hfind
    have hname : tool.name = call.name := by simpa using List.find?_some hfind
    refine adding_then (Q := fun _ h' => ⟨.ask (.validate tool call.arguments), .ok ()⟩ ∈ h') ?_
      fun _ h₂ _ hv => ?_
    · refine adding_caught ?_ fun e h₁ => ?_
      · refine adding_said rfl (by simp [Req.shows]) fun x => ⟨adds_refl P _, ?_⟩
        rintro _ rfl
        simp
      · split
        · exact adding_raise
        · split <;> exact adding_raise
    · exact adding_value ⟨List.mem_of_find?_eq_some hfind, hname, hname ▸ not_not.mp hallowed, hv⟩

/-- The guard allowed the call, and its decision was recorded. -/
def Passed (o : String) (request : InferenceRequest) (call : ToolCall) (guard : DispatchGuard)
    (h : Speech) : Prop :=
  ∃ decision : GuardDecision, decision.allowed = true ∧
    ⟨.ask (.check guard.id o request call), .ok (.typed decision)⟩ ∈ h ∧
    ⟨.store (.recordGuard o guard.id (.typed decision)), .ok ()⟩ ∈ h

theorem adding_checkGuard {request : InferenceRequest} {call : ToolCall} {guard : DispatchGuard}
    (hP : P (o, request)) :
    (authority rt grants).wp (rt.checkGuard o request call guard) h
      (Adding P h fun _ h' => Passed o request call guard h') := by
  unfold checkGuard
  refine adding_then (Q := fun decision h' =>
      ⟨.ask (.check guard.id o request call), .ok decision⟩ ∈ h') ?_ fun decision h₁ _ hd => ?_
  · refine adding_said rfl (by rintro p ⟨⟩; exact hP) fun x => ⟨adds_refl P _, ?_⟩
    rintro d rfl
    simp
  · split
    · exact adding_raise
    · rename_i decision
      refine adding_then (adding_store _) fun _ h₂ ha hr => ?_
      refine adding_then adding_emit fun _ h₃ hb _ => ?_
      rw [Protocol.wp_raiseIf]
      split
      · exact adding_error (adds_refl P _)
      · rename_i hallowed
        refine adding_ok (adds_refl P _) ⟨decision, by simpa using hallowed, ?_, hb.mem hr⟩
        exact hb.mem (ha.mem hd)

/-- All guards of the runtime are asked in turn. -/
theorem adding_guards {request : InferenceRequest} {call : ToolCall} (hP : P (o, request)) :
    (authority rt grants).wp
      (Prog.forEach (fun guard => at_ "guard" (rt.checkGuard o request call guard)) rt.guards) h
      (Adding P h fun _ h' => ∀ guard ∈ rt.guards, Passed o request call guard h') := by
  refine Protocol.wp_forEach_done
    (fun done h' => Adds P h h' ∧ ∀ guard ∈ done, Passed o request call guard h')
    ⟨adds_refl P h, by simp⟩ (fun done guard _ h₁ hI => ?_) fun h₁ hI => ?_
  · refine Protocol.wp_mono (adding_at (adding_checkGuard hP)) ?_
    rintro (e | u) h₂ ⟨ha, hr⟩
    · exact adding_error (hI.1.trans ha)
    · refine ⟨hI.1.trans ha, fun g hg => ?_⟩
      rcases List.mem_append.mp hg with hg | hg
      · obtain ⟨decision, hd, hc, hrec⟩ := hI.2 g hg
        exact ⟨decision, hd, ha.mem hc, ha.mem hrec⟩
      · obtain rfl := List.mem_singleton.mp hg
        exact hr u rfl
  · exact adding_ok hI.1 hI.2

theorem adding_publish {call : ToolCall} {candidate : Candidate} :
    (authority rt grants).wp (rt.publish o call candidate) h (Adding P h Anyway) := by
  unfold publish
  refine adding_then adding_emit fun _ _ _ _ => ?_
  refine adding_then adding_checkDeadline fun _ _ _ _ => ?_
  refine adding_then (Q := Anyway) ?_ fun _ _ _ _ => ?_
  · exact adding_said rfl (by simp [Req.shows]) fun _ => ⟨adds_refl P _, fun _ _ => trivial⟩
  · exact adding_then adding_checkDeadline fun _ _ _ _ => adding_anyway (adding_store _)

/-- The body of the step asks for its tool on evidence. -/
theorem adding_attempt {request : InferenceRequest} (hb : Begun rt grants o request h) :
    (authority rt grants).wp (rt.attempt o request) h
      (Adding (· = (o, request)) h Anyway) := by
  unfold attempt
  refine adding_then (adding_at adding_emit) fun _ h₁ ha₁ _ => ?_
  refine adding_then (adding_at (adding_infer rfl)) fun response h₂ ha₂ hinfer => ?_
  obtain ⟨⟨x, hx⟩, usage, hu⟩ := hinfer
  refine adding_then (adding_at (adding_store _)) fun _ h₃ ha₃ hproposed => ?_
  refine adding_then (adding_at adding_emit) fun _ h₄ ha₄ _ => ?_
  refine adding_then (Q := fun call _ => response.call = .typed call) ?_ fun call h₅ ha₅ hcall => ?_
  · refine adding_at ⟨adds_refl _ _, fun call hc => ?_⟩
    cases hr : response.call with
    | typed c =>
      rw [hr] at hc
      exact congrArg Dyn.typed (Except.ok.inj hc)
    | other =>
      rw [hr] at hc
      cases hc
  refine adding_then (adding_at adding_prepare) fun tool h₆ ha₆ hprepare => ?_
  obtain ⟨hregistered, hname, hallowed, hvalid⟩ := hprepare
  refine adding_then (adding_guards rfl) fun _ h₇ ha₇ hguards => ?_
  refine adding_then (adding_at (adding_store _)) fun _ h₈ ha₈ _ => ?_
  refine adding_then (adding_at adding_emit) fun _ h₉ ha₉ _ => ?_
  refine adding_then (Q := Anyway) (adding_at ?_) fun output h₁₀ _ _ => ?_
  · have hlate := ((ha₇.trans ha₈).trans ha₉)
    have hmid := ((ha₄.trans ha₅).trans ha₆).trans hlate
    have hall := (((ha₁.trans ha₂).trans ha₃)).trans hmid
    obtain ⟨hwithin, ⟨prepared, hp, hsame, hsub, hlisted⟩, hstarted, hshown⟩ := hb.adds hall
    have hgranted : tool.name ∈ grants.getD rt.grants := hsub (hsame ▸ hallowed)
    have hcalled : call = ⟨tool.name, call.arguments⟩ := by
      rw [hname]
    have hwanted : response.call = .typed ⟨tool.name, call.arguments⟩ := hcalled ▸ hcall
    have hevidence : Evidence rt grants o tool call.arguments prepared request h₉ := {
      registered := hregistered
      constructed := hwithin hgranted
      granted := by
        rintro g rfl
        exact hgranted
      narrowed := hp
      allowed := hsame ▸ hallowed
      listed := hlisted
      started := hstarted
      generated := ⟨x, hmid.mem (ha₃.mem hx)⟩
      shown := hshown
      reported := ⟨usage, hmid.mem (ha₃.mem hu)⟩
      proposed := hmid.mem (hwanted ▸ hproposed)
      validated := hlate.mem hvalid
      guarded := by
        intro guard hg
        obtain ⟨decision, hd, hc, hr⟩ := hguards guard hg
        exact ⟨decision, hd, (ha₈.trans ha₉).mem (hcalled ▸ hc), (ha₈.trans ha₉).mem hr⟩ }
    refine ⟨⟨prepared, request, hevidence⟩, fun y _ => ⟨?_, fun _ _ => trivial⟩⟩
    exact adds_one (by simp [Req.shows]) y
  · refine adding_then (adding_at (adding_store _)) fun candidate _ _ _ => ?_
    refine adding_then (adding_at adding_publish) fun result _ _ _ => ?_
    exact adding_then (adding_at adding_emit) fun _ _ _ _ => adding_value trivial

theorem adding_recordFailure {failure : String × Exn} :
    (authority rt grants).wp (rt.recordFailure o failure) h (Adding P h Anyway) := by
  obtain ⟨stage, error⟩ := failure
  unfold recordFailure
  refine adding_then (adding_store _) fun _ _ _ _ => ?_
  refine adding_then adding_emit fun _ _ _ _ => ?_
  dsimp only
  split
  · exact adding_said rfl (by simp [Req.shows]) fun _ => adding_raise
  · exact adding_raise

/-- Nothing was shown yet. -/
def Unshown (_ : String × InferenceRequest) : Prop := False

/-- Any end will do. -/
abbrev Whatever {α : Type} (_ : Except Exn α) (_ : Speech) : Prop := True

theorem wp_whatever {α : Type} {x : Flow Exn α} {Q : α → Speech → Prop}
    (hx : (authority rt grants).wp x h (Adding P h Q)) :
    (authority rt grants).wp x h Whatever :=
  Protocol.wp_mono hx fun _ _ _ => trivial

theorem whatever_then {α β : Type} {x : Flow Exn α} {f : α → Flow Exn β} {Q : α → Speech → Prop}
    (hx : (authority rt grants).wp x h (Adding P h Q))
    (hf : ∀ a h', Adds P h h' → Q a h' → (authority rt grants).wp (f a) h' Whatever) :
    (authority rt grants).wp (x >>= f) h Whatever := by
  refine Protocol.wp_bind.mpr (Protocol.wp_mono hx ?_)
  rintro (e | a) h' ⟨ha, hr⟩
  · trivial
  · exact hf a h' ha (hr a rfl)

theorem adding_newId : (authority rt grants).wp newId h (Adding P h Anyway) :=
  adding_said rfl (by simp [Req.shows]) fun _ => adding_value trivial

theorem authority_stepBody {objective : String}
    (hs : ∀ e ∈ h, ∀ p, e.request.shows = some p → Unshown p) :
    (authority rt grants).wp (rt.stepBody objective grants) h Whatever := by
  unfold stepBody
  refine whatever_then (P := Unshown) adding_raiseIf fun _ h₁ ha₁ hwithin => ?_
  refine whatever_then (P := Unshown) (adding_store .read) fun base h₂ ha₂ _ => ?_
  refine whatever_then (P := Unshown) adding_request fun request h₃ ha₃ hrequest => ?_
  refine whatever_then (P := Unshown) (adding_reservation hrequest) fun plan h₄ ha₄ hplan => ?_
  obtain ⟨reservation, request⟩ := plan
  refine whatever_then (P := Unshown) adding_newId fun o h₅ ha₅ _ => ?_
  refine whatever_then (P := Unshown) (adding_store _) fun _ h₆ ha₆ hstarted => ?_
  have hall := ((((ha₁.trans ha₂).trans ha₃).trans ha₄).trans ha₅).trans ha₆
  have hbegun : Begun rt grants o request h₆ := {
    within := not_not.mp hwithin
    narrowed := (hplan.adds ha₅).adds ha₆
    started := ⟨_, hstarted⟩
    shown := fun e he p hp => (hall.shown hs e he p hp).elim }
  exact wp_whatever (adding_caught (adding_attempt hbegun) fun e h' => adding_recordFailure)

theorem whatever_timeout {α : Type} {x : Flow Exn α}
    (hx : ∀ h', Adds Unshown h h' → (authority rt grants).wp x h' Whatever) :
    (authority rt grants).wp (timeout x) h Whatever := by
  unfold timeout
  refine whatever_then (P := Unshown) (adding_store _) fun limit h' ha _ => ?_
  refine Protocol.wp_catching.mpr (Protocol.wp_mono (hx h' ha) ?_)
  rintro (e | a) h'' -
  · dsimp only
    split
    · refine wp_said rfl fun b => ?_
      dsimp only [bind, Prog.bind]
      split <;> trivial
    · trivial
  · trivial

theorem whatever_locked {α : Type} {x : Flow Exn α}
    (hx : ∀ h', Adds Unshown h h' → (authority rt grants).wp x h' Whatever) :
    (authority rt grants).wp (locked x) h Whatever := by
  unfold locked
  refine whatever_then (P := Unshown) (Q := Anyway) ?_ fun _ h' ha _ => ?_
  · exact adding_said rfl (by simp [Req.shows]) fun _ => ⟨adds_refl _ _, fun _ _ => trivial⟩
  refine Protocol.wp_bind.mpr (Protocol.wp_catching.mpr (Protocol.wp_mono (hx h' ha) ?_))
  rintro (e | a) h'' -
  · exact wp_said rfl fun _ => trivial
  · exact wp_said rfl fun _ => trivial

/-- A step asks for a tool only on evidence, whatever it is answered. -/
theorem authority_step {objective : String} :
    (authority rt grants).wp (rt.step objective grants) [] Whatever := by
  unfold step
  refine whatever_locked fun h₁ ha₁ => ?_
  refine whatever_then (P := Unshown) (Q := Anyway) ?_ fun _ h₂ ha₂ _ => ?_
  · exact adding_said rfl (by simp [Req.shows]) fun _ => adding_value trivial
  refine whatever_then (P := Unshown) (adding_store _) fun _ h₃ ha₃ _ => ?_
  refine whatever_timeout fun h₄ ha₄ => authority_stepBody ?_
  exact (((ha₁.trans ha₂).trans ha₃).trans ha₄).shown (by simp)

end Runtime

/-! ## The file -/

/-- What the store answered is in the file. -/
structure Recorded (s : Scene) : Prop where
  unset : Unset s.store.db
  durable : ∀ e ∈ s.told, ∀ call x, e.toSaid = ⟨.store call, .ok x⟩ →
    Leaves s.store.db e.store.db call

theorem Recorded.call {world : Nat → Beat} {s : Scene} (hs : Recorded s) (c : Call) :
    Recorded (s.call world c) where
  unset := unset_after hs.unset [⟨(world s.turn).clock, c⟩]
  durable := by
    intro e he call x hsaid
    rcases List.mem_append.mp he with he | he
    · have hold := hs.durable e he call x hsaid
      rcases exec_cases ⟨(world s.turn).clock, c⟩ s.store with ⟨⟨handle, t', -, hc, hst⟩, -⟩ |
        ⟨hst, -⟩
      · rw [Scene.call, hst]
        exact hold.change hs.unset hc
      · rw [Scene.call, hst]
        exact hold
    · obtain rfl := List.mem_singleton.mp he
      simp only [Said.mk.injEq, Req.store.injEq] at hsaid
      obtain ⟨rfl, hx⟩ := hsaid
      exact leaves_of_ok (eq_of_heq hx)

theorem Recorded.ask {world : Nat → Beat} {s : Scene} (hs : Recorded s) (a : Ask) :
    Recorded (s.ask world a) where
  unset := meanwhile_keeps (fun _ _ _ _ _ hu hc => Unset.change hu hc) hs.unset a
  durable := by
    intro e he call x hsaid
    rcases List.mem_append.mp he with he | he
    · have hkeeps : Unset (s.meanwhile world a).db ∧
        Leaves (s.meanwhile world a).db e.store.db call :=
        meanwhile_keeps (I := fun t => Unset t ∧ Leaves t e.store.db call)
        (fun _ _ _ _ _ hi hc => ⟨hi.1.change hc, hi.2.change hi.1 hc⟩)
        ⟨hs.unset, hs.durable e he call x hsaid⟩ a
      exact hkeeps.2
    · obtain rfl := List.mem_singleton.mp he
      cases hsaid

theorem recorded_answer {world : Nat → Beat} {s : Scene} (q : Req)
    (hs : s.said = h ∧ Recorded s) :
    (authority rt grants).possible h q (Scene.answer world q s).1 ∧
      (Scene.answer world q s).2.said = (authority rt grants).next h q (Scene.answer world q s).1 ∧
      Recorded (Scene.answer world q s).2 := by
  obtain ⟨rfl, hs⟩ := hs
  cases q with
  | store c => exact ⟨trivial, List.map_append, hs.call c⟩
  | ask a => exact ⟨trivial, List.map_append, hs.ask a⟩

/-- What permits the tool call, in the records of the task and in the file. -/
structure Warranted (rt : Runtime) (grants : Option (List String)) (o : String) (tool : Tool)
    (arguments : String) (prepared : InferenceRequest) (row : OperationRow) (s : Scene) : Prop where
  operation : s.store.db.operation? o = some row
  registered : tool ∈ rt.tools.tools
  constructed : tool.name ∈ rt.grants
  granted : ∀ g, grants = some g → tool.name ∈ g
  narrowed : PreparedBy rt grants prepared s.said
  allowed : tool.name ∈ prepared.allowedTools
  validated : ⟨.ask (.validate tool arguments), .ok ()⟩ ∈ s.said
  call : row.call = some ⟨tool.name, arguments⟩
  generated : ∃ x, ⟨.ask (.generate o row.request), x⟩ ∈ s.said
  shown : ∀ e ∈ s.said, ∀ p, e.request.shows = some p → p = (o, row.request)
  listed : ∀ spec ∈ row.request.tools, spec.name ∈ prepared.allowedTools
  based : ∃ e ∈ s.told, ∃ output guards,
    e.toSaid = ⟨.store (.start o row.request output guards), .ok ()⟩ ∧
      row.request.base = e.store.db.read
  guarded : ∀ guard ∈ rt.guards, ∃ decision : GuardDecision, decision.allowed = true ∧
    ⟨.ask (.check guard.id o row.request ⟨tool.name, arguments⟩), .ok (.typed decision)⟩ ∈ s.said ∧
    s.store.db.guardDecisions.lookup (o, guard.id) = some ⟨o, guard.id, decision.toDecisionFields⟩
  reported : ∃ usage, s.store.db.report o = some usage ∧ ¬ s.store.db.Breached o

theorem Evidence.warrants {tool : Tool} {arguments : String} {prepared request : InferenceRequest}
    {s : Scene} (he : Evidence rt grants o tool arguments prepared request s.said)
    (hs : Recorded s) : ∃ row, Warranted rt grants o tool arguments prepared row s := by
  have hleaves : ∀ {call : Call} {x : call.Result}, ⟨.store call, .ok x⟩ ∈ s.said →
      ∃ e ∈ s.told, e.toSaid = ⟨.store call, .ok x⟩ ∧ Leaves s.store.db e.store.db call := by
    intro call x hm
    obtain ⟨e, hm, hsaid⟩ := List.mem_map.mp hm
    exact ⟨e, hm, hsaid, hs.durable e hm call x hsaid⟩
  obtain ⟨output, hstart⟩ := he.started
  obtain ⟨entry, hm, hsaid, row, hr, hrequest, hbase⟩ := hleaves hstart
  obtain ⟨-, -, -, c, row₁, hc, hr₁, hcall⟩ := hleaves he.proposed
  obtain ⟨usage, hreported⟩ := he.reported
  obtain ⟨-, -, -, u, row₂, -, -, hreport, hbreach⟩ := hleaves hreported
  cases hc
  rw [hr] at hr₁
  cases hr₁
  subst hrequest
  refine ⟨row, hr, he.registered, he.constructed, he.granted, he.narrowed, he.allowed,
    he.validated, hcall, he.generated, he.shown, he.listed, ⟨entry, hm, output, _, hsaid, hbase⟩,
    fun guard hg => ?_, _, hreport, hbreach⟩
  obtain ⟨decision, hd, hcheck, hrecord⟩ := he.guarded guard hg
  obtain ⟨-, -, -, d, hdec, hlook⟩ := hleaves hrecord
  cases hdec
  exact ⟨decision, hd, hcheck, hlook⟩

/-- In every execution of a step, whatever the application answers and whatever
others call on the store in the meantime: when a tool is asked for, it is a
registered one that every grant and the prepared request allow, its validator
accepted the arguments, the call and the request in the file are those that
were validated and shown to the model and to the guards, the request lists
allowed tools only and is based on the accepted state of the start, every guard
allowed it in the file, and a usage report in the file keeps to the
reservation. -/
theorem a_tool_is_asked_for_with_full_authority {now : ℚ} {clock : Clock} {self : SQLiteRun}
    {runId state : Dyn String} {limits : RunLimits} {observation : Option (Dyn String)}
    (h : SQLiteRun.create now clock runId state limits observation = .ok self)
    (calls : List Timed) (rt : Runtime) (objective : String) (grants : Option (List String))
    (world : Nat → Beat) (n : Nat) {o : String} {tool : Tool} {arguments : String}
    (hask : ((rt.step objective grants).drive (Scene.answer world) n
      { store := self.after calls }).1.upcoming = some (.ask (.execute o tool arguments))) :
    ∃ prepared row, Warranted rt grants o tool arguments prepared row
      ((rt.step objective grants).drive (Scene.answer world) n
        { store := self.after calls }).2 := by
  obtain ⟨id, text, seen, hdb, -⟩ := create_ok h
  have hu : Unset self.db := hdb ▸ unset_fresh _
  have hstart : Recorded { store := self.after calls } :=
    ⟨unset_after hu calls, fun _ he => absurd he List.not_mem_nil⟩
  have hwp : (authority rt grants).wp (rt.step objective grants) [] Runtime.Whatever :=
    Runtime.authority_step
  obtain ⟨h', hwp', hsaid, hrec⟩ := Protocol.wp_drive (Scene.answer world)
    (fun h s => s.said = h ∧ Recorded s) (fun _ q _ _ hs => recorded_answer q hs) hwp
    ⟨rfl, hstart⟩ n
  have hallowed : (authority rt grants).allowed h' (.ask (.execute o tool arguments)) :=
    Protocol.wp_upcoming hwp' hask
  obtain ⟨prepared, request, hevidence⟩ := hallowed
  rw [← hsaid] at hevidence
  exact ⟨prepared, hevidence.warrants hrec⟩

/-- A world in which nobody else calls the store. -/
def sampleBeat (_ : Nat) : Beat where
  clock := ⟨0, 0⟩
  reply := sampleReply

theorem sampleGuard_named : blank "guard" = false := by decide

def sampleGuard : DispatchGuard := ⟨"guard", sampleGuard_named⟩

theorem sampleGuard_alone : ([sampleGuard].map DispatchGuard.id).Nodup := List.nodup_singleton _

/-- A runtime with a guard and both callbacks. -/
def guardedRuntime : Runtime :=
  { sampleRuntime with
    guards := [sampleGuard]
    guardsDistinct := sampleGuard_alone
    preparesRequest := true
    notifies := true }

theorem sampleDecision_accepted : (DecisionFields.mk true "fine").postInit = none := by decide

/-- The guard allows what it is shown, and the request is prepared with a system note. -/
def guardedBeat (_ : Nat) : Beat where
  clock := ⟨0, 0⟩
  reply
    | .prepareRequest request => .ok { request with objective := "note: " ++ request.objective }
    | .check _ _ _ _ => .ok (.typed ⟨⟨true, "fine"⟩, sampleDecision_accepted⟩)
    | a => sampleReply a

theorem a_tool_is_asked_for_with_full_authority_sample :
    ∃ prepared row, Warranted guardedRuntime none "op" { name := "act" } "\x7b\x7d" prepared row
      ((guardedRuntime.step "goal" none).drive (Scene.answer guardedBeat) 29
        { store := sampleStore }).2 := by
  have hask : ((guardedRuntime.step "goal" none).drive (Scene.answer guardedBeat) 29
      { store := sampleStore }).1.upcoming =
        some (.ask (.execute "op" { name := "act" } "\x7b\x7d")) := by decide +kernel
  exact a_tool_is_asked_for_with_full_authority create_sampleStore [] guardedRuntime "goal" none
    guardedBeat 29 hask

end FlynnAgents
