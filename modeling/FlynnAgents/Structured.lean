-- Structured tools: what `Tool.structured` puts between the texts of the dispatch and the
-- values of an application's handler. Whatever the tasks and the processes do, a handler is
-- given the object that its validator accepted and that the file records, and what a later
-- inference observes is a result.
import FlynnAgents.Codec
import FlynnAgents.Authority
import FlynnAgents.Observations
import FlynnAgents.Interleaving

namespace FlynnAgents

open Programs Relational
open Text (ofString)

/-! ## The closures -/

/-- The arguments of a handler: the fields of an object. -/
abbrev Arguments := List (Text × Value Text)

/-- `arguments` of `Tool.structured` -/
def structuredArguments (raw : String) : Except Exn Arguments := do
  match ← readJson (ofString raw) with
  | .dict fields => return fields
  | _ => .error (contractError "Structured tool arguments must be a JSON object")

/-- `check` of `Tool.structured` -/
def structuredCheck (validate : Arguments → Except Exn Unit) (raw : String) : Except Exn Unit := do
  validate (← structuredArguments raw)

/-- `dispatch` of `Tool.structured` -/
def structuredDispatch (execute : Arguments → Except Exn (Dyn ToolResult)) (raw : String) :
    Except Exn (Dyn String) := do
  match ← execute (← structuredArguments raw) with
  | .other => .error (contractError "Structured tool handler must return ToolResult")
  | .typed result => do
    let text ← result.toJson
    match stringOf text with
    | some output => return .typed output
    -- `to_json` writes ASCII only
    | none => return .other

/-- `Tool.structured` -/
def Tool.structured (name description parametersJson : String) (externalAction : Bool) :
    Except Exn Tool := do
  match ← readJson (ofString parametersJson) with
  | .dict fields =>
    if isStr (Value.get (ofString "type") fields) "object" then
      return { name, externalAction, observation := true, description, parametersJson }
    else .error (contractError "Structured tools require an object parameter schema")
  | _ => .error (contractError "Structured tools require an object parameter schema")

/-- The tool is made by `Tool.structured`. -/
def Tool.IsStructured (tool : Tool) : Prop :=
  Tool.structured tool.name tool.description tool.parametersJson tool.externalAction = .ok tool

instance (tool : Tool) : Decidable tool.IsStructured := inferInstanceAs (Decidable (_ = _))

/-- The application answers for its structured tools as the closures do. A validator is a
function, and a handler may do something else each time. -/
structure Answers (validate : Tool → Arguments → Except Exn Unit) (reply : (a : Ask) → a.Answer) :
    Prop where
  checks : ∀ tool raw, tool.IsStructured →
    reply (.validate tool raw) = structuredCheck (validate tool) raw
  dispatches : ∀ o tool raw, tool.IsStructured →
    ∃ execute, reply (.execute o tool raw) = structuredDispatch execute raw

def Turn.Answers (validate : Tool → Arguments → Except Exn Unit) : Turn → Prop
  | .resume _ reply | .answer _ reply => FlynnAgents.Answers validate reply
  | _ => True

variable {validate : Tool → Arguments → Except Exn Unit} {handle : Handle} {clock : Clock}
  {self : SQLiteRun} {t t' : Tables} {c : Call} {h h' : Speech} {o raw : String} {rt : Runtime}
  {ε α β : Type}

/-! ## Texts -/

theorem charOf_ascii {c : CodePoint} (hc : c.val < 128) :
    ∃ d, charOf c = some d ∧ Text.ofChar d = c := by
  have hvalid : c.val.isValidChar := .inl (by omega)
  refine ⟨Char.ofNatAux c.val hvalid, dif_pos hvalid, ?_⟩
  apply Fin.ext
  rw [Text.ofChar_val]
  rfl

theorem stringOf_ascii {text : Text} (h : JsonText.Ascii text) :
    ∃ s, stringOf text = some s ∧ ofString s = text := by
  have hchars : ∃ l, text.mapM charOf = some l ∧ l.map Text.ofChar = text := by
    induction text with
    | nil => exact ⟨[], rfl, rfl⟩
    | cons c text ih =>
      obtain ⟨d, hd, hc⟩ := charOf_ascii (h c List.mem_cons_self)
      obtain ⟨l, hl, ht⟩ := ih fun b hb => h b (List.mem_cons_of_mem c hb)
      refine ⟨d :: l, ?_, by rw [List.map_cons, hc, ht]⟩
      rw [List.mapM_cons, hd, hl]
      rfl
  obtain ⟨l, hl, ht⟩ := hchars
  refine ⟨String.ofList l, by rw [stringOf, hl]; rfl, ?_⟩
  rw [ofString, String.toList_ofList, ht]

/-- What a structured tool writes is the text of a result. -/
theorem stringOf_toJson {r : ToolResult} {text : Text} (h : r.toJson = .ok text) :
    ∃ s, stringOf text = some s ∧ ofString s = text := by
  obtain ⟨-, rfl⟩ := dumps_ok.mp h
  exact stringOf_ascii (JsonText.render_ascii _)

/-- The text is that of a result, and is read back as it. -/
def IsResult (output : String) : Prop :=
  ∃ r : ToolResult, r.toJson = .ok (ofString output) ∧
    (r.Unpaired → ToolResult.fromJson (ofString output) = .ok r)

theorem dispatch_isResult {execute : Arguments → Except Exn (Dyn ToolResult)} {output : Dyn String}
    (h : structuredDispatch execute raw = .ok output) :
    ∃ text, output = .typed text ∧ IsResult text := by
  unfold structuredDispatch at h
  cases harguments : structuredArguments raw with
  | error e =>
    rw [harguments] at h
    cases h
  | ok fields =>
    cases hexecute : execute fields with
    | error e =>
      rw [harguments] at h
      simp only [bind, Except.bind, hexecute] at h
      cases h
    | ok result =>
      rw [harguments] at h
      simp only [bind, Except.bind, hexecute] at h
      cases result with
      | other => cases h
      | typed r =>
        obtain ⟨text, htext⟩ := toJson_ok r
        obtain ⟨s, hs, hof⟩ := stringOf_toJson htext
        simp only [htext, hs] at h
        cases h
        subst hof
        refine ⟨s, rfl, r, htext, fun hpaired => ?_⟩
        obtain ⟨text', htext', hread⟩ := (result_round_trips_iff r).mpr hpaired
        cases htext.symm.trans htext'
        exact hread

theorem check_ok {check : Arguments → Except Exn Unit} {u : Unit}
    (h : structuredCheck check raw = .ok u) :
    ∃ fields, structuredArguments raw = .ok fields ∧ check fields = .ok () := by
  unfold structuredCheck at h
  cases harguments : structuredArguments raw with
  | error e =>
    rw [harguments] at h
    cases h
  | ok fields =>
    rw [harguments] at h
    exact ⟨fields, rfl, h⟩

/-! ## What was said -/

/-- What was said before a tool is asked for, and before its output is kept. -/
def Readied (rt : Runtime) (h : Speech) : Req → Prop
  | .ask (.execute o tool raw) => tool ∈ rt.tools.tools ∧
      ⟨.store (.proposed o (.typed ⟨tool.name, raw⟩)), .ok ()⟩ ∈ h ∧
      ⟨.ask (.validate tool raw), .ok ()⟩ ∈ h
  | .store (.returned o output) => ∃ tool raw, tool ∈ rt.tools.tools ∧
      ⟨.store (.dispatch o tool.observation tool.externalAction), .ok ()⟩ ∈ h ∧
      ⟨.ask (.execute o tool raw), .ok output⟩ ∈ h
  | _ => True

abbrev channel (rt : Runtime) : Protocol Req Req.Answer Speech := histories (Readied rt)

/-- The other requests. -/
def Req.isPlain : Req → Prop
  | .ask (.execute _ _ _) | .store (.returned _ _) => False
  | _ => True

theorem readied_plain {q : Req} (hq : q.isPlain) : Readied rt h q := by
  unfold Readied
  split
  · exact hq.elim
  · exact hq.elim
  · trivial

/-- More was said, and a value is as `Q` says. -/
def Grown (h : Speech) (Q : α → Speech → Prop) (r : Except ε α) (h' : Speech) : Prop :=
  h <+: h' ∧ ∀ a, r = .ok a → Q a h'

variable {x : Flow ε α} {Q : α → Speech → Prop}

theorem grown_plain (hx : x.Asks Req.isPlain) : (channel rt).wp x h (Grown h Anyway) :=
  Protocol.wp_mono (hx.wp (fun _ _ => readied_plain) h) fun _ _ hp => ⟨hp, fun _ _ => trivial⟩

/-- A request that ends its part of the program. -/
theorem grown_said {q : Req} {k : q.Answer → Except ε α} (hq : Readied rt h q)
    (hk : ∀ y a, k y = .ok a → Q a (h ++ [⟨q, y⟩])) :
    (channel rt).wp (.ask q fun y => .ret (k y)) h (Grown h Q) :=
  ⟨hq, fun y _ => ⟨List.prefix_append _ _, hk y⟩⟩

theorem grown_store {call : Call} (hq : Readied rt h (.store call)) :
    (channel rt).wp (store call) h (Grown h fun y h' => ⟨.store call, .ok y⟩ ∈ h') := by
  refine grown_said hq fun y a hy => ?_
  cases hy
  simp

theorem grown_at {stage : String} {x : Flow Exn α} (hx : (channel rt).wp x h (Grown h Q)) :
    (channel rt).wp (at_ stage x) h (Grown h Q) := by
  rw [at_, Protocol.wp_mapError]
  refine Protocol.wp_mono hx ?_
  rintro (e | a) h' ⟨hp, hq⟩
  · exact ⟨hp, fun a ha => by cases ha⟩
  · exact ⟨hp, fun b hb => by cases hb; exact hq a rfl⟩

theorem grown_then {f : α → Flow ε β} {goal : β → Speech → Prop}
    (hx : (channel rt).wp x h (Grown h Q))
    (hf : ∀ a h', h <+: h' → Q a h' → (channel rt).wp (f a) h' (Grown h' goal)) :
    (channel rt).wp (x >>= f) h (Grown h goal) := by
  refine Protocol.wp_bind.mpr (Protocol.wp_mono hx ?_)
  rintro (e | a) h' ⟨hp, hq⟩
  · exact ⟨hp, fun a ha => by cases ha⟩
  · exact Protocol.wp_mono (hf a h' hp (hq a rfl)) fun _ _ hr => ⟨hp.trans hr.1, hr.2⟩

theorem grown_caught {ε' : Type} {f : ε → Flow ε' α} (hx : (channel rt).wp x h (Grown h Q))
    (hf : ∀ e h', (channel rt).wp (f e) h' (Grown h' Q)) :
    (channel rt).wp (x.catching f) h (Grown h Q) := by
  refine Protocol.wp_catching.mpr (Protocol.wp_mono hx ?_)
  rintro (e | a) h' ⟨hp, hq⟩
  · exact Protocol.wp_mono (hf e h') fun _ _ hr => ⟨hp.trans hr.1, hr.2⟩
  · exact ⟨hp, fun b hb => by cases hb; exact hq a rfl⟩

theorem grown_value {a : α} (hq : Q a h) : (channel rt).wp (pure a : Flow ε α) h (Grown h Q) :=
  ⟨List.prefix_rfl, fun b hb => by cases hb; exact hq⟩

theorem grown_raise {e : ε} : (channel rt).wp (Prog.raise e : Flow ε α) h (Grown h Q) :=
  ⟨List.prefix_rfl, fun a ha => by cases ha⟩

/-! ## The programs -/

namespace Runtime

theorem asks_store {call : Call} (hc : Req.isPlain (.store call)) :
    (store call : Flow Exn call.Result).Asks Req.isPlain := ⟨hc, fun _ => trivial⟩

theorem asks_emit {event : Event} {b : Bool} : (rt.emit event b).Asks Req.isPlain := by
  unfold emit
  refine Prog.asks_bind (asks_store trivial) fun _ => ?_
  refine Prog.asks_bind ⟨trivial, fun _ => trivial⟩ fun _ => ?_
  split
  · exact ⟨trivial, fun _ => trivial⟩
  · trivial

theorem asks_checkDeadline : checkDeadline.Asks Req.isPlain :=
  Prog.asks_bind (asks_store trivial) fun _ => Prog.asks_raiseIf

theorem asks_request {objective : String} {base : State} {effective : List String} :
    (rt.request objective base effective).Asks Req.isPlain := by
  unfold request
  refine Prog.asks_bind (asks_store trivial) fun _ => ?_
  refine Prog.asks_bind ?_ fun _ => ?_
  · unfold prepared
    split
    · exact ⟨trivial, fun _ => trivial⟩
    · trivial
  · refine Prog.asks_bind Prog.asks_raiseIf fun _ => ?_
    exact Prog.asks_bind Prog.asks_raiseIf fun _ => trivial

theorem asks_reservation {request : InferenceRequest} :
    (rt.reservation request).Asks Req.isPlain := by
  unfold reservation
  refine Prog.asks_bind (asks_store trivial) fun budget => ?_
  split
  · trivial
  · refine Prog.asks_bind Prog.asks_raiseIf fun _ => ?_
    refine Prog.asks_bind ⟨trivial, fun _ => trivial⟩ fun plan => ?_
    split
    · trivial
    · exact Prog.asks_bind Prog.asks_raiseIf fun _ => trivial

theorem asks_infer {request : InferenceRequest} : (infer o request).Asks Req.isPlain := by
  unfold infer
  refine Prog.asks_bind (Prog.asks_catching ⟨trivial, fun _ => trivial⟩ fun e => ?_)
    fun response => ?_
  · dsimp only
    split
    · split
      · exact Prog.asks_bind (asks_store trivial) fun _ => trivial
      · trivial
    · trivial
  · split
    · trivial
    · exact Prog.asks_bind (asks_store trivial) fun _ => trivial

theorem asks_checkGuard {request : InferenceRequest} {call : ToolCall} {guard : DispatchGuard} :
    (rt.checkGuard o request call guard).Asks Req.isPlain := by
  unfold checkGuard
  refine Prog.asks_bind ⟨trivial, fun _ => trivial⟩ fun decision => ?_
  split
  · trivial
  · refine Prog.asks_bind (asks_store trivial) fun _ => ?_
    exact Prog.asks_bind asks_emit fun _ => Prog.asks_raiseIf

theorem asks_publish {call : ToolCall} {candidate : Candidate} :
    (rt.publish o call candidate).Asks Req.isPlain := by
  unfold publish
  refine Prog.asks_bind asks_emit fun _ => ?_
  refine Prog.asks_bind asks_checkDeadline fun _ => ?_
  refine Prog.asks_bind ⟨trivial, fun _ => trivial⟩ fun _ => ?_
  exact Prog.asks_bind asks_checkDeadline fun _ => asks_store trivial

theorem asks_recordFailure {failure : String × Exn} :
    (rt.recordFailure o failure).Asks Req.isPlain := by
  obtain ⟨stage, error⟩ := failure
  unfold recordFailure
  refine Prog.asks_bind (asks_store trivial) fun _ => ?_
  refine Prog.asks_bind asks_emit fun _ => ?_
  dsimp only
  split
  · exact ⟨trivial, fun _ => trivial⟩
  · trivial

theorem asks_recover : recover.Asks Req.isPlain := by
  unfold recover locked
  refine Prog.asks_bind ⟨trivial, fun _ => trivial⟩ fun _ => ?_
  refine Prog.asks_bind (Prog.asks_catching ?_ fun _ => ?_) fun _ => ?_
  · refine Prog.asks_bind (asks_store trivial) fun _ => ?_
    refine Prog.asks_bind Prog.asks_raiseIf fun _ => ?_
    refine Prog.asks_bind (asks_store trivial) fun pending => ?_
    split
    · trivial
    · refine Prog.asks_bind Prog.asks_raiseIf fun _ => ?_
      split
      · exact Prog.asks_bind (asks_store trivial) fun _ => trivial
      · refine Prog.asks_bind asks_checkDeadline fun _ => ?_
        refine Prog.asks_bind (asks_store trivial) fun _ => Prog.asks_catching ?_ fun e => ?_
        · refine Prog.asks_bind ⟨trivial, fun _ => trivial⟩ fun _ => ?_
          refine Prog.asks_bind asks_checkDeadline fun _ => ?_
          exact Prog.asks_bind (asks_store trivial) fun _ => trivial
        · split
          · refine Prog.asks_bind ⟨trivial, fun _ => trivial⟩ fun _ => ?_
            split <;> trivial
          · trivial
  · exact Prog.asks_bind ⟨trivial, fun _ => trivial⟩ fun _ => trivial
  · exact Prog.asks_bind ⟨trivial, fun _ => trivial⟩ fun _ => trivial

/-- A tool that the broker prepared is registered, and was validated. -/
theorem grown_prepare {call : ToolCall} {allowed : List String} :
    (channel rt).wp (rt.tools.prepare call allowed) h
      (Grown h fun tool h' => tool ∈ rt.tools.tools ∧ tool.name = call.name ∧
        ⟨.ask (.validate tool call.arguments), .ok ()⟩ ∈ h') := by
  unfold ToolBroker.prepare
  refine grown_then (grown_plain Prog.asks_raiseIf) fun _ h₁ _ _ => ?_
  split
  · exact grown_raise
  · rename_i tool hfind
    refine grown_then (Q := fun _ h' => ⟨.ask (.validate tool call.arguments), .ok ()⟩ ∈ h')
      (grown_caught (grown_said trivial fun y a hy => ?_) fun e h₂ => ?_) fun _ h₂ _ hvalid => ?_
    · rw [hy]
      simp
    · split
      · exact grown_raise
      · split <;> exact grown_raise
    · exact grown_value ⟨List.mem_of_find?_eq_some hfind, by simpa using List.find?_some hfind,
        hvalid⟩

/-- The body of a step asks for its tool with the call that is in the file, and keeps what the
tool gave. -/
theorem grown_attempt {request : InferenceRequest} :
    (channel rt).wp (rt.attempt o request) h (Grown h Anyway) := by
  unfold attempt
  refine grown_then (grown_at (grown_plain asks_emit)) fun _ h₁ _ _ => ?_
  refine grown_then (grown_at (grown_plain asks_infer)) fun response h₂ _ _ => ?_
  refine grown_then (grown_at (grown_store trivial)) fun _ h₃ _ hproposed => ?_
  refine grown_then (grown_at (grown_plain asks_emit)) fun _ h₄ hp₄ _ => ?_
  refine grown_then (Q := fun call _ => response.call = .typed call)
    (grown_at ⟨List.prefix_rfl, fun call hc => ?_⟩) fun call h₅ hp₅ hcall => ?_
  · cases hr : response.call with
    | typed c =>
      rw [hr] at hc
      exact congrArg Dyn.typed (Except.ok.inj hc)
    | other =>
      rw [hr] at hc
      cases hc
  refine grown_then (grown_at grown_prepare) ?_
  rintro tool h₆ hp₆ ⟨htool, hname, hvalid⟩
  refine grown_then (grown_plain (Prog.asks_forEach fun _ => Prog.asks_mapError asks_checkGuard))
    fun _ h₇ hp₇ _ => ?_
  refine grown_then (grown_at (grown_store trivial)) fun _ h₈ hp₈ hdispatched => ?_
  refine grown_then (grown_at (grown_plain asks_emit)) fun _ h₉ hp₉ _ => ?_
  have hsince := (hp₇.trans hp₈).trans hp₉
  have hcalled : response.call = .typed ⟨tool.name, call.arguments⟩ := by rw [hcall, hname]
  rw [hcalled] at hproposed
  refine grown_then (grown_at (grown_said
    (Q := fun output h' => ⟨.ask (.execute o tool call.arguments), .ok output⟩ ∈ h')
    ⟨htool, (((hp₄.trans hp₅).trans hp₆).trans hsince).subset hproposed, hsince.subset hvalid⟩
    fun y a hy => ?_)) fun output h₁₀ hp₁₀ hexecuted => ?_
  · rw [hy]
    simp
  have hkept : Readied rt h₁₀ (.store (.returned o output)) :=
    ⟨tool, call.arguments, htool, hp₁₀.subset (hp₉.subset hdispatched), hexecuted⟩
  refine grown_then (grown_at (grown_store hkept)) fun candidate h₁₁ _ _ => ?_
  refine grown_then (grown_at (grown_plain asks_publish)) fun result h₁₂ _ _ => ?_
  exact grown_then (grown_at (grown_plain asks_emit)) fun _ _ _ _ => grown_value trivial

theorem grown_stepBody {objective : String} {grants : Option (List String)} :
    (channel rt).wp (rt.stepBody objective grants) h (Grown h Anyway) := by
  unfold stepBody
  refine grown_then (grown_plain Prog.asks_raiseIf) fun _ _ _ _ => ?_
  refine grown_then (grown_plain (asks_store trivial)) fun _ _ _ _ => ?_
  refine grown_then (grown_plain asks_request) fun _ _ _ _ => ?_
  refine grown_then (grown_plain asks_reservation) fun plan _ _ _ => ?_
  refine grown_then (grown_plain ⟨trivial, fun _ => trivial⟩) fun _ _ _ _ => ?_
  refine grown_then (grown_plain (asks_store trivial)) fun _ _ _ _ => ?_
  exact grown_caught grown_attempt fun _ _ => grown_plain asks_recordFailure

theorem grown_step {objective : String} {grants : Option (List String)} :
    (channel rt).wp (rt.step objective grants) h (Grown h Anyway) := by
  unfold step locked Prog.finally_ timeout
  refine grown_then (grown_plain ⟨trivial, fun _ => trivial⟩) fun _ _ _ _ => ?_
  refine grown_then (grown_caught ?_ fun _ _ => grown_plain (Prog.asks_bind
    ⟨trivial, fun _ => trivial⟩ fun _ => trivial)) fun _ _ _ _ => grown_plain (Prog.asks_bind
    ⟨trivial, fun _ => trivial⟩ fun _ => trivial)
  refine grown_then (grown_plain ⟨trivial, fun _ => trivial⟩) fun _ _ _ _ => ?_
  refine grown_then (grown_plain (asks_store trivial)) fun _ _ _ _ => ?_
  refine grown_then (grown_plain (asks_store trivial)) fun _ _ _ _ => ?_
  refine grown_caught grown_stepBody fun e h' => ?_
  split
  · refine grown_then (grown_plain ⟨trivial, fun _ => trivial⟩) fun _ _ _ _ => ?_
    split <;> exact grown_raise
  · exact grown_raise

end Runtime

theorem grown_job (job : Job) : (channel rt).wp (job.prog rt) h (Grown h Anyway) := by
  cases job with
  | step objective grants =>
    exact grown_then Runtime.grown_step fun _ _ _ _ => grown_value trivial
  | recover => exact grown_plain Runtime.asks_recover

/-! ## What is in the file -/

/-- What was said to a task is in the file, or was said by the closures. -/
structure Facts (validate : Tool → Arguments → Except Exn Unit) (t : Tables) (h : Speech) :
    Prop where
  proposed : ∀ o call, ⟨.store (.proposed o (.typed call)), .ok ()⟩ ∈ h →
    ∃ row, t.operation? o = some row ∧ row.call = some call
  dispatched : ∀ o observation externalAction,
    ⟨.store (.dispatch o observation externalAction), .ok ()⟩ ∈ h →
      ∃ row, t.operation? o = some row ∧ row.stage.spent = true ∧ row.observation = observation
  validated : ∀ tool raw, tool.IsStructured → ⟨.ask (.validate tool raw), .ok ()⟩ ∈ h →
    ∃ fields, structuredArguments raw = .ok fields ∧ validate tool fields = .ok ()
  executed : ∀ o tool raw output, tool.IsStructured →
    ⟨.ask (.execute o tool raw), .ok output⟩ ∈ h → ∃ text, output = .typed text ∧ IsResult text

theorem facts_nil : Facts validate t [] := by
  constructor <;> intros <;> contradiction

theorem Facts.change (hf : Facts validate t h) (hu : Unset t) (hc : Change handle clock t c t') :
    Facts validate t' h where
  proposed o call hm := by
    obtain ⟨row, hrow, hcall⟩ := hf.proposed o call hm
    obtain ⟨row', hrow', he⟩ := (hc.grows hu).operations hrow
    exact ⟨row', hrow', he.call call hcall⟩
  dispatched o observation externalAction hm := by
    obtain ⟨row, hrow, hspent, hobserved⟩ := hf.dispatched o observation externalAction hm
    obtain ⟨row', hrow', he⟩ := (hc.grows hu).operations hrow
    obtain ⟨row'', hrow'', hspent'⟩ := hc.spent_kept ⟨row, hrow, hspent⟩
    cases hrow'.symm.trans hrow''
    exact ⟨row', hrow', hspent', (he.observation hspent).trans hobserved⟩
  validated := hf.validated
  executed := hf.executed

theorem Facts.served (hf : Facts validate self.db h) (hu : Unset self.db) (i : Timed) :
    Facts validate (exec i self).2.db h := by
  rcases exec_cases i self with ⟨⟨handle, t', -, hc, he⟩, -⟩ | ⟨he, -⟩
  · rw [he]
    exact hf.change hu hc
  · rw [he]
    exact hf

theorem dispatch_leaves {observation externalAction : Bool} {u : Unit}
    (h : Call.answer (.dispatch o observation externalAction) clock self = .ok u) :
    ∃ row, (exec ⟨clock, .dispatch o observation externalAction⟩ self).2.db.operation? o =
        some row ∧
      row.stage.spent = true ∧ row.observation = observation := by
  obtain ⟨handle, t', -, hc, he⟩ :=
    commits_of_ok (i := ⟨clock, .dispatch o observation externalAction⟩) rfl (ok_of_answer h)
  rw [he]
  rcases hc.lookup o with ⟨hw, -⟩ | ⟨-, _, _, _, hcall, -⟩ | ⟨row, row', -, hrow, hm⟩
  · exact absurd rfl hw
  · cases hcall
  · cases hm
    exact ⟨_, hrow, rfl, rfl⟩

/-- What the store answers is in the file. -/
theorem Facts.called (hf : Facts validate self.db h) (hu : Unset self.db) :
    Facts validate (exec ⟨clock, c⟩ self).2.db (h ++ [⟨.store c, c.answer clock self⟩]) := by
  have hold := hf.served hu ⟨clock, c⟩
  refine ⟨fun o call hm => ?_, fun o observation externalAction hm => ?_, fun tool raw hs hm => ?_,
    fun o tool raw output hs hm => ?_⟩
  · rcases List.mem_append.mp hm with hm | hm
    · exact hold.proposed o call hm
    · obtain hsaid := List.mem_singleton.mp hm
      simp only [Said.mk.injEq, Req.store.injEq] at hsaid
      obtain ⟨rfl, hx⟩ := hsaid
      obtain ⟨_, row, hcall, hrow, hkept⟩ := leaves_of_ok (eq_of_heq hx).symm
      cases hcall
      exact ⟨row, hrow, hkept⟩
  · rcases List.mem_append.mp hm with hm | hm
    · exact hold.dispatched o observation externalAction hm
    · obtain hsaid := List.mem_singleton.mp hm
      simp only [Said.mk.injEq, Req.store.injEq] at hsaid
      obtain ⟨rfl, hx⟩ := hsaid
      exact dispatch_leaves (eq_of_heq hx).symm
  · rcases List.mem_append.mp hm with hm | hm
    · exact hold.validated tool raw hs hm
    · cases List.mem_singleton.mp hm
  · rcases List.mem_append.mp hm with hm | hm
    · exact hold.executed o tool raw output hs hm
    · cases List.mem_singleton.mp hm

/-- What the application answers is said by the closures. -/
theorem Facts.asked {reply : (a : Ask) → a.Answer} (hf : Facts validate t h)
    (hr : Answers validate reply) (a : Ask) : Facts validate t (h ++ [⟨.ask a, reply a⟩]) := by
  refine ⟨fun o call hm => ?_, fun o observation externalAction hm => ?_, fun tool raw hs hm => ?_,
    fun o tool raw output hs hm => ?_⟩
  · rcases List.mem_append.mp hm with hm | hm
    · exact hf.proposed o call hm
    · cases List.mem_singleton.mp hm
  · rcases List.mem_append.mp hm with hm | hm
    · exact hf.dispatched o observation externalAction hm
    · cases List.mem_singleton.mp hm
  · rcases List.mem_append.mp hm with hm | hm
    · exact hf.validated tool raw hs hm
    · obtain hsaid := List.mem_singleton.mp hm
      simp only [Said.mk.injEq, Req.ask.injEq] at hsaid
      obtain ⟨rfl, hx⟩ := hsaid
      exact check_ok ((hr.checks tool raw hs).symm.trans (eq_of_heq hx).symm)
  · rcases List.mem_append.mp hm with hm | hm
    · exact hf.executed o tool raw output hs hm
    · obtain hsaid := List.mem_singleton.mp hm
      simp only [Said.mk.injEq, Req.ask.injEq] at hsaid
      obtain ⟨rfl, hx⟩ := hsaid
      obtain ⟨execute, hexecute⟩ := hr.dispatches o tool raw hs
      exact dispatch_isResult (hexecute.symm.trans (eq_of_heq hx).symm)

/-- Every output that the query looks at is a result. -/
def Shows (t : Tables) : Prop :=
  ∀ row ∈ t.operations.rows, ∀ output, row.shown = some output → IsResult output

/-- An output is kept of a dispatch without observation, or is a result. -/
def Call.IsTrue (t : Tables) (c : Call) : Prop :=
  ∀ o output, c = .returned o (.typed output) → ∀ row, t.operation? o = some row →
    row.observation = true → IsResult output

theorem Shows.exec (hs : Shows self.db) (hu : Unset self.db) {i : Timed}
    (hi : i.call.IsTrue self.db) : Shows (exec i self).2.db := by
  rcases exec_cases i self with ⟨⟨handle, t', -, hc, he⟩, -⟩ | ⟨he, -⟩
  · rw [he]
    rcases hc.rows with ⟨-, hrows⟩ | ⟨o, request, _, _, -, -, hrows⟩ | ⟨o, row, row', ho, hm, hrows⟩
    · intro r hr
      rw [hrows] at hr
      exact hs r hr
    · intro r hr output hshown
      rw [hrows] at hr
      rcases List.mem_append.mp hr with hr | hr
      · exact hs r hr output hshown
      · rw [List.mem_singleton.mp hr] at hshown
        cases hshown
    · intro r hr output hshown
      rw [hrows] at hr
      obtain ⟨q, hq, rfl⟩ := List.mem_map.mp hr
      split at hshown
      · rcases hm.shown (hu o row ho) with hsame | ⟨kept, hcall, -, rfl⟩
        · rw [hsame] at hshown
          exact hs row (Table.lookup_some ho).1 output hshown
        · unfold OperationRow.shown at hshown
          split at hshown
          · rename_i hobserved
            cases hshown
            exact hi o output hcall row ho hobserved
          · cases hshown
      · exact hs q hq output hshown
  · rw [he]
    exact hs

/-! ## Every interleaving -/

/-- What holds of the file. -/
structure Filed (first : Option String) (t : Tables) : Prop where
  unset : Unset t
  initial : t.run.initialObservation = first
  shows : Shows t

variable {first : Option String} {s : Process} {runtimes : Nat → Runtime} {task : Task} {k : Nat}
  {reply : (a : Ask) → a.Answer}

theorem Filed.exec (hf : Filed first self.db) {i : Timed} (hi : i.call.IsTrue self.db) :
    Filed first (exec i self).2.db where
  unset := unset_after hf.unset [i]
  initial := by
    rcases exec_cases i self with ⟨⟨handle, t', -, hc, he⟩, -⟩ | ⟨he, -⟩
    · rw [he]
      exact hc.initialObservation.trans hf.initial
    · rw [he]
      exact hf.initial
  shows := hf.shows.exec hf.unset hi

/-- What holds of the file and of the tasks. -/
structure Channel (validate : Tool → Arguments → Except Exn Unit) (runtimes : Nat → Runtime)
    (first : Option String) (s : Process) : Prop where
  file : Filed first s.store.db
  tasks : ∀ task ∈ s.tasks, ∃ h,
    (channel (runtimes task.runtime)).wp task.prog h (fun _ _ => True) ∧
      Facts validate s.store.db h

/-- The tools that observe are structured. -/
def Structured (rt : Runtime) : Prop :=
  ∀ tool ∈ rt.tools.tools, tool.observation = true → tool.IsStructured

/-- What a task keeps of its tool is a result, if it is observed. -/
theorem Facts.isTrue (hf : Facts validate t h) (hrt : Structured rt)
    (hp : Readied rt h (.store c)) : c.IsTrue t := by
  rintro o output rfl row hrow hobserved
  obtain ⟨tool, raw, htool, hdispatched, hexecuted⟩ := hp
  obtain ⟨row', hrow', -, hflag⟩ := hf.dispatched _ _ _ hdispatched
  cases hrow.symm.trans hrow'
  obtain ⟨text, htext, hresult⟩ :=
    hf.executed o tool raw _ (hrt tool htool (hflag.symm.trans hobserved)) hexecuted
  cases htext
  exact hresult

theorem Channel.resume (h : Channel validate runtimes first s) (hrt : ∀ k, Structured (runtimes k))
    (hr : Answers validate reply) (hm : task ∈ s.tasks) :
    Channel validate runtimes first (s.resume k task clock reply).2 := by
  obtain ⟨said, hwp, hfacts⟩ := h.tasks task hm
  unfold Process.resume
  split
  · exact ⟨h.file, h.tasks⟩
  · rename_i call next hp
    rw [hp] at hwp
    have htrue : call.IsTrue s.store.db := hfacts.isTrue (hrt _) hwp.1
    refine ⟨h.file.exec htrue, fun task' ht => ?_⟩
    rcases List.mem_or_eq_of_mem_set ht with ht | rfl
    · obtain ⟨said', hwp', hfacts'⟩ := h.tasks task' ht
      exact ⟨said', hwp', hfacts'.served h.file.unset _⟩
    · exact ⟨_, hwp.2 _ trivial, hfacts.called h.file.unset⟩
  · rename_i a next hp
    rw [hp] at hwp
    split
    · refine ⟨h.file, fun task' ht => ?_⟩
      rcases List.mem_or_eq_of_mem_set ht with ht | rfl
      · exact h.tasks task' ht
      · exact ⟨said, hp ▸ hwp, hfacts⟩
    · refine ⟨h.file, fun task' ht => ?_⟩
      rcases List.mem_or_eq_of_mem_set ht with ht | rfl
      · exact h.tasks task' ht
      · exact ⟨_, hwp.2 _ trivial, hfacts.asked hr a⟩

theorem Channel.answer (h : Channel validate runtimes first s) (hr : Answers validate reply)
    (hm : task ∈ s.tasks) : Channel validate runtimes first (s.answer k task reply).2 := by
  obtain ⟨said, hwp, hfacts⟩ := h.tasks task hm
  unfold Process.answer
  split
  · rename_i a next hp
    rw [hp] at hwp
    split
    · refine ⟨h.file, fun task' ht => ?_⟩
      rcases List.mem_or_eq_of_mem_set ht with ht | rfl
      · exact h.tasks task' ht
      · exact ⟨_, hwp.2 _ trivial, hfacts.asked hr a⟩
    · exact h
  · exact h

/-- A call that is not the task's. -/
theorem Channel.serves (h : Channel validate runtimes first s) {i : Timed}
    (hi : ∀ o output, i.call ≠ .returned o output) :
    Channel validate runtimes first { s with store := (exec i s.store).2 } where
  file := h.file.exec fun o output hc => absurd hc (hi o _)
  tasks task hm := by
    obtain ⟨said, hwp, hfacts⟩ := h.tasks task hm
    exact ⟨said, hwp, hfacts.served h.file.unset i⟩

theorem Channel.step (h : Channel validate runtimes first s) (hrt : ∀ k, Structured (runtimes k))
    (turn : Turn) (ha : turn.Answers validate) :
    Channel validate runtimes first (s.step runtimes turn).2 := by
  cases turn with
  | begin runtime job =>
    unfold Process.step
    dsimp only
    split
    · refine ⟨h.file, fun task hm => ?_⟩
      rcases List.mem_append.mp hm with hm | hm
      · exact h.tasks task hm
      · rw [List.mem_singleton.mp hm]
        exact ⟨[], Protocol.wp_mono (grown_job job) fun _ _ _ => trivial, facts_nil⟩
    · exact h
  | resume clock reply =>
    unfold Process.step
    dsimp only
    split
    · exact h
    · split
      · exact h
      · rename_i task hk
        exact h.resume hrt ha (List.mem_of_getElem? hk)
  | answer k reply =>
    unfold Process.step
    dsimp only
    split
    · exact h
    · rename_i task hk
      split
      · exact h.answer ha (List.mem_of_getElem? hk)
      · exact h
  | die =>
    refine ⟨h.file, fun task hm => ?_⟩
    obtain ⟨task', hm', rfl⟩ := List.mem_map.mp hm
    exact h.tasks task' hm'
  | openRun clock => exact h.serves (by simp)
  | finish clock text =>
    unfold Process.step
    dsimp only
    split
    · exact h.serves (by simp)
    · exact h

theorem Channel.after (h : Channel validate runtimes first s) (hrt : ∀ k, Structured (runtimes k))
    (turns : List Turn) (ha : ∀ turn ∈ turns, turn.Answers validate) :
    Channel validate runtimes first (Process.after runtimes s turns) := by
  induction turns generalizing s with
  | nil => exact h
  | cons turn turns ih =>
    exact ih (h.step hrt turn (ha turn List.mem_cons_self)) fun t hm =>
      ha t (List.mem_cons_of_mem turn hm)

theorem Filed.observation (hf : Filed first t) {text : String}
    (h : t.latestObservation = some text) : first = some text ∨ IsResult text := by
  rw [latestObservation_eq, hf.initial, Option.or_eq_some_iff] at h
  rcases h with h | ⟨-, h⟩
  · obtain ⟨row, hrow, hshown⟩ := List.mem_filterMap.mp (List.mem_of_getLast? h)
    exact .inr (hf.shows row hrow text hshown)
  · exact .inl h

/-- For every interleaving of the steps and recoveries of any runtimes whose observing tools are
structured, with deaths and reopening anywhere: an observation is the initial one or the text of a
result, and a structured tool that is asked for gets the arguments that the file records of its
operation, which are those of an object that its validator accepted. -/
theorem structured_tools_keep_their_channel {now : ℚ} {runId state : Dyn String}
    {limits : RunLimits} {observation : Option (Dyn String)}
    (h : SQLiteRun.create now clock runId state limits observation = .ok self)
    (hrt : ∀ k, Structured (runtimes k)) (turns : List Turn)
    (ha : ∀ turn ∈ turns, turn.Answers validate) :
    (∀ text, (Process.after runtimes { store := self } turns).store.db.latestObservation =
      some text → initialOf observation = some text ∨ IsResult text) ∧
    (∀ row ∈ (Process.after runtimes { store := self } turns).store.db.operations.rows,
      ∀ output, row.observation = true → row.output = some output → IsResult output) ∧
    ∀ task ∈ (Process.after runtimes { store := self } turns).tasks, ∀ o tool raw next,
      task.prog = .ask (.ask (.execute o tool raw)) next →
        (∃ row, (Process.after runtimes { store := self } turns).store.db.operation? o = some row ∧
          row.call = some ⟨tool.name, raw⟩) ∧
        (tool.IsStructured → ∃ fields, structuredArguments raw = .ok fields ∧
          validate tool fields = .ok ()) := by
  obtain ⟨_, _, _, hdb, -⟩ := create_ok h
  have hfiled : Filed (initialOf observation) self.db := by
    refine ⟨hdb ▸ unset_fresh _, create_observation h, ?_⟩
    rw [hdb]
    exact fun row hrow => absurd hrow List.not_mem_nil
  have hstart : Channel validate runtimes (initialOf observation) { store := self } :=
    ⟨hfiled, fun task hm => absurd hm List.not_mem_nil⟩
  have hend := hstart.after hrt turns ha
  refine ⟨fun text => hend.file.observation, fun row hrow output hobserved houtput => ?_,
    fun task hm o tool raw next hp => ?_⟩
  · refine hend.file.shows row hrow output ?_
    rw [OperationRow.shown, if_pos hobserved, houtput]
  · obtain ⟨said, hwp, hfacts⟩ := hend.tasks task hm
    rw [hp] at hwp
    obtain ⟨-, hproposed, hvalid⟩ := hwp.1
    exact ⟨hfacts.proposed o _ hproposed, fun hs => hfacts.validated tool raw hs hvalid⟩

def lookTool : Tool where
  name := "look"
  observation := true
  parametersJson := "\x7b\"type\":\"object\"\x7d"

/-- A runtime with one structured tool. -/
def lookRuntime : Runtime where
  tools := ⟨[lookTool], by simp [lookTool], by simp⟩
  grants := ["look"]
  guards := []
  guardsDistinct := List.nodup_nil
  plansOutput := false
  preparesRequest := false
  notifies := false

/-- The validator wants a place. -/
def lookValidate (_ : Tool) (fields : Arguments) : Except Exn Unit :=
  match Value.get (ofString "at") fields with
  | some (.str _) => .ok ()
  | _ => .error (valueError "A place is needed")

theorem plain_accepted :
    (none : Option Text).all (fun data => (readJson data).isOk) = true := rfl

def lookReply : (a : Ask) → a.Answer
  | .generate _ _ => .ok (.typed ⟨.typed ⟨"look", "\x7b\"at\":\"door\"\x7d"⟩, .typed .scripted⟩)
  | .validate tool raw => structuredCheck (lookValidate tool) raw
  | .execute _ _ raw => structuredDispatch
      (fun _ => .ok (.typed
        { content := [.text (ofString "shut")], accepted := plain_accepted })) raw
  | a => sampleReply a

def lookTurns (rounds : Nat) : List Turn :=
  .begin 0 (.step "goal" none) ::
    (List.replicate rounds [Turn.resume ⟨0, 0⟩ lookReply, .answer 0 lookReply]).flatten

theorem structured_tools_keep_their_channel_sample :
    ∃ text, (Process.after (fun _ => lookRuntime) { store := sampleStore }
      (lookTurns 24)).store.db.latestObservation = some text ∧ IsResult text := by
  have hlook : lookTool.IsStructured := by decide +kernel
  have hstructured : Structured lookRuntime := by
    intro tool htool _
    rw [List.mem_singleton.mp htool]
    exact hlook
  have hanswers : Answers lookValidate lookReply := ⟨fun _ _ _ => rfl, fun _ _ _ _ => ⟨_, rfl⟩⟩
  have hturns : ∀ turn ∈ lookTurns 24, turn.Answers lookValidate := by
    intro turn hturn
    rcases List.mem_cons.mp hturn with rfl | hturn
    · trivial
    · obtain ⟨round, hround, hturn⟩ := List.mem_flatten.mp hturn
      rw [List.eq_of_mem_replicate hround] at hturn
      rcases List.mem_cons.mp hturn with rfl | hturn
      · exact hanswers
      · rw [List.mem_singleton.mp hturn]
        exact hanswers
  have hobserved : (Process.after (fun _ => lookRuntime) { store := sampleStore }
      (lookTurns 24)).store.db.latestObservation.isSome = true := by decide +kernel
  obtain ⟨text, htext⟩ := Option.isSome_iff_exists.mp hobserved
  refine ⟨text, htext, ?_⟩
  rcases (structured_tools_keep_their_channel create_sampleStore (fun _ => hstructured)
    (lookTurns 24) hturns).1 text htext with hinitial | hresult
  · cases hinitial
  · exact hresult

end FlynnAgents
