-- The laws of the DeepSeek adapter: the responses that it accepts are those of its
-- grammar, and every exit carries a usage report unless an integer is too long to write.
import FlynnAgents.DeepSeek

namespace FlynnAgents

/-! ## The response grammar -/

/-- The response is one complete call of a permitted tool. -/
def Grammar (loads : Loads) (allowed : List String) (json : Option (Value String))
    (n args : String) : Prop :=
  ∃ body choice message item function, json = some (.dict body) ∧
    Value.get "choices" body = some (.list [.dict choice]) ∧
    Value.get "finish_reason" choice = some (.str "tool_calls") ∧
    Value.get "message" choice = some (.dict message) ∧
    Value.get "tool_calls" message = some (.list [.dict item]) ∧
    Value.get "type" item = some (.str "function") ∧
    Value.get "function" item = some (.dict function) ∧
    Value.get "name" function = some (.str n) ∧ n ∈ allowed ∧
    Value.get "arguments" function = some (.str args) ∧
    ∃ decoded, loads args = some (.dict decoded)

/-- The length of `choices`, where that is a list. -/
def choiceCount (json : Option (Value String)) : Option Nat := do
  let body ← (← json).asDict
  let choices ← (← Value.get "choices" body).asList
  return choices.length

/-- The length of `tool_calls`, where the single choice and its message are objects and
`tool_calls` is a list. -/
def toolCallCount (json : Option (Value String)) : Option Nat := do
  let body ← (← json).asDict
  match ← (← Value.get "choices" body).asList with
  | [choice] =>
    let message ← (← Value.get "message" (← choice.asDict)).asDict
    let calls ← (← Value.get "tool_calls" message).asList
    return calls.length
  | _ => none

theorem lookup_dict {key : String} {fields inner : List (String × Value String)} :
    (Value.lookup key fields).asDict = some inner ↔ Value.get key fields = some (.dict inner) := by
  unfold Value.lookup
  cases Value.get key fields with
  | none => simp [Value.asDict]
  | some v => cases v <;> simp [Value.asDict]

theorem lookup_list {key : String} {fields : List (String × Value String)}
    {items : List (Value String)} :
    (Value.lookup key fields).asList = some items ↔ Value.get key fields = some (.list items) := by
  unfold Value.lookup
  cases Value.get key fields with
  | none => simp [Value.asList]
  | some v => cases v <;> simp [Value.asList]

theorem lookup_str {key s : String} {fields : List (String × Value String)} :
    (Value.lookup key fields).asStr = some s ↔ Value.get key fields = some (.str s) := by
  unfold Value.lookup
  cases Value.get key fields with
  | none => simp [Value.asStr]
  | some v => cases v <;> simp [Value.asStr]

theorem asDict_eq {v : Value String} {fields : List (String × Value String)}
    (h : v.asDict = some fields) : v = .dict fields := by
  cases v <;> simp_all [Value.asDict]

/-- A call of the grammar passes every check. -/
theorem validate_accepts {loads : Loads} {allowed : List String} {json : Option (Value String)}
    {n args : String} (h : Grammar loads allowed json n args) :
    (validateResponse loads allowed json).rejection = none ∧
      (validateResponse loads allowed json).name.asStr = some n ∧
      (validateResponse loads allowed json).arguments.asStr = some args := by
  obtain ⟨body, choice, message, item, function, rfl, hchoices, hfinish, hmessage, hcalls, htype,
    hfunction, hname, hallowed, hargs, decoded, hdecoded⟩ := h
  have e1 : Value.lookup "choices" body = .list [.dict choice] := by simp [Value.lookup, hchoices]
  have e2 : Value.lookup "finish_reason" choice = .str "tool_calls" := by
    simp [Value.lookup, hfinish]
  have e3 : Value.lookup "message" choice = .dict message := by simp [Value.lookup, hmessage]
  have e4 : Value.lookup "tool_calls" message = .list [.dict item] := by simp [Value.lookup, hcalls]
  have e5 : Value.lookup "type" item = .str "function" := by simp [Value.lookup, htype]
  have e6 : Value.lookup "function" item = .dict function := by simp [Value.lookup, hfunction]
  have e7 : Value.lookup "name" function = .str n := by simp [Value.lookup, hname]
  have e8 : Value.lookup "arguments" function = .str args := by simp [Value.lookup, hargs]
  simp [validateResponse, Value.asDict, Value.asList, Value.asStr, e1, e2, e3, e4, e5, e6, e7, e8,
    hallowed, hdecoded]

theorem get_bind_asDict {β : Type} (key : String) (fields : List (String × Value String))
    (f : List (String × Value String) → Option β) :
    ((Value.get key fields).bind fun v => v.asDict.bind f) =
      (Value.lookup key fields).asDict.bind f := by
  unfold Value.lookup
  cases Value.get key fields <;> simp

theorem get_bind_asList {β : Type} (key : String) (fields : List (String × Value String))
    (f : List (Value String) → Option β) :
    ((Value.get key fields).bind fun v => v.asList.bind f) =
      (Value.lookup key fields).asList.bind f := by
  unfold Value.lookup
  cases Value.get key fields <;> simp

theorem choiceCount_eq (v : Value String) : choiceCount (some v) =
    v.asDict.bind fun body => (Value.lookup "choices" body).asList.map List.length := by
  simp only [choiceCount, Option.bind_eq_bind, Option.bind_some, get_bind_asList,
    Option.map_eq_bind,
    Function.comp_def, Option.pure_def]

theorem toolCallCount_eq (v : Value String) : toolCallCount (some v) =
    v.asDict.bind fun body => (Value.lookup "choices" body).asList.bind fun choices =>
      match choices with
      | [choice] => choice.asDict.bind fun cf =>
          (Value.lookup "message" cf).asDict.bind fun message =>
            (Value.lookup "tool_calls" message).asList.map List.length
      | _ => none := by
  simp only [toolCallCount, Option.bind_eq_bind, Option.bind_some, get_bind_asList,
    get_bind_asDict, Option.pure_def, Option.map_eq_bind, Function.comp_def]

/-- What is not rejected is a call of the grammar, and the counts are those of the body. -/
theorem validate_spec (loads : Loads) (allowed : List String) (json : Option (Value String)) :
    ((validateResponse loads allowed json).rejection = none →
      ∃ n args, Grammar loads allowed json n args) ∧
    (validateResponse loads allowed json).choiceCount = choiceCount json ∧
    (validateResponse loads allowed json).toolCallCount = toolCallCount json := by
  cases json with
  | none => simp [validateResponse, choiceCount, toolCallCount]
  | some v =>
  rw [choiceCount_eq, toolCallCount_eq]
  cases hbody : v.asDict with
  | none => simp [validateResponse, hbody]
  | some body =>
  cases hchoices : (Value.lookup "choices" body).asList with
  | none => simp [validateResponse, hbody, hchoices]
  | some choices =>
  rcases choices with _ | ⟨choice, _ | ⟨second, rest⟩⟩
  · simp [validateResponse, hbody, hchoices]
  swap
  · simp [validateResponse, hbody, hchoices]
  cases hchoice : choice.asDict with
  | none => simp [validateResponse, hbody, hchoices, hchoice]
  | some cf =>
  by_cases hfinish : (Value.lookup "finish_reason" cf).asStr = some "tool_calls"
  swap
  · cases hmessage : (Value.lookup "message" cf).asDict <;>
      simp [validateResponse, hbody, hchoices, hchoice, hfinish, hmessage]
  cases hmessage : (Value.lookup "message" cf).asDict with
  | none => simp [validateResponse, hbody, hchoices, hchoice, hfinish, hmessage]
  | some message =>
  cases hcalls : (Value.lookup "tool_calls" message).asList with
  | none => simp [validateResponse, hbody, hchoices, hchoice, hfinish, hmessage, hcalls]
  | some calls =>
  refine ⟨fun h => ?_, by simp [validateResponse, hbody, hchoices],
    by simp [validateResponse, hbody, hchoices, hchoice, hmessage, hcalls]⟩
  by_cases hcall : calls.length = 1
  swap
  · simp [validateResponse, hbody, hchoices, hchoice, hfinish, hmessage, hcalls, hcall] at h
  obtain ⟨item, rfl⟩ := List.length_eq_one_iff.mp hcall
  cases hitem : item.asDict with
  | none =>
    simp [validateResponse, hbody, hchoices, hchoice, hfinish, hmessage, hcalls, hitem] at h
  | some fields =>
  by_cases htype : (Value.lookup "type" fields).asStr = some "function"
  swap
  · simp [validateResponse, hbody, hchoices, hchoice, hfinish, hmessage, hcalls, hitem, htype] at h
  cases hfunction : (Value.lookup "function" fields).asDict with
  | none =>
    simp [validateResponse, hbody, hchoices, hchoice, hfinish, hmessage, hcalls, hitem, htype,
      hfunction] at h
  | some function =>
  cases hname : (Value.lookup "name" function).asStr with
  | none =>
    simp [validateResponse, hbody, hchoices, hchoice, hfinish, hmessage, hcalls, hitem, htype,
      hfunction, hname] at h
  | some n =>
  by_cases hallowed : n ∈ allowed
  swap
  · simp [validateResponse, hbody, hchoices, hchoice, hfinish, hmessage, hcalls, hitem, htype,
      hfunction, hname, hallowed] at h
  cases hargs : (Value.lookup "arguments" function).asStr with
  | none =>
    simp [validateResponse, hbody, hchoices, hchoice, hfinish, hmessage, hcalls, hitem, htype,
      hfunction, hname, hallowed, hargs] at h
  | some args =>
  cases hloads : loads args with
  | none =>
    simp [validateResponse, hbody, hchoices, hchoice, hfinish, hmessage, hcalls, hitem, htype,
      hfunction, hname, hallowed, hargs, hloads] at h
  | some decoded =>
  cases hdecoded : decoded.asDict with
  | none =>
    simp [validateResponse, hbody, hchoices, hchoice, hfinish, hmessage, hcalls, hitem, htype,
      hfunction, hname, hallowed, hargs, hloads, hdecoded] at h
  | some dict =>
  refine ⟨n, args, body, cf, message, fields, function, by rw [asDict_eq hbody], ?_,
    lookup_str.mp hfinish, lookup_dict.mp hmessage, ?_, lookup_str.mp htype,
    lookup_dict.mp hfunction, lookup_str.mp hname, hallowed, lookup_str.mp hargs, dict, ?_⟩
  · rw [lookup_list.mp hchoices, asDict_eq hchoice]
  · rw [lookup_list.mp hcalls, asDict_eq hitem]
  · rw [hloads, asDict_eq hdecoded]

/-! ## The usage report -/

theorem tokenCount_bounded {field : String} {data : List (String × Value String)} {n : Int}
    (h : tokenCount field data = some n) : sqliteInteger n = true := by
  unfold tokenCount at h
  split at h
  · split at h
    · next hn =>
      cases h
      exact hn
    · cases h
  · cases h

theorem namedStr_not_blank {v : Value String} {s : String} (h : namedStr v = some s) :
    blank s = false := by
  simp only [namedStr, Option.filter_eq_some_iff, Bool.not_eq_true'] at h
  exact h.2

theorem configurationSha256_digits (model : String) (settings : JsonText.Tree) :
    (configurationSha256 model settings).toList.length = 64 ∧
      (configurationSha256 model settings).toList.all isLowerHex = true := by
  refine ⟨Sha256.hexdigest_length _, List.all_eq_true.mpr fun c hc => ?_⟩
  exact Sha256.hexdigest_isHexDigit hc

/-- What an attempt knows of its model and its configuration. -/
structure Attempt.Named (t : Attempt) : Prop where
  model : blank t.requestedModel = false
  digest : ∀ d, t.configurationSha256 = some d →
    d.toList.length = 64 ∧ d.toList.all isLowerHex = true

theorem Attempt.Named.accepted {t : Attempt} (h : t.Named) : t.usageFields.postInit = none := by
  have hnames : ([some "deepseek", some t.requestedModel,
      namedStr (Value.lookup "id" t.data), namedStr t.finish,
      namedStr (Value.lookup "model" t.data)].any fun v => v.any blank) = false := by
    have hnamed : ∀ v, (namedStr v).any blank = false := by
      intro v
      cases hv : namedStr v with
      | none => rfl
      | some s => exact namedStr_not_blank hv
    simp [hnamed, h.model, show blank "deepseek" = false by decide]
  have hdigest : (t.configurationSha256.any fun d =>
      d.toList.length != 64 || !d.toList.all isLowerHex) = false := by
    cases hd : t.configurationSha256 with
    | none => rfl
    | some d => simp [h.digest d hd]
  have hcount : ∀ field, ((if t.requestStarted then tokenCount field t.data else some 0).any
      fun n => !sqliteInteger n) = false := by
    intro field
    by_cases hs : t.requestStarted = true
    · simp only [hs, ↓reduceIte]
      cases hc : tokenCount field t.data with
      | none => rfl
      | some n => simp [tokenCount_bounded hc]
    · simp only [hs, Bool.false_eq_true, ↓reduceIte, Option.any_some]
      decide
  have hcounts : ([if t.requestStarted then tokenCount "prompt_tokens" t.data else some 0,
      if t.requestStarted then tokenCount "completion_tokens" t.data else some 0].any
      fun c => c.any fun n => !sqliteInteger n) = false := by
    rw [List.any_cons, List.any_cons, hcount, hcount]
    rfl
  simp only [UsageFields.postInit, Attempt.usageFields, hnames, hdigest, hcounts,
    Bool.false_eq_true, ↓reduceIte, reduceCtorEq, or_self]
  by_cases hs : t.requestStarted = true
  · simp only [hs, ↓reduceIte]
    cases tokenCount "prompt_tokens" t.data <;> cases tokenCount "completion_tokens" t.data <;>
      simp
  · simp [hs]

theorem except_bind_ok {ε α β : Type} {x : Except ε α} {f : α → Except ε β} {b : β}
    (h : (x >>= f) = .ok b) : ∃ v, x = .ok v ∧ f v = .ok b := by
  cases x with
  | error e => cases h
  | ok v => exact ⟨v, rfl, h⟩

theorem DeepSeekAdapter.model_named (a : DeepSeekAdapter) : blank a.model = false := by
  have h := a.accepted
  unfold AdapterFields.init at h
  by_contra hmodel
  simp only [Bool.not_eq_false] at hmodel
  split at h
  · cases h
  · simp at h

theorem payload_model {a : DeepSeekAdapter} {loads : Loads} {request : InferenceRequest}
    {p : Payload} (h : a.payload loads request = .ok p) : p.model = a.model := by
  unfold DeepSeekAdapter.payload at h
  obtain ⟨tools, _, h⟩ := except_bind_ok h
  split at h
  · cases h
  split at h
  · cases h
  obtain ⟨limit, _, h⟩ := except_bind_ok h
  cases h
  rfl

theorem configuration_digest {p : Payload} {digest : String} (h : p.configuration = .ok digest) :
    digest = configurationSha256 p.model p.settings := by
  unfold Payload.configuration at h
  split at h
  · cases h
  split at h
  · cases h
  cases h
  rfl

/-- What was sent has the model of the adapter and the digest of its settings. -/
theorem prepare_ok {a : DeepSeekAdapter} {loads : Loads} {request : InferenceRequest}
    {p : Payload} {digest : String} (h : a.prepare loads request = .ok (p, digest)) :
    a.payload loads request = .ok p ∧ p.configuration = .ok digest := by
  unfold DeepSeekAdapter.prepare at h
  obtain ⟨p', hp, h⟩ := except_bind_ok h
  obtain ⟨digest', hdigest, h⟩ := except_bind_ok h
  cases h
  exact ⟨hp, hdigest⟩

/-- The bodies of the 200 responses, as the `finally` sees them. -/
def Posted.data : Posted → List (String × Value String)
  | .response status _ json => if status = 200 then (json.getD .none).asDict.getD [] else []
  | _ => []

theorem attempt_refused {a : DeepSeekAdapter} {loads : Loads} {request : InferenceRequest} {e : Exn}
    (h : a.prepare loads request = .error e) (redact : Redactor) (posted : Posted) :
    a.attempt loads redact request posted =
      { requestedModel := a.model, result := .error (.other e) } := by
  simp only [DeepSeekAdapter.attempt, h]

/-- What every attempt that was sent has in its report. -/
theorem attempt_sent {a : DeepSeekAdapter} {loads : Loads} {request : InferenceRequest}
    {p : Payload} {digest : String} (h : a.prepare loads request = .ok (p, digest))
    (redact : Redactor) (posted : Posted) :
    (a.attempt loads redact request posted).requestStarted = true ∧
    (a.attempt loads redact request posted).requestedModel = p.model ∧
    (a.attempt loads redact request posted).configurationSha256 = some digest ∧
    (a.attempt loads redact request posted).data = posted.data := by
  simp only [DeepSeekAdapter.attempt, h]
  cases posted with
  | timedOut => simp [Posted.data]
  | requestError => simp [Posted.data]
  | cancelled => simp [Posted.data]
  | unencodable typeName message => simp [Posted.data]
  | response status content json =>
    by_cases hstatus : status = 200
    · simp only [hstatus, ne_eq, not_true_eq_false, ↓reduceIte, Posted.data]
      cases (validateResponse loads request.allowedTools json).rejection <;>
        simp [validateResponse]
    · simp [hstatus, Posted.data]

/-- A request that was encoded ends in the call or in an exception that `generate` handles. -/
theorem attempt_handled {a : DeepSeekAdapter} {loads : Loads} {request : InferenceRequest}
    {p : Payload} {digest : String} (h : a.prepare loads request = .ok (p, digest))
    (redact : Redactor) {posted : Posted} (hposted : posted.isUnencodable = false) (e : Exn) :
    (a.attempt loads redact request posted).result ≠ .error (.other e) := by
  simp only [DeepSeekAdapter.attempt, h]
  cases posted with
  | timedOut => simp
  | requestError => simp
  | cancelled => simp
  | unencodable typeName message => cases hposted
  | response status content json =>
    by_cases hstatus : status = 200
    · simp only [hstatus, ne_eq, not_true_eq_false, ↓reduceIte]
      cases (validateResponse loads request.allowedTools json).rejection <;> simp
    · simp [hstatus]

theorem attempt_named (a : DeepSeekAdapter) (loads : Loads) (redact : Redactor)
    (request : InferenceRequest) (posted : Posted) :
    (a.attempt loads redact request posted).Named := by
  cases h : a.prepare loads request with
  | error e =>
    rw [attempt_refused h]
    refine ⟨a.model_named, ?_⟩
    simp
  | ok pd =>
    obtain ⟨p, digest⟩ := pd
    obtain ⟨_, hmodel, hdigest, _⟩ := attempt_sent h redact posted
    obtain ⟨hpayload, hconfiguration⟩ := prepare_ok h
    constructor
    · rw [hmodel, payload_model hpayload]
      exact a.model_named
    · intro d hd
      rw [hdigest] at hd
      cases hd
      rw [configuration_digest hconfiguration]
      exact configurationSha256_digits _ _

/-- The report of the `finally` is one that the constructor accepts. -/
theorem attempt_reports (a : DeepSeekAdapter) (loads : Loads) (redact : Redactor)
    (request : InferenceRequest) (posted : Posted) : ∃ usage : InferenceUsage,
    (a.attempt loads redact request posted).usageFields.create = .ok usage ∧
      usage.toUsageFields = (a.attempt loads redact request posted).usageFields := by
  have haccepted := (attempt_named a loads redact request posted).accepted
  refine ⟨⟨_, haccepted⟩, ?_, rfl⟩
  unfold UsageFields.create
  split
  · rfl
  · next message h =>
    rw [haccepted] at h
    cases h

/-! ## The payload -/

/-- The payload with these tools and this limit. -/
def DeepSeekAdapter.body (a : DeepSeekAdapter) (request : InferenceRequest)
    (tools : List FunctionTool) (limit : Int) : Payload :=
  ⟨a.model, a.systemInstruction, request.objective, request.base, request.observation,
    request.images, tools, limit, a.reasoningEffort⟩

/-- What is prepared, once the tools are accepted. -/
theorem prepare_eq {a : DeepSeekAdapter} {loads : Loads} {request : InferenceRequest}
    {tools : List FunctionTool} (h : a.functions loads request = .ok tools) :
    a.prepare loads request =
      if tooLong request.base.revision then .error tooManyDigits
      else if ¬ request.images.all ImageInput.valid then
        .error (providerError "Invalid explicit image URL or detail")
      else match a.outputLimit request with
        | .error e => .error e
        | .ok limit =>
          if tooLong limit then .error tooManyDigits
          else .ok (a.body request tools limit,
            configurationSha256 a.model (a.body request tools limit).settings) := by
  simp only [DeepSeekAdapter.prepare, DeepSeekAdapter.payload, h]
  by_cases hrevision : tooLong request.base.revision = true
  · simp only [hrevision, ↓reduceIte]
    rfl
  by_cases himages : request.images.all ImageInput.valid = true
  swap
  · simp only [hrevision, himages, Bool.false_eq_true, ↓reduceIte, not_false_eq_true]
    rfl
  cases hlimit : a.outputLimit request with
  | error e =>
    simp only [hrevision, himages, Bool.false_eq_true, ↓reduceIte, not_true_eq_false]
    rfl
  | ok limit =>
    have hconfiguration : (a.body request tools limit).configuration =
        if tooLong limit then .error tooManyDigits
        else .ok (configurationSha256 a.model (a.body request tools limit).settings) := by
      simp only [Payload.configuration, DeepSeekAdapter.body, a.model_named, Bool.false_eq_true,
        ↓reduceIte]
    simp only [hrevision, himages, Bool.false_eq_true, ↓reduceIte, not_true_eq_false]
    change (do let digest ← (a.body request tools limit).configuration
               return (a.body request tools limit, digest)) = _
    rw [hconfiguration]
    by_cases hlong : tooLong limit = true
    · rw [if_pos hlong, if_pos hlong]
      rfl
    · rw [if_neg hlong, if_neg hlong]
      rfl

/-! ## The responses -/

/-- The result of a 200 response is the call of the grammar, or the rejection with its counts. -/
theorem attempt_two_hundred {a : DeepSeekAdapter} {loads : Loads} {request : InferenceRequest}
    {p : Payload} {digest : String} (h : a.prepare loads request = .ok (p, digest))
    (redact : Redactor) (content : List UInt8) (json : Option (Value String)) :
    (∃ n args, Grammar loads request.allowedTools json n args ∧
      (a.attempt loads redact request (.response 200 content json)).result = .ok ⟨n, args⟩) ∨
    (¬ (∃ n args, Grammar loads request.allowedTools json n args) ∧ ∃ r : Rejection,
      (a.attempt loads redact request (.response 200 content json)).result = .error (.rejected r) ∧
      r.choiceCount = choiceCount json ∧ r.toolCallCount = toolCallCount json) := by
  obtain ⟨hsound, hchoices, hcalls⟩ := validate_spec loads request.allowedTools json
  simp only [DeepSeekAdapter.attempt, h, ne_eq, not_true_eq_false, ↓reduceIte]
  cases hrejection : (validateResponse loads request.allowedTools json).rejection with
  | none =>
    obtain ⟨n, args, hgrammar⟩ := hsound hrejection
    obtain ⟨_, hname, hargs⟩ := validate_accepts hgrammar
    exact .inl ⟨n, args, hgrammar, by simp [hname, hargs]⟩
  | some reason =>
    refine .inr ⟨?_, _, rfl, hchoices, hcalls⟩
    rintro ⟨n, args, hgrammar⟩
    obtain ⟨haccepted, _⟩ := validate_accepts hgrammar
    rw [hrejection] at haccepted
    cases haccepted

/-- There is at most one call. -/
theorem Grammar.unique {loads : Loads} {allowed : List String} {json : Option (Value String)}
    {n args n' args' : String} (h : Grammar loads allowed json n args)
    (h' : Grammar loads allowed json n' args') : n = n' ∧ args = args' := by
  obtain ⟨_, hname, hargs⟩ := validate_accepts h
  obtain ⟨_, hname', hargs'⟩ := validate_accepts h'
  rw [hname] at hname'
  rw [hargs] at hargs'
  exact ⟨Option.some.inj hname', Option.some.inj hargs'⟩

/-- A call comes from a response with one choice and one call. -/
theorem Grammar.counts {loads : Loads} {allowed : List String} {json : Option (Value String)}
    {n args : String} (h : Grammar loads allowed json n args) :
    choiceCount json = some 1 ∧ toolCallCount json = some 1 := by
  obtain ⟨body, choice, message, item, function, rfl, hchoices, _, hmessage, hcalls, _⟩ := h
  simp [choiceCount, toolCallCount, Value.asDict, Value.asList, hchoices, hmessage, hcalls]

/-- How `generate` is left, when its report is known. -/
theorem generate_eq {a : DeepSeekAdapter} {loads : Loads} {redact : Redactor} {sink : Sink}
    {request : InferenceRequest} {posted : Posted} {usage : InferenceUsage}
    (h : (a.attempt loads redact request posted).usageFields.create = .ok usage) :
    a.generate loads redact sink request posted =
      if sink.raises (a.attempt loads redact request posted).trace then .sinkFailed usage
      else match (a.attempt loads redact request posted).result with
        | .ok call => .returned call usage
        | .error (.provider message) => .failed message usage
        | .error (.rejected r) => .rejected r usage
        | .error .cancelled => .cancelled usage
        | .error (.other e) =>
          if e.isinstance .inferenceFailure then .failed e.message usage else .escaped e := by
  unfold DeepSeekAdapter.generate Attempt.leave
  split
  · next e he =>
    rw [h] at he
    cases he
  · next u hu =>
    rw [h] at hu
    cases hu
    rfl

/-- A 200 response gives its call exactly if it is one of the grammar, and is rejected with
its counts otherwise. A callback that raises replaces both, and nothing else does. -/
theorem responses_follow_the_grammar {a : DeepSeekAdapter} {loads : Loads}
    {request : InferenceRequest} {p : Payload} {digest : String}
    (hsent : a.prepare loads request = .ok (p, digest)) (redact : Redactor) (sink : Sink)
    (content : List UInt8) (json : Option (Value String)) :
    let posted := Posted.response 200 content json
    let exit := a.generate loads redact sink request posted
    (sink.raises (a.attempt loads redact request posted).trace = false →
      (∀ call : ToolCall, (∃ usage, exit = .returned call usage) ↔
        Grammar loads request.allowedTools json call.name call.arguments) ∧
      ((¬ ∃ n args, Grammar loads request.allowedTools json n args) → ∃ r usage,
        exit = .rejected r usage ∧ r.choiceCount = choiceCount json ∧
        r.toolCallCount = toolCallCount json)) ∧
    (sink.raises (a.attempt loads redact request posted).trace = true →
      ∃ usage, exit = .sinkFailed usage) ∧
    ∀ call usage, exit = .returned call usage →
      choiceCount json = some 1 ∧ toolCallCount json = some 1 := by
  intro posted exit
  obtain ⟨usage, husage, _⟩ := attempt_reports a loads redact request posted
  have hexit : exit = _ := @generate_eq a loads redact sink request posted usage husage
  by_cases hsink : sink.raises (a.attempt loads redact request posted).trace = true
  · rw [if_pos hsink] at hexit
    refine ⟨fun h => ?_, fun _ => ⟨usage, hexit⟩, fun call u h => ?_⟩
    · rw [hsink] at h
      cases h
    · rw [hexit] at h
      cases h
  rw [if_neg hsink] at hexit
  rcases attempt_two_hundred hsent redact content json with
    ⟨n, args, hgrammar, hresult⟩ | ⟨hno, r, hresult, hchoices, hcalls⟩
  · rw [hresult] at hexit
    refine ⟨fun _ => ⟨fun call => ⟨?_, fun h => ?_⟩, fun h => absurd ⟨n, args, hgrammar⟩ h⟩,
      fun h => absurd h hsink, fun call u h => hgrammar.counts⟩
    · rintro ⟨u, h⟩
      rw [hexit] at h
      cases h
      exact hgrammar
    · obtain ⟨hn, hargs⟩ := hgrammar.unique h
      exact ⟨usage, by rw [hexit, hn, hargs]⟩
  · rw [hresult] at hexit
    refine ⟨fun _ => ⟨fun call => ⟨?_, fun h => absurd ⟨_, _, h⟩ hno⟩,
      fun _ => ⟨r, usage, hexit, hchoices, hcalls⟩⟩, fun h => absurd h hsink, fun call u h => ?_⟩
    · rintro ⟨u, h⟩
      rw [hexit] at h
      cases h
    · rw [hexit] at h
      cases h

def sampleAdapter : DeepSeekAdapter where
  apiKey := "sk-1"
  systemInstruction := "Choose one tool call."
  accepted := by decide

/-- A decoder of two texts. -/
def sampleLoads : Loads := fun text =>
  if text = "schema" then some (.dict [("type", .str "object")])
  else if text = "no arguments" then some (.dict [])
  else none

/-- Nothing of an error body is kept. -/
def keepNothing : Redactor := fun content _ => ⟨[], true, false, content.length⟩

def readRequest : InferenceRequest where
  objective := "Read the file"
  base := ⟨0, "{}"⟩
  allowedTools := ["read"]
  tools := [⟨"read", "Reads a file", "schema"⟩]

theorem readRequest_functions (a : DeepSeekAdapter) : a.functions sampleLoads readRequest =
    .ok [⟨"read", "Reads a file", [("type", .str "object")]⟩] := rfl

def readBody : Value String :=
  .dict [("choices", .list [.dict [("finish_reason", .str "tool_calls"),
    ("message", .dict [("tool_calls", .list [.dict [("type", .str "function"),
      ("function", .dict [("name", .str "read"), ("arguments", .str "no arguments")])]])])]])]

theorem responses_follow_the_grammar_sample : ∃ usage,
    sampleAdapter.generate sampleLoads keepNothing none readRequest
      (.response 200 [] (some readBody)) = .returned ⟨"read", "no arguments"⟩ usage := by
  have hsent := prepare_eq (readRequest_functions sampleAdapter)
  rw [if_neg (by decide), if_neg (by decide)] at hsent
  have h := responses_follow_the_grammar (hsent.trans (if_neg (by decide +kernel))) keepNothing
    none [] (some readBody)
  refine ((h.1 rfl).1 ⟨"read", "no arguments"⟩).mpr ?_
  exact ⟨_, _, _, _, _, rfl, rfl, rfl, rfl, rfl, rfl, rfl, rfl, by decide, rfl, _, rfl⟩

/-! ## Every exit and its report -/

/-- The count is a true integer that SQLite can hold, in the usage object of a 200 body. -/
def ReportedCount (field : String) (posted : Posted) (n : Int) : Prop :=
  ∃ content body counts, posted = .response 200 content (some (.dict body)) ∧
    Value.get "usage" body = some (.dict counts) ∧ Value.get field counts = some (.int n) ∧
    0 ≤ n ∧ n < 2 ^ 63

/-- The exit is a result, an inference failure or an inference cancellation, and `usage` is
what it carries. -/
def Exit.Carries (exit : Exit) (usage : InferenceUsage) : Prop :=
  match exit.outcome with
  | .ok result => result.usage = .typed usage
  | .error e => (e.isinstance .inferenceFailure ∨ e.isinstance .inferenceCancelled) ∧
      e.usage = some (.typed usage)

/-- The report is that of what was sent, or of a request that was not. -/
def Reports (a : DeepSeekAdapter) (loads : Loads) (request : InferenceRequest) (posted : Posted)
    (usage : UsageFields) : Prop :=
  match a.prepare loads request with
  | .error _ => usage.requestStarted = false ∧ usage.status = .known ∧
      usage.inputTokens = some 0 ∧ usage.outputTokens = some 0
  | .ok (p, digest) => usage.requestStarted = true ∧ usage.model = some p.model ∧
      usage.configurationSha256 = some digest ∧
      (∀ n, usage.inputTokens = some n ↔ ReportedCount "prompt_tokens" posted n) ∧
      (∀ n, usage.outputTokens = some n ↔ ReportedCount "completion_tokens" posted n) ∧
      (usage.status = .known ↔ usage.inputTokens.isSome ∧ usage.outputTokens.isSome)

/-- The exit carries such a report. -/
def CarriesUsage (a : DeepSeekAdapter) (loads : Loads) (request : InferenceRequest)
    (posted : Posted) (exit : Exit) : Prop :=
  ∃ usage, exit.Carries usage ∧ Reports a loads request posted usage.toUsageFields

/-- An integer of the request or of the settings has more digits than can be written, and
nothing is refused before it is reached. -/
def Unwritable (a : DeepSeekAdapter) (loads : Loads) (request : InferenceRequest) : Prop :=
  (∃ tools, a.functions loads request = .ok tools) ∧
    (tooLong request.base.revision = true ∨ request.images.all ImageInput.valid = true ∧
      ∃ limit, a.outputLimit request = .ok limit ∧ tooLong limit = true)

/-- The trace of a request that was not sent. -/
def DeepSeekAdapter.unsentTrace (a : DeepSeekAdapter) : InferenceTrace :=
  ⟨a.model, none, none, none, none, "provider_error", none, none, none, [], none, none⟩

theorem get_asDict (field : String) (fields : List (String × Value String)) (n : Int) :
    Value.lookup field fields = .int n ↔ Value.get field fields = some (.int n) := by
  unfold Value.lookup
  cases Value.get field fields <;> simp

theorem tokenCount_eq {field : String} {data : List (String × Value String)} {n : Int} :
    tokenCount field data = some n ↔ ∃ counts, Value.get "usage" data = some (.dict counts) ∧
      Value.get field counts = some (.int n) ∧ 0 ≤ n ∧ n < 2 ^ 63 := by
  constructor
  · intro h
    have hbounded := tokenCount_bounded h
    unfold tokenCount at h
    cases hcounts : (Value.lookup "usage" data).asDict with
    | none => simp [hcounts] at h
    | some counts =>
      simp only [hcounts, Option.getD_some] at h
      split at h
      · next m hm =>
        split at h
        · cases h
          refine ⟨counts, lookup_dict.mp hcounts, (get_asDict field counts n).mp hm, ?_⟩
          simpa [sqliteInteger] using hbounded
        · cases h
      · cases h
  · rintro ⟨counts, hcounts, hn, hbounds⟩
    have hinteger : sqliteInteger n = true := by simpa [sqliteInteger] using hbounds
    unfold tokenCount
    rw [lookup_dict.mpr hcounts, Option.getD_some, (get_asDict field counts n).mpr hn]
    simp [hinteger]

/-- The data of a response has a count exactly where one is reported. -/
theorem tokenCount_reported (field : String) (posted : Posted) (n : Int) :
    tokenCount field posted.data = some n ↔ ReportedCount field posted n := by
  rw [tokenCount_eq]
  constructor
  · rintro ⟨counts, hcounts, hn⟩
    unfold Posted.data at hcounts
    split at hcounts
    · next status content json =>
      split at hcounts
      · next hstatus =>
        cases hjson : (json.getD .none).asDict with
        | none =>
          rw [hjson] at hcounts
          cases hcounts
        | some body =>
          rw [hjson] at hcounts
          have hv := asDict_eq hjson
          cases json with
          | none => cases hv
          | some v =>
            have hv : v = .dict body := hv
            exact ⟨content, body, counts, by rw [hstatus, hv], hcounts, hn⟩
      · cases hcounts
    · cases hcounts
  · rintro ⟨content, body, counts, rfl, hcounts, hn⟩
    exact ⟨counts, hcounts, hn⟩

theorem mapM_error {α β ε : Type} {f : α → Except ε β} {e : ε} {xs : List α}
    (h : xs.mapM f = .error e) : ∃ x ∈ xs, f x = .error e := by
  induction xs with
  | nil => cases h
  | cons x xs ih =>
    rw [List.mapM_cons] at h
    cases hx : f x with
    | error e' =>
      rw [hx] at h
      cases h
      exact ⟨x, by simp, hx⟩
    | ok y =>
      rw [hx] at h
      cases hxs : xs.mapM f with
      | error e' =>
        have hsame : (Except.error e' : Except ε (List β)) = .error e := by
          rw [hxs] at h
          cases h
          rfl
        obtain ⟨z, hz, hfz⟩ := ih (hxs.trans hsame)
        exact ⟨z, by simp [hz], hfz⟩
      | ok ys =>
        rw [hxs] at h
        cases h

theorem functionTool_error {loads : Loads} {tools : List ToolSpec} {name : String} {e : Exn}
    (h : functionTool loads tools name = .error e) : ∃ message, e = providerError message := by
  unfold functionTool at h
  split at h
  · cases h
    exact ⟨_, rfl⟩
  split at h
  · cases h
    exact ⟨_, rfl⟩
  split at h
  · cases h
    exact ⟨_, rfl⟩
  · cases h

theorem functions_error {a : DeepSeekAdapter} {loads : Loads} {request : InferenceRequest} {e : Exn}
    (h : a.functions loads request = .error e) : ∃ message, e = providerError message := by
  unfold DeepSeekAdapter.functions at h
  split at h
  · cases h
    exact ⟨_, rfl⟩
  split at h
  · cases h
    exact ⟨_, rfl⟩
  obtain ⟨name, _, hname⟩ := mapM_error h
  exact functionTool_error hname

theorem outputLimit_error {a : DeepSeekAdapter} {request : InferenceRequest} {e : Exn}
    (h : a.outputLimit request = .error e) : ∃ message, e = providerError message := by
  unfold DeepSeekAdapter.outputLimit at h
  split at h
  · cases h
  split at h
  · cases h
    exact ⟨_, rfl⟩
  · cases h

/-- A refusal is an error of the provider, unless an integer could not be written. -/
theorem prepare_error {a : DeepSeekAdapter} {loads : Loads} {request : InferenceRequest} {e : Exn}
    (h : a.prepare loads request = .error e) :
    (∃ message, e = providerError message) ∧ ¬ Unwritable a loads request ∨
      e = tooManyDigits ∧ Unwritable a loads request := by
  cases hfunctions : a.functions loads request with
  | error e' =>
    have he : e' = e := by
      simp only [DeepSeekAdapter.prepare, DeepSeekAdapter.payload, hfunctions] at h
      cases h
      rfl
    refine .inl ⟨he ▸ functions_error hfunctions, ?_⟩
    rintro ⟨⟨tools, htools⟩, _⟩
    rw [hfunctions] at htools
    cases htools
  | ok tools =>
    rw [prepare_eq hfunctions] at h
    by_cases hrevision : tooLong request.base.revision = true
    · rw [if_pos hrevision] at h
      cases h
      exact .inr ⟨rfl, ⟨tools, hfunctions⟩, .inl hrevision⟩
    rw [if_neg hrevision] at h
    by_cases himages : request.images.all ImageInput.valid = true
    swap
    · rw [if_pos himages] at h
      cases h
      refine .inl ⟨⟨_, rfl⟩, ?_⟩
      rintro ⟨_, hlong | ⟨hvalid, _⟩⟩
      · exact hrevision hlong
      · exact himages hvalid
    rw [if_neg (not_not_intro himages)] at h
    cases hlimit : a.outputLimit request with
    | error e' =>
      rw [hlimit] at h
      cases h
      refine .inl ⟨outputLimit_error hlimit, ?_⟩
      rintro ⟨_, hlong | ⟨_, limit, hok, _⟩⟩
      · exact hrevision hlong
      · rw [hlimit] at hok
        cases hok
    | ok limit =>
      rw [hlimit] at h
      by_cases hlong : tooLong limit = true
      · simp only [hlong, ↓reduceIte] at h
        cases h
        exact .inr ⟨rfl, ⟨tools, hfunctions⟩, .inr ⟨himages, limit, hlimit, hlong⟩⟩
      · simp only [hlong, Bool.false_eq_true, ↓reduceIte] at h
        cases h

/-- What is sent has no such integer. -/
theorem prepare_writable {a : DeepSeekAdapter} {loads : Loads} {request : InferenceRequest}
    {sent : Payload × String} (h : a.prepare loads request = .ok sent) :
    ¬ Unwritable a loads request := by
  rintro ⟨⟨tools, hfunctions⟩, hlong⟩
  rw [prepare_eq hfunctions] at h
  rcases hlong with hrevision | ⟨himages, limit, hlimit, hlong⟩
  · rw [if_pos hrevision] at h
    cases h
  by_cases hrevision : tooLong request.base.revision = true
  · rw [if_pos hrevision] at h
    cases h
  rw [if_neg hrevision, if_neg (not_not_intro himages), hlimit] at h
  simp only [hlong, ↓reduceIte] at h
  cases h

/-- What is not raised past the handlers carries its report. -/
theorem leave_carries (usage : InferenceUsage) :
    (∀ call, (Exit.returned call usage).Carries usage) ∧
    (∀ message, (Exit.failed message usage).Carries usage) ∧
    (∀ r, (Exit.rejected r usage).Carries usage) ∧
    (Exit.sinkFailed usage).Carries usage ∧ (Exit.cancelled usage).Carries usage := by
  refine ⟨fun call => rfl, fun message => ⟨.inl ?_, rfl⟩, fun r => ⟨.inl ?_, rfl⟩,
    ⟨.inl ?_, rfl⟩, ⟨.inr ?_, rfl⟩⟩ <;> rfl

/-- The report of a request that was sent. -/
theorem sent_usage {a : DeepSeekAdapter} {loads : Loads} {redact : Redactor}
    {request : InferenceRequest} {posted : Posted} {p : Payload} {digest : String}
    (h : a.prepare loads request = .ok (p, digest)) {usage : UsageFields}
    (hfields : usage = (a.attempt loads redact request posted).usageFields) :
    usage.requestStarted = true ∧ usage.model = some p.model ∧
      usage.configurationSha256 = some digest ∧
      (∀ n, usage.inputTokens = some n ↔ ReportedCount "prompt_tokens" posted n) ∧
      (∀ n, usage.outputTokens = some n ↔ ReportedCount "completion_tokens" posted n) ∧
      (usage.status = .known ↔ usage.inputTokens.isSome ∧ usage.outputTokens.isSome) := by
  obtain ⟨hstarted, hmodel, hdigest, hdata⟩ := attempt_sent h redact posted
  rw [hfields]
  simp only [Attempt.usageFields, hstarted, hmodel, hdigest, hdata, ↓reduceIte,
    tokenCount_reported, implies_true, true_and]
  cases tokenCount "prompt_tokens" posted.data <;>
    cases tokenCount "completion_tokens" posted.data <;> simp

theorem attempt_usage {a : DeepSeekAdapter} {loads : Loads} {redact : Redactor}
    {request : InferenceRequest} {posted : Posted} {usage : UsageFields}
    (hfields : usage = (a.attempt loads redact request posted).usageFields) :
    Reports a loads request posted usage := by
  unfold Reports
  cases hprepare : a.prepare loads request with
  | ok sent => exact sent_usage hprepare hfields
  | error e =>
    rw [hfields, attempt_refused hprepare]
    exact ⟨rfl, rfl, rfl, rfl⟩

/-- The request cannot be written by the adapter, or not by httpx. -/
def Unsendable (a : DeepSeekAdapter) (loads : Loads) (request : InferenceRequest)
    (posted : Posted) : Prop :=
  Unwritable a loads request ∨
    (∃ sent, a.prepare loads request = .ok sent) ∧ posted.isUnencodable = true

/-- What cannot be written raises a plain `ValueError`, with the trace of a request that was
not sent. -/
theorem attempt_unsendable {a : DeepSeekAdapter} {loads : Loads} {request : InferenceRequest}
    (redact : Redactor) {posted : Posted} (h : Unsendable a loads request posted) :
    (a.attempt loads redact request posted).trace = a.unsentTrace ∧
      ∃ typeName message, (a.attempt loads redact request posted).result =
        .error (.other ⟨typeName, [.valueError], message, none⟩) := by
  rcases h with hunwritable | ⟨⟨⟨p, digest⟩, hprepare⟩, hposted⟩
  · cases hprepare : a.prepare loads request with
    | ok sent => exact absurd hunwritable (prepare_writable hprepare)
    | error e =>
      rcases prepare_error hprepare with ⟨_, hwritable⟩ | ⟨rfl, _⟩
      · exact absurd hunwritable hwritable
      · rw [attempt_refused hprepare]
        exact ⟨rfl, _, _, rfl⟩
  · cases posted with
    | unencodable typeName message =>
      obtain ⟨hpayload, _⟩ := prepare_ok hprepare
      simp only [DeepSeekAdapter.attempt, hprepare, Attempt.trace,
        DeepSeekAdapter.unsentTrace, payload_model hpayload]
      exact ⟨rfl, _, _, rfl⟩
    | _ => cases hposted

/-- Every other exception is one that `generate` gives its report. -/
theorem attempt_sendable {a : DeepSeekAdapter} {loads : Loads} {request : InferenceRequest}
    (redact : Redactor) {posted : Posted} (h : ¬ Unsendable a loads request posted) {e : Exn}
    (he : (a.attempt loads redact request posted).result = .error (.other e)) :
    e.isinstance .inferenceFailure = true := by
  cases hprepare : a.prepare loads request with
  | ok sent =>
    have hposted : posted.isUnencodable = false :=
      Bool.eq_false_iff.mpr fun hposted => h (.inr ⟨⟨sent, hprepare⟩, hposted⟩)
    exact absurd he (attempt_handled hprepare redact hposted e)
  | error e' =>
    rw [attempt_refused hprepare] at he
    cases he
    rcases prepare_error hprepare with ⟨⟨message, rfl⟩, _⟩ | ⟨rfl, hunwritable⟩
    · rfl
    · exact absurd (.inl hunwritable) h

theorem escaped_without_usage {a : DeepSeekAdapter} {loads : Loads} {request : InferenceRequest}
    {posted : Posted} {e : Exn} (h : e.usage = none) :
    ¬ CarriesUsage a loads request posted (.escaped e) := by
  rintro ⟨usage, ⟨_, hsome⟩, _⟩
  rw [show (e.usage = some (.typed usage)) from hsome] at h
  cases h

/-- What cannot be written leaves `generate` as a plain `ValueError`. -/
theorem generate_unsendable {a : DeepSeekAdapter} {loads : Loads} {sink : Sink}
    {request : InferenceRequest} (redact : Redactor) {posted : Posted}
    (h : Unsendable a loads request posted) (hsink : sink.raises a.unsentTrace = false) :
    ¬ CarriesUsage a loads request posted (a.generate loads redact sink request posted) := by
  obtain ⟨usage, hcreate, _⟩ := attempt_reports a loads redact request posted
  obtain ⟨htrace, typeName, message, hresult⟩ := attempt_unsendable redact h
  have hexit := @generate_eq a loads redact sink request posted usage hcreate
  rw [htrace, hsink, hresult] at hexit
  rw [hexit]
  exact escaped_without_usage rfl

/-- An exit carries the report of the `finally`, or is an exception without any. -/
theorem generate_usage {a : DeepSeekAdapter} {loads : Loads} {redact : Redactor} {sink : Sink}
    {request : InferenceRequest} {posted : Posted} {usage : InferenceUsage}
    (h : (a.attempt loads redact request posted).usageFields.create = .ok usage) :
    (a.generate loads redact sink request posted).usage = some usage ∨
      ∃ e : Exn, a.generate loads redact sink request posted = .escaped e ∧ e.usage = none := by
  rw [generate_eq h]
  split
  · exact .inl rfl
  split
  · exact .inl rfl
  · exact .inl rfl
  · exact .inl rfl
  · exact .inl rfl
  next e he =>
  split
  · exact .inl rfl
  next hplain =>
  by_cases hsend : Unsendable a loads request posted
  · obtain ⟨_, typeName, message, hresult⟩ := attempt_unsendable redact hsend
    rw [hresult] at he
    cases he
    exact .inr ⟨_, rfl, rfl⟩
  · exact absurd (attempt_sendable redact hsend he) hplain

/-- Where httpx refuses just the payloads that it cannot encode, every exit carries the report
that the constructor accepts exactly if the adapter can write the request and httpx can
encode it, or a callback raises in the place of the error. -/
theorem exits_carry_usage_iff_writable (a : DeepSeekAdapter) (loads : Loads) (redact : Redactor)
    (sink : Sink) (request : InferenceRequest) (encodes : Payload → Prop) (posted : Posted)
    (hpost : ∀ p digest, a.prepare loads request = .ok (p, digest) →
      (posted.isUnencodable = true ↔ ¬ encodes p)) :
    CarriesUsage a loads request posted (a.generate loads redact sink request posted) ↔
      (¬ Unwritable a loads request ∧
        ∀ p digest, a.prepare loads request = .ok (p, digest) → encodes p) ∨
      sink.raises a.unsentTrace = true := by
  have hsendable : ¬ Unsendable a loads request posted ↔ ¬ Unwritable a loads request ∧
      ∀ p digest, a.prepare loads request = .ok (p, digest) → encodes p := by
    unfold Unsendable
    rw [not_or]
    refine and_congr_right fun _ => ⟨fun h p digest hprepare => ?_, ?_⟩
    · by_contra hencodes
      exact h ⟨⟨_, hprepare⟩, (hpost p digest hprepare).mpr hencodes⟩
    · rintro h ⟨⟨⟨p, digest⟩, hprepare⟩, hposted⟩
      exact (hpost p digest hprepare).mp hposted (h p digest hprepare)
  rw [← hsendable]
  obtain ⟨usage, hcreate, hfields⟩ := attempt_reports a loads redact request posted
  have hexit := @generate_eq a loads redact sink request posted usage hcreate
  have hreports : Reports a loads request posted usage.toUsageFields := attempt_usage hfields
  obtain ⟨hreturned, hfailed, hrejected, hsinkFailed, hcancelled⟩ := leave_carries usage
  refine ⟨fun h => ?_, fun h => ⟨usage, ?_, hreports⟩⟩
  · by_contra hnone
    rw [not_or, not_not, Bool.not_eq_true] at hnone
    exact generate_unsendable redact hnone.1 hnone.2 h
  · rw [hexit]
    split
    · exact hsinkFailed
    next hsink =>
    have hsent : ¬ Unsendable a loads request posted := by
      rcases h with hsent | hraises
      · exact hsent
      · intro hunsendable
        rw [(attempt_unsendable redact hunsendable).1] at hsink
        exact hsink hraises
    split
    · exact hreturned _
    · exact hfailed _
    · exact hrejected _
    · exact hcancelled
    · next e he =>
      rw [if_pos (attempt_sendable redact hsent he)]
      exact hfailed _

/-- No tool has a number in its schema that JSON does not know. -/
def Payload.isFinite (p : Payload) : Bool :=
  p.tools.all fun tool => Value.allFiniteFields tool.parameters

/-- What is made of `{"type":"object","maximum":NaN}`. -/
def nanLoads : Loads := fun _ => some (.dict [("type", .str "object"), ("maximum", .float .nan)])

/-- The error of httpx for a payload with such a number. -/
def outOfRange : Posted :=
  .unencodable "ValueError" "Out of range float values are not JSON compliant: nan"

theorem prepared_tools {a : DeepSeekAdapter} {loads : Loads} {request : InferenceRequest}
    {tools : List FunctionTool} (h : a.functions loads request = .ok tools) {p : Payload}
    {digest : String} (hp : a.prepare loads request = .ok (p, digest)) : p.tools = tools := by
  rw [prepare_eq h] at hp
  split at hp
  · cases hp
  split at hp
  · cases hp
  split at hp
  · cases hp
  split at hp
  · cases hp
  · cases hp
    rfl

theorem exits_carry_usage_iff_writable_sample :
    CarriesUsage sampleAdapter sampleLoads readRequest .timedOut
        (sampleAdapter.generate sampleLoads keepNothing none readRequest .timedOut) ∧
      ¬ CarriesUsage sampleAdapter nanLoads readRequest outOfRange
        (sampleAdapter.generate nanLoads keepNothing none readRequest outOfRange) := by
  have hread := readRequest_functions sampleAdapter
  have hnan : sampleAdapter.functions nanLoads readRequest =
      .ok [⟨"read", "Reads a file", [("type", .str "object"), ("maximum", .float .nan)]⟩] := rfl
  have hfinite : ∀ p digest, sampleAdapter.prepare sampleLoads readRequest = .ok (p, digest) →
      p.isFinite = true := by
    intro p digest hp
    rw [Payload.isFinite, prepared_tools hread hp]
    rfl
  have hinfinite : ∀ p digest, sampleAdapter.prepare nanLoads readRequest = .ok (p, digest) →
      p.isFinite = false := by
    intro p digest hp
    rw [Payload.isFinite, prepared_tools hnan hp]
    rfl
  constructor
  · refine (exits_carry_usage_iff_writable sampleAdapter sampleLoads keepNothing none readRequest
      (fun p => p.isFinite = true) .timedOut fun p digest hp => ?_).mpr (.inl ⟨?_, hfinite⟩)
    · rw [hfinite p digest hp]
      decide
    · rintro ⟨_, hlong | ⟨_, limit, hlimit, hlong⟩⟩
      · exact absurd hlong (by decide +kernel)
      · cases hlimit
        exact absurd hlong (by decide +kernel)
  · rw [exits_carry_usage_iff_writable sampleAdapter nanLoads keepNothing none readRequest
      (fun p => p.isFinite = true) outOfRange fun p digest hp => ?_]
    · have hsent := prepare_eq hnan
      rw [if_neg (by decide), if_neg (by decide)] at hsent
      rintro (⟨_, hencodes⟩ | hraises)
      · have hp := hsent.trans (if_neg (by decide +kernel))
        have hboth := hencodes _ _ hp
        rw [hinfinite _ _ hp] at hboth
        cases hboth
      · cases hraises
    · rw [hinfinite p digest hp]
      decide

/-- An adapter whose limit has 4301 digits. -/
def longAdapter : DeepSeekAdapter where
  apiKey := "sk-1"
  maxTokens := ((10 ^ maxStrDigits : Nat) : Int)
  systemInstruction := "Choose one tool call."
  accepted := by decide +kernel

theorem longAdapter_unwritable : Unwritable longAdapter sampleLoads readRequest := by
  refine ⟨⟨_, readRequest_functions longAdapter⟩, .inr ⟨rfl, _, rfl, ?_⟩⟩
  rw [tooLong_iff]
  exact le_refl _

theorem a_long_limit_escapes_without_usage : ¬ CarriesUsage longAdapter sampleLoads readRequest
    .timedOut (longAdapter.generate sampleLoads keepNothing none readRequest .timedOut) :=
  generate_unsendable keepNothing (.inl longAdapter_unwritable) rfl

end FlynnAgents
