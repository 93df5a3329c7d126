-- The DeepSeek adapter (deepseek.py): one request, a response that is checked, and a
-- usage report in every exit.
import FlynnAgents.Redaction

namespace FlynnAgents

open JsonText (Tree)
open Text (ofString)

/-! ## The adapter -/

def visionModel : String := "deepseek-v4-flash-vision-exp"

inductive ReasoningEffort where
  | low
  | high
  | max
  deriving DecidableEq, Repr

def ReasoningEffort.text : ReasoningEffort → String
  | .low => "low"
  | .high => "high"
  | .max => "max"

structure AdapterFields where
  apiKey : String
  model : String := visionModel
  maxTokens : Int := 512
  /-- The seconds, or nothing if they are not finite. -/
  timeoutSeconds : Option Rat := some 45
  captureRejectedArguments : Bool := false
  captureErrorBody : Bool := false
  reasoningEffort : Option ReasoningEffort := none
  systemInstruction : String
  deriving DecidableEq, Repr

/-- `DeepSeekAdapter.__init__`: the text of the refusal, if any. -/
def AdapterFields.init (f : AdapterFields) : Option String :=
  if blank f.apiKey ∨ f.apiKey.toList.any (fun c => c.toNat = 10 ∨ c.toNat = 13) then
    some "A nonempty DeepSeek API key is required"
  else if blank f.model then some "A model ID is required"
  else if f.maxTokens ≤ 0 then some "max_tokens must be a positive integer"
  else if ¬ f.timeoutSeconds.any (fun seconds => 0 < seconds) then
    some "timeout_seconds must be finite and positive"
  else if blank f.systemInstruction then some "system_instruction must be nonempty text"
  else none

/-- An adapter that its constructor accepted. -/
structure DeepSeekAdapter extends AdapterFields where
  accepted : toAdapterFields.init = none

/-- `api_key.strip()`, as it is read back from the header. -/
def DeepSeekAdapter.secret (a : DeepSeekAdapter) : Text :=
  (((Text.ofString a.apiKey).dropWhile isSpaceCode).reverse.dropWhile isSpaceCode).reverse

def providerError (message : String) : Exn :=
  ⟨"ProviderError", [.inferenceFailure], message, none⟩

/-! ## The payload -/

/-- `_output_limit` -/
def DeepSeekAdapter.outputLimit (a : DeepSeekAdapter) (request : InferenceRequest) :
    Except Exn Int :=
  match request.maxOutputTokens with
  | none => .ok a.maxTokens
  | some limit =>
    if limit ≤ 0 then
      .error (providerError "A model request requires a positive output-token ceiling")
    else .ok (min a.maxTokens limit)

/-- `OutputReservation(...)` -/
def ReservationFields.create (f : ReservationFields) : Except Exn OutputReservation :=
  match h : f.postInit with
  | none => .ok ⟨f, h⟩
  | some message => .error (contractError message)

/-- `plan_output` -/
def DeepSeekAdapter.planOutput (a : DeepSeekAdapter) (request : InferenceRequest)
    (available : Int) : Except Exn (Dyn OutputReservation) :=
  if available ≤ 0 then
    .error (budgetExhausted "Output-token budget exhausted; no model request authorized")
  else do
    let limit ← a.outputLimit request
    let reservation ← ReservationFields.create ⟨.model, min available limit⟩
    return .typed reservation

/-- A tool as the provider is told of it. -/
structure FunctionTool where
  name : String
  description : String
  parameters : List (String × Value String)

/-- The body of the request. The text of the user's message stands as what it is made of. -/
structure Payload where
  model : String
  systemInstruction : String
  objective : String
  base : State
  observation : Option String
  images : List ImageInput
  tools : List FunctionTool
  maxTokens : Int
  reasoningEffort : Option ReasoningEffort

/-- `json.loads`, a parameter: a value, or nothing where it raises `ValueError`. -/
abbrev Loads := String → Option (Value String)

def Value.asDict {S : Type} : Value S → Option (List (S × Value S))
  | .dict fields => some fields
  | _ => Option.none

def Value.asList {S : Type} : Value S → Option (List (Value S))
  | .list items => some items
  | _ => Option.none

def Value.asStr {S : Type} : Value S → Option S
  | .str s => some s
  | _ => Option.none

@[simp]
theorem asDict_none : (Value.none (S := String)).asDict = none := rfl

@[simp]
theorem asList_none : (Value.none (S := String)).asList = none := rfl

@[simp]
theorem asStr_none : (Value.none (S := String)).asStr = none := rfl

/-- `d.get(key)` -/
def Value.lookup (key : String) (fields : List (String × Value String)) : Value String :=
  (Value.get key fields).getD .none

@[simp]
theorem lookup_nil (key : String) : Value.lookup key [] = .none := rfl

/-- One function of the payload. -/
def functionTool (loads : Loads) (tools : List ToolSpec) (name : String) :
    Except Exn FunctionTool :=
  match tools.find? (fun spec => spec.name = name) with
  | none => .error (providerError "Every granted tool requires a specification")
  | some spec =>
    match (loads spec.parametersJson).bind Value.asDict with
    | none => .error (providerError "Tool parameters must be a JSON object schema")
    | some schema =>
      if (Value.lookup "type" schema).asStr ≠ some "object" then
        .error (providerError "Tool parameters must be a JSON object schema")
      else .ok ⟨name, spec.description, schema⟩

/-- The tools of the payload, checked before anything is written. -/
def DeepSeekAdapter.functions (a : DeepSeekAdapter) (loads : Loads) (request : InferenceRequest) :
    Except Exn (List FunctionTool) :=
  if request.images ≠ [] ∧ a.model ≠ visionModel then
    .error (providerError "Image input requires the DeepSeek vision model")
  else if request.allowedTools = [] ∨ ¬ (request.tools.map ToolSpec.name).Nodup then
    .error (providerError "Supply unique tool specifications and at least one granted tool")
  else request.allowedTools.eraseDups.mapM (functionTool loads request.tools)

def ImageInput.valid (image : ImageInput) : Bool :=
  ["low", "high", "original", "auto"].contains image.detail &&
    ["https://", "http://", "data:image/"].any fun scheme => image.url.startsWith scheme

/-- `_payload` -/
def DeepSeekAdapter.payload (a : DeepSeekAdapter) (loads : Loads) (request : InferenceRequest) :
    Except Exn Payload := do
  let tools ← a.functions loads request
  -- the user's message is written here, with the revision
  if tooLong request.base.revision then .error tooManyDigits
  else if ¬ request.images.all ImageInput.valid then
    .error (providerError "Invalid explicit image URL or detail")
  else do
    let limit ← a.outputLimit request
    return ⟨a.model, a.systemInstruction, request.objective, request.base, request.observation,
      request.images, tools, limit, a.reasoningEffort⟩

/-- The settings of the configuration, in the order of their keys. -/
def Payload.settings (p : Payload) : Tree :=
  .obj ((ofString "max_tokens", .int p.maxTokens) ::
    match p.reasoningEffort with
    | none => [(ofString "stream", .bool false),
        (ofString "system_instruction", .str (ofString p.systemInstruction)),
        (ofString "thinking", .obj [(ofString "type", .str (ofString "disabled"))]),
        (ofString "tool_choice", .str (ofString "required"))]
    | some effort => [(ofString "reasoning_effort", .str (ofString effort.text)),
        (ofString "stream", .bool false),
        (ofString "system_instruction", .str (ofString p.systemInstruction)),
        (ofString "thinking", .obj [(ofString "type", .str (ofString "enabled"))])])

/-- `InferenceConfiguration.sha256` of these settings -/
def configurationSha256 (model : String) (settings : Tree) : String :=
  Sha256.hexdigest ((JsonText.render JsonText.compact (.obj [
    (ofString "model", .str (ofString model)),
    (ofString "protocol", .str (ofString "flynn.deepseek-chat/v1")),
    (ofString "provider", .str (ofString "deepseek")),
    (ofString "settings_json", .str (JsonText.render JsonText.compact settings))])).map Fin.val)

/-- `_configuration(payload).sha256` -/
def Payload.configuration (p : Payload) : Except Exn String :=
  if tooLong p.maxTokens then .error tooManyDigits
  else if blank p.model then
    .error (contractError "Inference configuration requires provider, model and protocol")
  else .ok (configurationSha256 p.model p.settings)

/-- What is done before the request: the payload and its digest. -/
def DeepSeekAdapter.prepare (a : DeepSeekAdapter) (loads : Loads) (request : InferenceRequest) :
    Except Exn (Payload × String) := do
  let p ← a.payload loads request
  let digest ← p.configuration
  return (p, digest)

/-! ## The response -/

/-- Why a response is rejected, and how many choices and calls it had. -/
structure Rejection where
  reason : String
  choiceCount : Option Nat
  toolCallCount : Option Nat
  deriving DecidableEq, Repr

/-- What the validation of a response has found. -/
structure Validated where
  data : List (String × Value String)
  finish : Value String
  calls : Value String
  name : Value String
  arguments : Value String
  rejection : Option String
  choiceCount : Option Nat
  toolCallCount : Option Nat

/-- The validation of a 200 response in `_generate`, check after check. -/
def validateResponse (loads : Loads) (allowed : List String) (json : Option (Value String)) :
    Validated :=
  let body := json.getD .none
  let rejection := if json.isNone then some "invalid_json" else none
  let rejection := if rejection = none ∧ body.asDict.isNone then some "response_not_object"
    else rejection
  let data := body.asDict.getD []
  let choices := Value.lookup "choices" data
  let choiceCount := if rejection = none then choices.asList.map List.length else none
  let rejection := if rejection = none then match choiceCount with
      | none => some "choices_not_list"
      | some n => if n ≠ 1 then some "expected_one_choice" else none
    else rejection
  let choice := if rejection = none then (choices.asList.bind List.head?).getD .none else .none
  let rejection := if rejection = none ∧ choice.asDict.isNone then some "choice_not_object"
    else rejection
  let finish := Value.lookup "finish_reason" (choice.asDict.getD [])
  let rejection := if choice.asDict.isSome ∧ finish.asStr ≠ some "tool_calls" then
      some "finish_reason_not_tool_calls"
    else rejection
  let message := Value.lookup "message" (choice.asDict.getD [])
  let rejection := if rejection = none ∧ message.asDict.isNone then some "message_not_object"
    else rejection
  let calls := Value.lookup "tool_calls" (message.asDict.getD [])
  let toolCallCount := calls.asList.map List.length
  let rejection := if rejection = none then match toolCallCount with
      | none => some "tool_calls_not_list"
      | some n => if n ≠ 1 then some "expected_one_tool_call" else none
    else rejection
  let item := if rejection = none then (calls.asList.bind List.head?).getD .none else .none
  let rejection := if rejection = none ∧ (item.asDict.isNone ∨
      (Value.lookup "type" (item.asDict.getD [])).asStr ≠ some "function") then
      some "invalid_tool_type"
    else rejection
  let function := Value.lookup "function" (item.asDict.getD [])
  let rejection := if rejection = none ∧ function.asDict.isNone then some "function_not_object"
    else rejection
  let name := Value.lookup "name" (function.asDict.getD [])
  let arguments := Value.lookup "arguments" (function.asDict.getD [])
  let rejection := if rejection = none ∧ ¬ name.asStr.any (fun n => n ∈ allowed) then
      some "tool_not_permitted"
    else rejection
  let rejection := if rejection = none then match arguments.asStr with
      | none => some "arguments_not_string"
      | some text => match loads text with
        | none => some "arguments_invalid_json"
        | some decoded => if decoded.asDict.isNone then some "arguments_not_object" else none
    else rejection
  ⟨data, finish, calls, name, arguments, rejection, choiceCount, toolCallCount⟩

/-- The calls of a rejected response that have a name and arguments. -/
def rejectedCalls (calls : Value String) : List ToolCall :=
  (calls.asList.getD []).filterMap fun raw => do
    let call ← raw.asDict
    let fn ← (Value.lookup "function" call).asDict
    let name ← (Value.lookup "name" fn).asStr
    let arguments ← (Value.lookup "arguments" fn).asStr
    return ⟨name, arguments⟩

/-! ## One request -/

/-- What the POST gives: a response with its status, its bytes and what they decode to, a
timeout of httpx or of the adapter, an error of the request, a cancellation, or the
`ValueError` of a payload that httpx cannot encode. -/
inductive Posted where
  | response (status : Int) (content : List UInt8) (json : Option (Value String))
  | timedOut
  | requestError
  | cancelled
  | unencodable (typeName message : String)

def Posted.isUnencodable : Posted → Bool
  | .unencodable _ _ => true
  | _ => false

/-- What leaves the `try` of `_generate` as an exception. -/
inductive Thrown where
  | provider (message : String)
  | rejected (r : Rejection)
  | cancelled
  | other (e : Exn)

/-- The locals of `_generate` when its `finally` begins, and what it was about to give. -/
structure Attempt where
  requestStarted : Bool := false
  data : List (String × Value String) := []
  finish : Value String := .none
  rejection : Option Rejection := none
  rejectedArguments : Option String := none
  rejectedCalls : List ToolCall := []
  httpStatus : Option Int := none
  errorBody : Option RedactedErrorBody := none
  configurationSha256 : Option String := none
  requestedModel : String
  outcome : String := "provider_error"
  result : Except Thrown ToolCall

/-- The redaction of an error body: what is a word character and how bytes are decoded. -/
abbrev Redactor := List UInt8 → Text → RedactedErrorBody

/-- `try` in `_generate`, given what the POST gives. -/
def DeepSeekAdapter.attempt (a : DeepSeekAdapter) (loads : Loads) (redact : Redactor)
    (request : InferenceRequest) (posted : Posted) : Attempt :=
  match a.prepare loads request with
  | .error e => { requestedModel := a.model, result := .error (.other e) }
  | .ok (payload, digest) =>
    let sent : Attempt :=
      { requestStarted := true, configurationSha256 := some digest,
        requestedModel := payload.model, result := .error .cancelled }
    match posted with
    | .timedOut =>
      { sent with outcome := "timeout", result := .error (.provider
          "DeepSeek request timed out; not retried, usage may be unknown") }
    | .requestError =>
      { sent with result := .error (.provider
          "DeepSeek transport failed; not retried, usage may be unknown") }
    | .cancelled => { sent with outcome := "cancelled" }
    | .unencodable typeName message =>
      -- no handler takes it
      { sent with result := .error (.other ⟨typeName, [.valueError], message, none⟩) }
    | .response status content json =>
      if status ≠ 200 then
        { sent with
          httpStatus := some status
          errorBody := if a.captureErrorBody then some (redact content a.secret) else none
          result := .error (.provider
            ("DeepSeek HTTP " ++ toString status ++ "; request was not retried")) }
      else
        let v := validateResponse loads request.allowedTools json
        let read := { sent with httpStatus := some status, data := v.data, finish := v.finish }
        match v.rejection with
        | some reason =>
          let r : Rejection := ⟨reason, v.choiceCount, v.toolCallCount⟩
          { read with
            rejection := some r
            rejectedArguments := if a.captureRejectedArguments then v.arguments.asStr else none
            rejectedCalls := if a.captureRejectedArguments then rejectedCalls v.calls else []
            outcome := "invalid_response"
            result := .error (.rejected r) }
        | none =>
          { read with
            outcome := "returned"
            result := .ok ⟨v.name.asStr.getD "", v.arguments.asStr.getD ""⟩ }

/-- A token count of a usage object: a true integer that SQLite can hold. -/
def tokenCount (field : String) (data : List (String × Value String)) : Option Int :=
  match Value.lookup field ((Value.lookup "usage" data).asDict.getD []) with
  | .int n => if sqliteInteger n then some n else none
  | _ => none

/-- A string that is not blank. -/
def namedStr (v : Value String) : Option String := v.asStr.filter fun s => !blank s

/-- The usage report of the `finally`. -/
def Attempt.usageFields (t : Attempt) : UsageFields :=
  let prompt := if t.requestStarted then tokenCount "prompt_tokens" t.data else some 0
  let completion := if t.requestStarted then tokenCount "completion_tokens" t.data else some 0
  { kind := .model
    status := if prompt.isSome && completion.isSome then .known else .unknown
    requestStarted := t.requestStarted
    provider := some "deepseek"
    model := some t.requestedModel
    configurationSha256 := t.configurationSha256
    responseModel := namedStr (Value.lookup "model" t.data)
    responseId := namedStr (Value.lookup "id" t.data)
    finishReason := namedStr t.finish
    inputTokens := prompt
    outputTokens := completion }

/-- `InferenceUsage(...)` -/
def UsageFields.create (f : UsageFields) : Except Exn InferenceUsage :=
  match h : f.postInit with
  | none => .ok ⟨f, h⟩
  | some message => .error (contractError message)

/-- A count of the trace, without the bound of SQLite. -/
def traceCount (field : String) (data : List (String × Value String)) : Option Int :=
  match Value.lookup field ((Value.lookup "usage" data).asDict.getD []) with
  | .int n => if 0 ≤ n then some n else none
  | _ => none

/-- A trace, without the elapsed time. -/
structure InferenceTrace where
  model : String
  responseId : Option String
  finishReason : Option String
  promptTokens : Option Int
  completionTokens : Option Int
  outcome : String
  call : Option ToolCall
  rejection : Option Rejection
  rejectedArguments : Option String
  rejectedCalls : List ToolCall
  httpStatus : Option Int
  errorBody : Option RedactedErrorBody

def Attempt.trace (t : Attempt) : InferenceTrace where
  model := t.requestedModel
  responseId := (Value.lookup "id" t.data).asStr
  finishReason := t.finish.asStr
  promptTokens := traceCount "prompt_tokens" t.data
  completionTokens := traceCount "completion_tokens" t.data
  outcome := t.outcome
  call := t.result.toOption
  rejection := t.rejection
  rejectedArguments := t.rejectedArguments
  rejectedCalls := t.rejectedCalls
  httpStatus := t.httpStatus
  errorBody := t.errorBody

/-- The trace callback: absent, or one that returns or raises an `Exception`. -/
abbrev Sink := Option (InferenceTrace → Option Exn)

def Sink.raises (sink : Sink) (trace : InferenceTrace) : Bool :=
  sink.any fun f => (f trace).isSome

/-- How `generate` is left. -/
inductive Exit where
  | returned (call : ToolCall) (usage : InferenceUsage)
  | failed (message : String) (usage : InferenceUsage)
  | rejected (r : Rejection) (usage : InferenceUsage)
  | sinkFailed (usage : InferenceUsage)
  | cancelled (usage : InferenceUsage)
  | escaped (e : Exn)

/-- `finally` of `_generate`, and the handlers of `generate` around it. -/
def Attempt.leave (t : Attempt) (sink : Sink) : Exit :=
  match t.usageFields.create with
  | .error e => .escaped e
  | .ok usage =>
    if sink.raises t.trace then .sinkFailed usage
    else match t.result with
      | .ok call => .returned call usage
      | .error (.provider message) => .failed message usage
      | .error (.rejected r) => .rejected r usage
      | .error .cancelled => .cancelled usage
      | .error (.other e) =>
        if e.isinstance .inferenceFailure then .failed e.message usage else .escaped e

/-- `generate` -/
def DeepSeekAdapter.generate (a : DeepSeekAdapter) (loads : Loads) (redact : Redactor) (sink : Sink)
    (request : InferenceRequest) (posted : Posted) : Exit :=
  (a.attempt loads redact request posted).leave sink

/-- The usage that an exit carries. -/
def Exit.usage : Exit → Option InferenceUsage
  | .returned _ usage => some usage
  | .failed _ usage => some usage
  | .rejected _ usage => some usage
  | .sinkFailed usage => some usage
  | .cancelled usage => some usage
  | .escaped _ => none

/-- The exit as the runtime sees it. -/
def Exit.outcome : Exit → Except Exn InferenceResult
  | .returned call usage => .ok ⟨.typed call, .typed usage⟩
  | .failed message usage => .error { providerError message with usage := some (.typed usage) }
  | .rejected r usage => .error
      ⟨"ProviderResponseRejected", [.inferenceRejected],
        "DeepSeek did not return one complete, permitted JSON tool call: " ++ r.reason,
        some (.typed usage)⟩
  | .sinkFailed usage => .error
      ⟨"InferenceFailure", [.inferenceFailure], "Inference diagnostic callback failed",
        some (.typed usage)⟩
  | .cancelled usage => .error
      ⟨"InferenceCancelled", [.inferenceCancelled], "Inference cancelled", some (.typed usage)⟩
  | .escaped e => .error e

end FlynnAgents
