-- The columns that hold JSON (sqlite_run.py, accounting.py, output_budget.py): the text
-- that the store writes of each record, and what is read of the texts alone.
import FlynnAgents.Codec

namespace FlynnAgents

open Text (ofString)
open Codec (required defaulted)

/-! ## The records -/

theorem str_present (s : String) : (Codec.str.encode s).sorted ≠ .none := by
  intro h
  cases h

theorem int_present (n : Int) : (Codec.int.encode n).sorted ≠ .none := by
  intro h
  cases h

/-- A text or `None` -/
def Codec.optionalStr : Codec (Option String) := Codec.str.option str_present

/-- A count or `None` -/
def Codec.optionalInt : Codec (Option Int) := Codec.int.option int_present

def State.codec : Codec State :=
  .record ["revision", "value"] (by decide)
    (fun s => [("revision", Codec.int.encode s.revision), ("value", Codec.str.encode s.value)])
    (fun _ => rfl) (fun s => by simp)
    (fun items => do
      let revision ← required items "revision" .int
      let value ← required items "value" .str
      return ⟨revision, value⟩)
    (fun s => by simp [required, Value.get])

def ToolCall.codec : Codec ToolCall :=
  .record ["name", "arguments"] (by decide)
    (fun call => [("name", Codec.str.encode call.name),
      ("arguments", Codec.str.encode call.arguments)])
    (fun _ => rfl) (fun call => by simp)
    (fun items => do
      let name ← required items "name" .str
      let arguments ← required items "arguments" .str
      return ⟨name, arguments⟩)
    (fun call => by simp [required, Value.get])

def ToolSpec.codec : Codec ToolSpec :=
  .record ["name", "description", "parameters_json"] (by decide)
    (fun spec => [("name", Codec.str.encode spec.name),
      ("description", Codec.str.encode spec.description),
      ("parameters_json", Codec.str.encode spec.parametersJson)])
    (fun _ => rfl) (fun spec => by simp)
    (fun items => do
      let name ← required items "name" .str
      let description ← required items "description" .str
      let parametersJson ← required items "parameters_json" .str
      return ⟨name, description, parametersJson⟩)
    (fun spec => by simp [required, Value.get])

def ImageInput.codec : Codec ImageInput :=
  .record ["url", "detail"] (by decide)
    (fun image => [("url", Codec.str.encode image.url), ("detail", Codec.str.encode image.detail)])
    (fun _ => rfl) (fun image => by simp)
    (fun items => do
      let url ← required items "url" .str
      let detail ← defaulted items "detail" .str "original"
      return ⟨url, detail⟩)
    (fun image => by simp [required, defaulted, Value.get])

/-- `asdict(request)` -/
def InferenceRequest.items (request : InferenceRequest) : List (String × Value Text) :=
  [("objective", Codec.str.encode request.objective),
    ("base", State.codec.encode request.base),
    ("allowed_tools", Codec.str.list.encode request.allowedTools),
    ("observation", Codec.optionalStr.encode request.observation),
    ("tools", ToolSpec.codec.list.encode request.tools),
    ("images", ImageInput.codec.list.encode request.images),
    ("max_output_tokens", Codec.optionalInt.encode request.maxOutputTokens)]

def InferenceRequest.codec : Codec InferenceRequest :=
  .record ["objective", "base", "allowed_tools", "observation", "tools", "images",
      "max_output_tokens"] (by decide) items (fun _ => rfl) (fun request => by simp [items])
    (fun items => do
      let objective ← required items "objective" .str
      let base ← required items "base" State.codec
      let allowedTools ← required items "allowed_tools" Codec.str.list
      let observation ← defaulted items "observation" .optionalStr none
      let tools ← defaulted items "tools" ToolSpec.codec.list []
      let images ← defaulted items "images" ImageInput.codec.list []
      let maxOutputTokens ← defaulted items "max_output_tokens" .optionalInt none
      return ⟨objective, base, allowedTools, observation, tools, images, maxOutputTokens⟩)
    (fun request => by simp [items, required, defaulted, Value.get])

def DecisionFields.codec : Codec DecisionFields :=
  .record ["allowed", "reason"] (by decide)
    (fun decision => [("allowed", Codec.bool.encode decision.allowed),
      ("reason", Codec.str.encode decision.reason)])
    (fun _ => rfl) (fun decision => by simp)
    (fun items => do
      let allowed ← required items "allowed" .bool
      let reason ← required items "reason" .str
      return ⟨allowed, reason⟩)
    (fun decision => by simp [required, Value.get])

def InvocationKind.text : InvocationKind → String
  | .model => "model"
  | .scripted => "scripted"

def InvocationKind.ofText (s : String) : Option InvocationKind :=
  if s = "model" then some .model else if s = "scripted" then some .scripted else none

def UsageStatus.text : UsageStatus → String
  | .known => "known"
  | .unknown => "unknown"
  | .notApplicable => "not_applicable"

/-- `UsageStatus(s)` -/
def UsageStatus.ofText (s : String) : Option UsageStatus :=
  if s = "known" then some .known else if s = "unknown" then some .unknown
  else if s = "not_applicable" then some .notApplicable else none

def Verdict.text : Verdict → String
  | .satisfied => "satisfied"
  | .failed => "failed"
  | .unavailable => "unavailable"

/-- `Verdict(s)` -/
def Verdict.ofText (s : String) : Option Verdict :=
  if s = "satisfied" then some .satisfied else if s = "failed" then some .failed
  else if s = "unavailable" then some .unavailable else none

def InvocationKind.codec : Codec InvocationKind :=
  Codec.str.wrap text ofText fun kind => by cases kind <;> decide

def UsageStatus.codec : Codec UsageStatus :=
  Codec.str.wrap text ofText fun status => by cases status <;> decide

def Verdict.codec : Codec Verdict :=
  Codec.str.wrap text ofText fun verdict => by cases verdict <;> decide

/-- `InferenceUsage(**(raw | {"status": UsageStatus(raw["status"])}))`, before its check -/
def UsageFields.codec : Codec UsageFields :=
  .record ["kind", "status", "request_started", "provider", "model", "response_id",
      "finish_reason", "input_tokens", "output_tokens", "response_model",
      "configuration_sha256"] (by decide)
    (fun usage => [("kind", InvocationKind.codec.encode usage.kind),
      ("status", UsageStatus.codec.encode usage.status),
      ("request_started", Codec.bool.encode usage.requestStarted),
      ("provider", Codec.optionalStr.encode usage.provider),
      ("model", Codec.optionalStr.encode usage.model),
      ("response_id", Codec.optionalStr.encode usage.responseId),
      ("finish_reason", Codec.optionalStr.encode usage.finishReason),
      ("input_tokens", Codec.optionalInt.encode usage.inputTokens),
      ("output_tokens", Codec.optionalInt.encode usage.outputTokens),
      ("response_model", Codec.optionalStr.encode usage.responseModel),
      ("configuration_sha256", Codec.optionalStr.encode usage.configurationSha256)])
    (fun _ => rfl) (fun usage => by simp)
    (fun items => do
      let kind ← required items "kind" InvocationKind.codec
      let status ← required items "status" UsageStatus.codec
      let requestStarted ← defaulted items "request_started" .bool false
      let provider ← defaulted items "provider" .optionalStr none
      let model ← defaulted items "model" .optionalStr none
      let responseId ← defaulted items "response_id" .optionalStr none
      let finishReason ← defaulted items "finish_reason" .optionalStr none
      let inputTokens ← defaulted items "input_tokens" .optionalInt none
      let outputTokens ← defaulted items "output_tokens" .optionalInt none
      let responseModel ← defaulted items "response_model" .optionalStr none
      let configurationSha256 ← defaulted items "configuration_sha256" .optionalStr none
      return ⟨kind, status, requestStarted, provider, model, responseId, finishReason,
        inputTokens, outputTokens, responseModel, configurationSha256⟩)
    (fun usage => by simp [required, defaulted, Value.get])

/-! ## Limits -/

/-- An `int`, or a finite `float`, which stands as the decimal that its `repr` writes. -/
inductive Number where
  | int (n : Int)
  | float (number : JsonText.Decimal) (rounded : floatOf number = .finite number)

/-- The exact value. -/
def Number.value : Number → ℚ
  | .int n => n
  | .float number _ => (if number.negative then -1 else 1) *
      (Binary64.magnitude number.digits number.exponent : ℚ) / 2 ^ Binary64.bits

def Number.codec : Codec Number where
  encode
    | .int n => .int n
    | .float number _ => .float (.finite number)
  decode
    | .int n => some (.int n)
    | .float (.finite number) =>
      if h : floatOf number = .finite number then some (.float number h) else none
    | _ => none
  unique x := by cases x <;> rfl
  readable
    | .int _ => trivial
    | .float _ h => h
  decoded
    | .int _ => rfl
    | .float _ h => dif_pos h

/-- The limits with the wall time as the application wrote it. -/
structure LimitRecord where
  inferenceCalls : Int
  toolCalls : Int
  externalActions : Int
  wallTimeSeconds : Option Number := none
  outputTokens : Option Int := none

def LimitRecord.fields (l : LimitRecord) : LimitFields where
  inferenceCalls := l.inferenceCalls
  toolCalls := l.toolCalls
  externalActions := l.externalActions
  wallTimeSeconds := l.wallTimeSeconds.map Number.value
  outputTokens := l.outputTokens

theorem number_present (x : Number) : (Number.codec.encode x).sorted ≠ .none := by
  intro h
  cases x <;> cases h

/-- `asdict(limits)` -/
def LimitRecord.items (l : LimitRecord) : List (String × Value Text) :=
  [("inference_calls", Codec.int.encode l.inferenceCalls),
    ("tool_calls", Codec.int.encode l.toolCalls),
    ("external_actions", Codec.int.encode l.externalActions),
    ("wall_time_seconds", (Number.codec.option number_present).encode l.wallTimeSeconds),
    ("output_tokens", Codec.optionalInt.encode l.outputTokens)]

/-- `RunLimits(**limits)`, before its check -/
def LimitRecord.codec : Codec LimitRecord :=
  .record ["inference_calls", "tool_calls", "external_actions", "wall_time_seconds",
      "output_tokens"] (by decide) items (fun _ => rfl) (fun l => by simp [items])
    (fun items => do
      let inferenceCalls ← required items "inference_calls" .int
      let toolCalls ← required items "tool_calls" .int
      let externalActions ← required items "external_actions" .int
      let wallTimeSeconds ←
        defaulted items "wall_time_seconds" (Number.codec.option number_present) none
      let outputTokens ← defaulted items "output_tokens" .optionalInt none
      return ⟨inferenceCalls, toolCalls, externalActions, wallTimeSeconds, outputTokens⟩)
    (fun l => by simp [items, required, defaulted, Value.get])

/-! ## Evaluations -/

def Candidate.codec : Codec Candidate :=
  .record ["id", "base", "call", "output"] (by decide)
    (fun candidate => [("id", Codec.str.encode candidate.id),
      ("base", State.codec.encode candidate.base), ("call", ToolCall.codec.encode candidate.call),
      ("output", Codec.optionalStr.encode candidate.output)])
    (fun _ => rfl) (fun candidate => by simp)
    (fun items => do
      let id ← required items "id" .str
      let base ← required items "base" State.codec
      let call ← required items "call" ToolCall.codec
      let output ← required items "output" .optionalStr
      return ⟨id, base, call, output⟩)
    (fun candidate => by simp [required, Value.get])

/-- An evaluation whose fields have the types that `check_evaluation` asks for. -/
structure TypedEvaluation where
  candidate : Candidate
  evaluator : String
  scope : String
  verdict : Verdict
  reason : String
  stateUpdate : Option String
  deriving DecidableEq

def TypedEvaluation.evaluation (e : TypedEvaluation) : Evaluation where
  candidate := e.candidate
  evaluator := .typed e.evaluator
  scope := .typed e.scope
  verdict := .typed e.verdict
  reason := .typed e.reason
  stateUpdate := e.stateUpdate.map .typed

def TypedEvaluation.codec : Codec TypedEvaluation :=
  .record ["candidate", "evaluator", "scope", "verdict", "reason", "state_update"] (by decide)
    (fun e => [("candidate", Candidate.codec.encode e.candidate),
      ("evaluator", Codec.str.encode e.evaluator), ("scope", Codec.str.encode e.scope),
      ("verdict", Verdict.codec.encode e.verdict), ("reason", Codec.str.encode e.reason),
      ("state_update", Codec.optionalStr.encode e.stateUpdate)])
    (fun _ => rfl) (fun e => by simp)
    (fun items => do
      let candidate ← required items "candidate" Candidate.codec
      let evaluator ← required items "evaluator" .str
      let scope ← required items "scope" .str
      let verdict ← required items "verdict" Verdict.codec
      let reason ← required items "reason" .str
      let stateUpdate ← defaulted items "state_update" .optionalStr none
      return ⟨candidate, evaluator, scope, verdict, reason, stateUpdate⟩)
    (fun e => by simp [required, defaulted, Value.get])

/-- An evaluation that passes its check has these types. -/
theorem typed_of_checked {candidate : Candidate} {e : Evaluation}
    (h : checkEvaluation candidate e = .ok ()) : ∃ typed : TypedEvaluation,
      typed.evaluation = e ∧ e.candidate = candidate := by
  obtain ⟨bound, evaluator, scope, verdict, reason, update⟩ := e
  unfold checkEvaluation at h
  split at h
  · cases h
  split at h
  · cases h
  split at h
  · cases h
  split at h
  · cases h
  rename_i hbound hverdict hupdate htexts
  simp only [List.all_cons, List.all_nil, Bool.and_true, not_not, Bool.and_eq_true] at htexts
  cases evaluator <;> cases scope <;> cases reason <;> cases verdict <;>
    simp_all [Dyn.isText]
  rename_i evaluator scope reason verdict
  cases update with
  | none => exact ⟨⟨candidate, evaluator, scope, verdict, reason, none⟩, rfl⟩
  | some value =>
    cases value with
    | typed value => exact ⟨⟨candidate, evaluator, scope, verdict, reason, some value⟩, rfl⟩
    | other => exact absurd rfl hupdate

end FlynnAgents
