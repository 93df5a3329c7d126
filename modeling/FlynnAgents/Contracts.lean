-- The values of contracts.py: the exceptions, the records that cross the
-- store, and the checks that their constructors make.
import FlynnAgents.Lib.Machine

namespace FlynnAgents

/-! ## Python values -/

/-- A value where the source checks the type at run time: one of the type
that it asks for, or any other value. -/
inductive Dyn (α : Type) where
  | typed (a : α)
  | other
  deriving DecidableEq, Repr

/-- The characters that `str.strip` removes. -/
def isSpace (c : Char) : Bool :=
  let n := c.toNat
  (9 ≤ n && n ≤ 13) || (28 ≤ n && n ≤ 32) || n == 0x85 || n == 0xA0 || n == 0x1680 ||
    (0x2000 ≤ n && n ≤ 0x200A) || n == 0x2028 || n == 0x2029 || n == 0x202F || n == 0x205F ||
    n == 0x3000

/-- `not s.strip()` -/
def blank (s : String) : Bool := s.toList.all isSpace

def hexDigit (n : Nat) : Char :=
  if n < 10 then Char.ofNat (48 + n) else Char.ofNat (87 + n)

/-- One character of `repr(s)` between the quotes `q`. Only control
characters below 128 are escaped by number. -/
def reprChar (q : Char) (c : Char) : List Char :=
  let n := c.toNat
  if c = q ∨ n = 92 then [Char.ofNat 92, c]
  else if n = 10 then "\\n".toList
  else if n = 13 then "\\r".toList
  else if n = 9 then "\\t".toList
  else if n < 32 ∨ n = 127 then "\\x".toList ++ [hexDigit (n / 16), hexDigit (n % 16)]
  else [c]

/-- `repr(s)` of a string. -/
def repr (s : String) : String :=
  let q := if s.toList.any (·.toNat == 39) && !s.toList.any (·.toNat == 34) then Char.ofNat 34
    else Char.ofNat 39
  String.ofList (q :: s.toList.flatMap (reprChar q) ++ [q])

/-- `repr` of a string or `None`. -/
def reprOption : Option String → String
  | none => "None"
  | some s => repr s

/-- The digits of `str(n)` or `int(s)` that Python converts at most. -/
def maxStrDigits : Nat := 4300

def tooLong (n : Int) : Bool := decide (maxStrDigits < (toString n.natAbs).length)

theorem tooLong_iff (n : Int) : tooLong n = true ↔ 10 ^ maxStrDigits ≤ n.natAbs := by
  have h := @Nat.length_repr_le_iff n.natAbs maxStrDigits (by decide)
  simp only [tooLong, decide_eq_true_eq]
  change maxStrDigits < n.natAbs.repr.length ↔ _
  omega

/-! ## Usage reports -/

/-- What an inference is: the two kinds of usage and of reservation. -/
inductive InvocationKind where
  | model
  | scripted
  deriving DecidableEq, Repr

inductive UsageStatus where
  | known
  | unknown
  | notApplicable
  deriving DecidableEq, Repr

/-- The classes of exception that a handler of the SDK names. -/
inductive ExnClass where
  | valueError
  | contractError
  | proposalRejected
  | budgetExhausted
  | unresolvedEffect
  | dispatchDenied
  | inferenceFailure
  | inferenceRejected
  | cancelledError
  | inferenceCancelled
  | timeoutError
  deriving DecidableEq, Repr

/-- A class with the classes above it. -/
def ExnClass.mro : ExnClass → List ExnClass
  | .valueError => [.valueError]
  | .contractError => [.contractError, .valueError]
  | .proposalRejected => [.proposalRejected, .contractError, .valueError]
  | .budgetExhausted => [.budgetExhausted, .contractError, .valueError]
  | .unresolvedEffect => [.unresolvedEffect, .contractError, .valueError]
  | .dispatchDenied => [.dispatchDenied, .contractError, .valueError]
  | .inferenceFailure => [.inferenceFailure, .contractError, .valueError]
  | .inferenceRejected => [.inferenceRejected, .inferenceFailure, .contractError, .valueError]
  | .cancelledError => [.cancelledError]
  | .inferenceCancelled => [.inferenceCancelled, .cancelledError]
  | .timeoutError => [.timeoutError]

/-- The fields of an `InferenceUsage`, before its constructor checks them. -/
structure UsageFields where
  kind : InvocationKind
  status : UsageStatus
  requestStarted : Bool := false
  provider : Option String := none
  model : Option String := none
  responseId : Option String := none
  finishReason : Option String := none
  inputTokens : Option Int := none
  outputTokens : Option Int := none
  responseModel : Option String := none
  configurationSha256 : Option String := none
  deriving DecidableEq, Repr

/-- A count that fits a SQLite integer. -/
def sqliteInteger (n : Int) : Bool := decide (0 ≤ n ∧ n < 2 ^ 63)

/-- A count of SQLite is short enough to be written. -/
theorem sqliteInteger_short {n : Int} (h : sqliteInteger n = true) : tooLong n = false := by
  rw [← Bool.not_eq_true, tooLong_iff]
  unfold sqliteInteger at h
  obtain ⟨hnonneg, hlt⟩ := of_decide_eq_true h
  have hbase : 2 ^ 63 ≤ 10 ^ 63 := Nat.pow_le_pow_left (by decide) 63
  have hexponent : 10 ^ 63 ≤ 10 ^ maxStrDigits := Nat.pow_le_pow_right (by decide) (by decide)
  omega

def isLowerHex (c : Char) : Bool := "0123456789abcdef".toList.contains c

/-- `InferenceUsage.__post_init__`: the text of the refusal, if any. -/
def UsageFields.postInit (u : UsageFields) : Option String :=
  if [u.provider, u.model, u.responseId, u.finishReason, u.responseModel].any
      (fun v => v.any blank) then
    some "Usage identity fields must be nonempty strings or None"
  else if u.configurationSha256.any
      (fun d => d.toList.length != 64 || !d.toList.all isLowerHex) then
    some "Inference configuration digest must be lowercase SHA-256 or None"
  else if [u.inputTokens, u.outputTokens].any (fun c => c.any (fun n => !sqliteInteger n)) then
    some "Token counts must be nonnegative SQLite integers or None"
  else match u.kind with
    | .scripted =>
      if u.status ≠ .notApplicable ∨ u.requestStarted = true ∨
          [u.provider, u.model, u.responseId, u.finishReason, u.responseModel,
            u.configurationSha256].any Option.isSome = true ∨
          [u.inputTokens, u.outputTokens].any Option.isSome = true then
        some "Scripted usage must be not_applicable with no model metadata"
      else none
    | .model =>
      if u.provider = none ∨ u.model = none then
        some "Model usage requires provider and model identity"
      else if u.status = .notApplicable ∨
          ((u.status = .known) ≠ (u.inputTokens.isSome = true ∧ u.outputTokens.isSome = true)) then
        some "Model usage is known exactly when both token counts are known"
      else if u.requestStarted = false ∧ ¬ (u.inputTokens = some 0 ∧ u.outputTokens = some 0) then
        some "An undispatched model request must report known zero tokens"
      else none

/-- A usage report that its constructor accepted. -/
structure InferenceUsage extends UsageFields where
  accepted : toUsageFields.postInit = none
  deriving DecidableEq

/-- `InferenceUsage.scripted()` -/
def InferenceUsage.scripted : InferenceUsage :=
  { kind := .scripted, status := .notApplicable, accepted := by decide }

/-! ## Exceptions -/

/-- An exception: the `__name__` of its type, which Python lets be any string,
the classes of the SDK that it is an instance of, its text, and the usage that
an inference failure carries. -/
structure Exn where
  typeName : String
  bases : List ExnClass
  message : String
  usage : Option (Dyn InferenceUsage) := none
  deriving DecidableEq

/-- `isinstance(e, c)` -/
def Exn.isinstance (e : Exn) (c : ExnClass) : Bool := e.bases.any (fun b => b.mro.contains c)

def contractError (message : String) : Exn :=
  ⟨"ContractError", [.contractError], message, none⟩

def proposalRejected (message : String) : Exn :=
  ⟨"ProposalRejected", [.proposalRejected], message, none⟩

def budgetExhausted (message : String) : Exn :=
  ⟨"BudgetExhausted", [.budgetExhausted], message, none⟩

def unresolvedEffect (message : String) : Exn :=
  ⟨"UnresolvedEffect", [.unresolvedEffect], message, none⟩

def dispatchDenied (message : String) : Exn :=
  ⟨"DispatchDenied", [.dispatchDenied], message, none⟩

def valueError (message : String) : Exn := ⟨"ValueError", [.valueError], message, none⟩

/-- What `str(n)` raises for an integer with too many digits. -/
def tooManyDigits : Exn :=
  valueError "Exceeds the limit (4300 digits) for integer string conversion"

def timeoutError : Exn := ⟨"TimeoutError", [.timeoutError], "", none⟩

def cancelledError : Exn := ⟨"CancelledError", [.cancelledError], "", none⟩

/-- An exception of Python or of sqlite3 that no handler of the SDK names. -/
def otherError (typeName message : String) : Exn := ⟨typeName, [], message, none⟩

/-- A constructor's check: the fields are accepted or a `ContractError` says why not. -/
def refusal (r : Option String) : Except Exn Unit :=
  match r with
  | none => .ok ()
  | some message => .error (contractError message)

/-! ## Records -/

structure State where
  revision : Int
  value : String
  deriving DecidableEq, Repr

structure ToolCall where
  name : String
  arguments : String
  deriving DecidableEq, Repr

structure ToolSpec where
  name : String
  description : String
  parametersJson : String
  deriving DecidableEq, Repr

structure ImageInput where
  url : String
  detail : String := "original"
  deriving DecidableEq, Repr

/-- The answer of an adapter. The types of its fields are checked later, by
the store. -/
structure InferenceResult where
  call : Dyn ToolCall
  usage : Dyn InferenceUsage
  deriving DecidableEq

/-- The fields of an `OutputReservation`, before its constructor checks them. -/
structure ReservationFields where
  kind : InvocationKind
  tokens : Int
  deriving DecidableEq, Repr

/-- `OutputReservation.__post_init__` -/
def ReservationFields.postInit (r : ReservationFields) : Option String :=
  if !sqliteInteger r.tokens then
    some "Output reservation must be a nonnegative SQLite integer"
  else if (r.kind = .scripted) ≠ (r.tokens = 0) then
    some "Scripted output reserves zero; model output reserves positive tokens"
  else none

/-- An output reservation that its constructor accepted. -/
structure OutputReservation extends ReservationFields where
  accepted : toReservationFields.postInit = none
  deriving DecidableEq

structure OutputBudget where
  limit : Option Int
  available : Option Int
  spent : Int := 0
  held : Int := 0
  unresolved : Nat := 0
  breached : Nat := 0
  deriving DecidableEq, Repr

structure InferenceRequest where
  objective : String
  base : State
  allowedTools : List String
  observation : Option String := none
  tools : List ToolSpec := []
  images : List ImageInput := []
  maxOutputTokens : Option Int := none
  deriving DecidableEq, Repr

/-- A tool result waiting for an evaluation. The output is the column of the
operation row, which only a row that never returned leaves `NULL`. -/
structure Candidate where
  id : String
  base : State
  call : ToolCall
  output : Option String
  deriving DecidableEq, Repr

inductive Verdict where
  | satisfied
  | failed
  | unavailable
  deriving DecidableEq, Repr

structure Evaluation where
  candidate : Candidate
  evaluator : Dyn String
  scope : Dyn String
  verdict : Dyn Verdict
  reason : Dyn String
  stateUpdate : Option (Dyn String) := none
  deriving DecidableEq, Repr

structure StepResult where
  candidate : Candidate
  evaluation : Evaluation
  state : State
  committed : Bool
  deriving DecidableEq, Repr

structure Event where
  stepId : String
  stage : String
  detail : String
  deriving DecidableEq, Repr

/-- A text field that is a string and holds more than spaces. -/
def Dyn.isText : Dyn String → Bool
  | .typed s => !blank s
  | .other => false

/-- `check_evaluation` -/
def checkEvaluation (candidate : Candidate) (evaluation : Evaluation) : Except Exn Unit :=
  if evaluation.candidate ≠ candidate then
    .error (contractError "Evaluation does not bind the exact candidate")
  else if evaluation.verdict = .other then
    .error (contractError "Evaluation verdict must be a Verdict member")
  else if evaluation.stateUpdate = some .other then
    .error (contractError "State update must be a string or None for observation-only work")
  else if ¬ [evaluation.evaluator, evaluation.scope, evaluation.reason].all Dyn.isText then
    .error (contractError "Evaluation requires nonempty evaluator, scope, and reason")
  else .ok ()

/-- The fields of a `RunLimits`, before its constructor checks them. -/
structure LimitFields where
  inferenceCalls : Int
  toolCalls : Int
  externalActions : Int
  wallTimeSeconds : Option ℚ := none
  outputTokens : Option Int := none
  deriving DecidableEq

/-- `RunLimits.__post_init__` -/
def LimitFields.postInit (l : LimitFields) : Option String :=
  if [l.inferenceCalls, l.toolCalls, l.externalActions].any (fun n => !sqliteInteger n) then
    some "Operation limits must be nonnegative SQLite integers"
  else if l.outputTokens.any (fun n => !sqliteInteger n) then
    some "Output-token limit must be a nonnegative SQLite integer or None"
  else if l.wallTimeSeconds.any (fun w => decide (w ≤ 0)) then
    some "Wall time must be finite and positive"
  else none

/-- Limits that their constructor accepted. -/
structure RunLimits extends LimitFields where
  accepted : toLimitFields.postInit = none
  deriving DecidableEq

/-- The fields of a `GuardDecision`, before its constructor checks them. -/
structure DecisionFields where
  allowed : Bool
  reason : String
  deriving DecidableEq, Repr

/-- `GuardDecision.__post_init__` -/
def DecisionFields.postInit (d : DecisionFields) : Option String :=
  if blank d.reason then some "Guard decisions require a boolean and nonempty reason" else none

/-- A decision that its constructor accepted. -/
structure GuardDecision extends DecisionFields where
  accepted : toDecisionFields.postInit = none
  deriving DecidableEq

/-- The stages of an operation row. -/
inductive Stage where
  | inference
  | proposed
  | dispatched
  | returned
  | completed
  | failed
  deriving DecidableEq, Repr

/-- The text of a stage in the database. -/
def Stage.text : Stage → String
  | .inference => "inference"
  | .proposed => "proposed"
  | .dispatched => "dispatched"
  | .returned => "returned"
  | .completed => "completed"
  | .failed => "failed"

structure PendingOperation where
  id : String
  stage : Stage
  candidate : Option Candidate
  deriving DecidableEq, Repr

end FlynnAgents
