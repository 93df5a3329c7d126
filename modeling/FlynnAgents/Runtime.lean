-- The tools (tools.py) and the runtime (runtime.py). A step and a recovery are
-- programs: they call the store, and they ask the application, which answers
-- with a value or raises, as often as it likes.
import FlynnAgents.StoreCalls
import FlynnAgents.Lib.Program

namespace FlynnAgents

open Programs

/-! ## The registry -/

/-- A registered tool. Its validator and its handler are the application's. -/
structure Tool where
  name : String
  externalAction : Bool := false
  observation : Bool := false
  description : String := ""
  parametersJson : String := "\x7b\"type\":\"object\",\"properties\":\x7b\x7d,\"additionalProperties\":false\x7d"
  deriving DecidableEq, Repr

/-- The tools in the order of their registration, under distinct names. -/
structure ToolBroker where
  tools : List Tool
  named : ∀ tool ∈ tools, tool.name ≠ ""
  distinct : (tools.map Tool.name).Nodup

namespace ToolBroker

/-- One turn of the loop of the constructor. -/
def register (broker : ToolBroker) (tool : Tool) : Except Exn ToolBroker :=
  if h : tool.name = "" ∨ tool.name ∈ broker.tools.map Tool.name then
    .error (contractError ("Empty or duplicate tool name: " ++ repr tool.name))
  else .ok {
    tools := broker.tools ++ [tool]
    named := by
      intro t ht
      rcases List.mem_append.mp ht with ht | ht
      · exact broker.named t ht
      · rw [List.mem_singleton.mp ht]
        exact (not_or.mp h).1
    distinct := by
      rw [List.map_append, List.nodup_append]
      refine ⟨broker.distinct, by simp, ?_⟩
      intro a ha b hb hab
      rw [List.map_singleton, List.mem_singleton] at hb
      exact (not_or.mp h).2 (hb ▸ hab ▸ ha) }

/-- `ToolBroker(tools)` -/
def create (tools : List Tool) : Except Exn ToolBroker :=
  tools.foldlM register ⟨[], by simp, by simp⟩

def specifications (broker : ToolBroker) (grants : List String) : List ToolSpec :=
  (broker.tools.filter fun tool => decide (tool.name ∈ grants)).map fun tool =>
    ⟨tool.name, tool.description, tool.parametersJson⟩

end ToolBroker

/-! ## What a program asks -/

/-- What a program asks outside the store. -/
inductive Ask where
  | acquire
  | release
  | setRejected (error : Option Exn)
  | prepareRequest (request : InferenceRequest)
  | planOutput (request : InferenceRequest) (available : Int)
  | newId
  | appendEvent (event : Event)
  | notify (event : Event)
  | generate (operationId : String) (request : InferenceRequest)
  | validate (tool : Tool) (arguments : String)
  | check (guardId operationId : String) (request : InferenceRequest) (call : ToolCall)
  | execute (operationId : String) (tool : Tool) (arguments : String)
  | evaluate (candidate : Candidate)
  | expired (error : Exn)
  deriving DecidableEq

/-- What it is answered. -/
@[reducible] def Ask.Answer : Ask → Type
  | .acquire => Except Exn Unit
  | .release => Unit
  | .setRejected _ => Unit
  | .prepareRequest _ => Except Exn InferenceRequest
  | .planOutput _ _ => Except Exn (Dyn OutputReservation)
  | .newId => String
  | .appendEvent _ => Unit
  | .notify _ => Except Exn Unit
  | .generate _ _ => Except Exn (Dyn InferenceResult)
  | .validate _ _ => Except Exn Unit
  | .check _ _ _ _ => Except Exn (Dyn GuardDecision)
  | .execute _ _ _ => Except Exn (Dyn String)
  | .evaluate _ => Except Exn (Dyn Evaluation)
  | .expired _ => Bool

/-- The asks that suspend the task: another task may run until the answer. -/
def Ask.awaits : Ask → Bool
  | .acquire | .generate _ _ | .check _ _ _ _ | .execute _ _ _ | .evaluate _ => true
  | _ => false

inductive Req where
  | store (call : Call)
  | ask (a : Ask)
  deriving DecidableEq

@[reducible] def Req.Answer : Req → Type
  | .store call => Except Exn call.Result
  | .ask a => a.Answer

/-- A program of the runtime. The error of the body of `_step` is labelled with
the stage that it was raised in. -/
abbrev Flow (ε α : Type) := Prog Req Req.Answer ε α

def store (call : Call) : Flow Exn call.Result := .ask (.store call) .ret

/-- An ask that the application may answer with a raise. -/
def acquire : Flow Exn Unit := .ask (.ask .acquire) .ret

def release : Flow Exn Unit := .ask (.ask .release) fun _ => .ret (.ok ())

def setRejected (error : Option Exn) : Flow Exn Unit :=
  .ask (.ask (.setRejected error)) fun _ => .ret (.ok ())

def newId : Flow Exn String := .ask (.ask .newId) fun id => .ret (.ok id)

def appendEvent (event : Event) : Flow Exn Unit :=
  .ask (.ask (.appendEvent event)) fun _ => .ret (.ok ())

def expired (error : Exn) : Flow Exn Bool := .ask (.ask (.expired error)) fun b => .ret (.ok b)

def prepareRequest (request : InferenceRequest) : Flow Exn InferenceRequest :=
  .ask (.ask (.prepareRequest request)) .ret

def planOutput (request : InferenceRequest) (available : Int) : Flow Exn (Dyn OutputReservation) :=
  .ask (.ask (.planOutput request available)) .ret

def notify (event : Event) : Flow Exn Unit := .ask (.ask (.notify event)) .ret

def generate (operationId : String) (request : InferenceRequest) : Flow Exn (Dyn InferenceResult) :=
  .ask (.ask (.generate operationId request)) .ret

def validate (tool : Tool) (arguments : String) : Flow Exn Unit :=
  .ask (.ask (.validate tool arguments)) .ret

def check (guardId operationId : String) (request : InferenceRequest) (call : ToolCall) :
    Flow Exn (Dyn GuardDecision) :=
  .ask (.ask (.check guardId operationId request call)) .ret

def execute (operationId : String) (tool : Tool) (arguments : String) : Flow Exn (Dyn String) :=
  .ask (.ask (.execute operationId tool arguments)) .ret

def evaluate (candidate : Candidate) : Flow Exn (Dyn Evaluation) :=
  .ask (.ask (.evaluate candidate)) .ret

/-- `ToolBroker.prepare`, of a call whose fields are strings -/
def ToolBroker.prepare (broker : ToolBroker) (call : ToolCall) (grants : List String) :
    Flow Exn Tool := do
  Prog.raiseIf (call.name ∉ grants)
    (contractError ("Tool " ++ repr call.name ++ " is not granted"))
  match broker.tools.find? (fun tool => decide (tool.name = call.name)) with
  | none => Prog.raise (contractError ("Tool " ++ repr call.name ++ " is not registered"))
  | some tool => do
    (validate tool call.arguments).catching fun e =>
      if e.isinstance .budgetExhausted then Prog.raise e
      else if e.isinstance .valueError then
        Prog.raise (proposalRejected
          ("Invalid arguments for " ++ repr call.name ++ ": " ++ e.message))
      else Prog.raise e
    return tool

/-! ## The runtime -/

/-- A guard that its constructor accepted. Its check is the application's. -/
structure DispatchGuard where
  id : String
  named : blank id = false

theorem DispatchGuard.eq_iff {a b : DispatchGuard} : a = b ↔ a.id = b.id := by
  cases a
  cases b
  simp

instance : DecidableEq DispatchGuard := fun _ _ => decidable_of_iff _ DispatchGuard.eq_iff.symm

/-- A runtime that its constructor accepted: what `Runtime.__init__` was given,
and whether it was given the optional callbacks. -/
structure Runtime where
  tools : ToolBroker
  grants : List String
  guards : List DispatchGuard
  guardsDistinct : (guards.map DispatchGuard.id).Nodup
  plansOutput : Bool
  preparesRequest : Bool
  notifies : Bool

/-- The raise, with the stage that it happened in. -/
def at_ {α : Type} (stage : String) (x : Flow Exn α) : Flow (String × Exn) α :=
  x.mapError fun e => (stage, e)

/-- `async with self._lock` -/
def locked {α : Type} (x : Flow Exn α) : Flow Exn α := do
  acquire
  x.finally_ release

/-- `async with asyncio.timeout(self._run.seconds_remaining)`: a deadline that
passes cancels an await of the block, and the block turns that into a timeout. -/
def timeout {α : Type} (x : Flow Exn α) : Flow Exn α := do
  let limit ← store .secondsRemaining
  x.catching fun e =>
    if e.isinstance .cancelledError && limit.isSome then do
      if ← expired e then Prog.raise timeoutError else Prog.raise e
    else Prog.raise e

/-- `_check_deadline` -/
def checkDeadline : Flow Exn Unit := do
  let left ← store .secondsRemaining
  Prog.raiseIf (left = some 0) (budgetExhausted "Run wall-time budget exhausted")

namespace Runtime

/-- `_emit` -/
def emit (rt : Runtime) (event : Event) (notifying : Bool) : Flow Exn Unit := do
  let _ ← store (.recordEvent (.typed event))
  appendEvent event
  if notifying && rt.notifies then notify event else pure ()

/-- The request, changed by `prepare_request` if there is one. -/
def prepared (rt : Runtime) (request : InferenceRequest) : Flow Exn InferenceRequest :=
  if rt.preparesRequest then prepareRequest request else pure request

/-- The request of `_step`, after `prepare_request`. -/
def request (rt : Runtime) (objective : String) (base : State) (effective : List String) :
    Flow Exn InferenceRequest := do
  let observation ← store .latestObservation
  let request ← rt.prepared {
    objective, base, allowedTools := effective, observation
    tools := rt.tools.specifications effective }
  Prog.raiseIf (request.base ≠ base)
    (contractError "Prepared request cannot substitute accepted state")
  Prog.raiseIf (¬ request.allowedTools ⊆ effective)
    (contractError "Prepared request cannot expand per-step authority")
  return { request with
    tools := request.tools.filter fun tool => decide (tool.name ∈ request.allowedTools) }

/-- The output reservation of `_step`, and the request with its ceiling. -/
def reservation (rt : Runtime) (request : InferenceRequest) :
    Flow Exn (Option (Dyn OutputReservation) × InferenceRequest) := do
  let budget ← store .outputBudget
  match budget.available with
  | none => return (none, request)
  | some available => do
    Prog.raiseIf (rt.plansOutput = false)
      (contractError "Output-limited runs require an adapter with plan_output")
    match ← planOutput request available with
    | .other => Prog.raise (contractError "plan_output must return an OutputReservation")
    | .typed reservation => do
      Prog.raiseIf (reservation.kind = .model ∧
          request.maxOutputTokens.any (fun ceiling => decide (ceiling < reservation.tokens)))
        (contractError "Output plan cannot expand the prepared request ceiling")
      return (some (.typed reservation),
        { request with maxOutputTokens := some reservation.tokens })

/-- The inference of `_step`, with its accounting. -/
def infer (operationId : String) (request : InferenceRequest) : Flow Exn InferenceResult := do
  let response ← (generate operationId request).catching fun e => do
    if e.isinstance .inferenceFailure || e.isinstance .inferenceCancelled then
      match e.usage with
      | some usage => store (.recordUsage operationId usage)
      | none => pure ()
    else pure ()
    Prog.raise e
  match response with
  | .other => Prog.raise (contractError "Inference must return an InferenceResult")
  | .typed response => do
    let _ ← store (.recordUsage operationId response.usage)
    return response

/-- The call of an answer that `proposed` accepted. -/
def toolCall : Dyn ToolCall → Except Exn ToolCall
  | .typed call => .ok call
  | .other => .error (contractError "Inference must return a ToolCall")

/-- One turn of the loop over the guards. -/
def checkGuard (rt : Runtime) (operationId : String) (request : InferenceRequest) (call : ToolCall)
    (guard : DispatchGuard) : Flow Exn Unit := do
  match ← check guard.id operationId request call with
  | .other => Prog.raise (contractError "Guard must return GuardDecision")
  | .typed decision => do
    let _ ← store (.recordGuard operationId guard.id (.typed decision))
    rt.emit ⟨operationId, if decision.allowed then "guard_allowed" else "guard_denied", guard.id⟩
      true
    Prog.raiseIf (decision.allowed = false)
      (dispatchDenied ("Guard " ++ repr guard.id ++ " refused: " ++ decision.reason))

/-- The evaluation of `_step`, up to the publication. -/
def publish (rt : Runtime) (operationId : String) (call : ToolCall) (candidate : Candidate) :
    Flow Exn StepResult := do
  rt.emit ⟨operationId, "tool_returned", call.name⟩ true
  checkDeadline
  let evaluation ← evaluate candidate
  checkDeadline
  store (.complete evaluation)

/-- The body of the `try` of `_step`. -/
def attempt (rt : Runtime) (operationId : String) (request : InferenceRequest) :
    Flow (String × Exn) StepResult := do
  at_ "notification" (rt.emit ⟨operationId, "started", ""⟩ true)
  let response ← at_ "inference" (infer operationId request)
  let _ ← at_ "inference" (store (.proposed operationId response.call))
  at_ "notification" (rt.emit ⟨operationId, "inference_returned", ""⟩ true)
  let call ← at_ "validation" (Prog.ofExcept (toolCall response.call))
  let tool ← at_ "validation" (rt.tools.prepare call request.allowedTools)
  Prog.forEach (fun guard => at_ "guard" (rt.checkGuard operationId request call guard)) rt.guards
  let _ ← at_ "dispatch"
    (store (.dispatch operationId tool.observation tool.externalAction))
  at_ "tool" (rt.emit ⟨operationId, "tool_dispatched", call.name⟩ true)
  let output ← at_ "tool" (execute operationId tool call.arguments)
  let candidate ← at_ "tool" (store (.returned operationId output))
  let result ← at_ "evaluation" (rt.publish operationId call candidate)
  at_ "notification"
    (rt.emit ⟨operationId, if result.committed then "committed" else "observed", ""⟩ true)
  return result

/-- The `except` of `_step`: the failure is recorded and raised again. -/
def recordFailure (rt : Runtime) (operationId : String) (failure : String × Exn) :
    Flow Exn StepResult := do
  let (stage, error) := failure
  let _ ← store (.failed operationId (stage ++ ": " ++ error.typeName))
  rt.emit ⟨operationId, if stage = "tool" then "effect_unknown" else "failed", stage⟩ false
  if (stage = "inference" ∧ error.isinstance .inferenceRejected = true) ∨
      (stage = "validation" ∧ error.isinstance .proposalRejected = true) then
    setRejected (some error)
  else pure ()
  Prog.raise error

/-- `_step` -/
def stepBody (rt : Runtime) (objective : String) (grants : Option (List String)) :
    Flow Exn StepResult := do
  let effective := grants.getD rt.grants
  Prog.raiseIf (¬ effective ⊆ rt.grants)
    (contractError "Per-step grants cannot expand runtime authority")
  let base ← store .read
  let request ← rt.request objective base effective
  let (reservation, request) ← rt.reservation request
  let operationId ← newId
  let _ ← store (.start operationId request reservation
    (.typed (rt.guards.map DispatchGuard.id)))
  (rt.attempt operationId request).catching (rt.recordFailure operationId)

/-- `step` -/
def step (rt : Runtime) (objective : String) (grants : Option (List String)) :
    Flow Exn StepResult :=
  locked do
    setRejected none
    let _ ← store .checkReady
    timeout (rt.stepBody objective grants)

/-- `recover` -/
def recover : Flow Exn (Option StepResult) :=
  locked do
    let outcome ← store .outcome
    Prog.raiseIf (outcome ≠ none)
      (contractError "Run already ended; recovery cannot reopen it")
    match ← store .pending with
    | none => return none
    | some pending => do
      Prog.raiseIf (pending.stage = .dispatched)
        (unresolvedEffect "External effect is unknown; adapter evidence is required")
      match pending.candidate with
      | none => do
        let _ ← store (.abandonUndispatched pending.id)
        return none
      | some candidate => do
        checkDeadline
        timeout do
          let evaluation ← evaluate candidate
          checkDeadline
          let result ← store (.complete evaluation)
          return some result

end Runtime

end FlynnAgents
