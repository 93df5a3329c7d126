-- The session (session.py). It drives the steps of one runtime: a policy of
-- the application makes every decision, and the end is recorded in the file.
import FlynnAgents.Scene
import FlynnAgents.Values

namespace FlynnAgents

open Programs
open JsonText (Tree)
open Text (ofString)

/-! ## The values -/

/-- The fields of a `SessionStep`, before its constructor checks them. -/
structure StepFields where
  objective : String
  grants : List String
  deriving DecidableEq

/-- `SessionStep.__post_init__` -/
def StepFields.postInit (f : StepFields) : Option String :=
  if blank f.objective then some "Session step requires a nonempty objective"
  else if f.grants.any (fun grant => decide (grant = "")) ∨ ¬ f.grants.Nodup then
    some "Session grants require a tuple of unique nonempty tool names"
  else none

structure SessionStep extends StepFields where
  accepted : toStepFields.postInit = none
  deriving DecidableEq

/-- The field of a `SessionStop`, before its constructor checks it. -/
structure StopFields where
  reason : String
  deriving DecidableEq

/-- `SessionStop.__post_init__` -/
def StopFields.postInit (f : StopFields) : Option String :=
  if blank f.reason then some "Session stop requires an explicit application reason" else none

structure SessionStop extends StopFields where
  accepted : toStopFields.postInit = none
  deriving DecidableEq

/-- What a policy may return. -/
inductive Decision where
  | step (step : SessionStep)
  | stop (stop : SessionStop)
  deriving DecidableEq

structure SessionView where
  state : State
  observation : Option String
  lastStep : Option StepResult
  completedSteps : Nat
  deriving DecidableEq

inductive TerminationKind where
  | stopped
  | budgetExhausted
  | timedOut
  | cancelled
  | failed
  deriving DecidableEq, Repr

def TerminationKind.text : TerminationKind → String
  | .stopped => "stopped"
  | .budgetExhausted => "budget_exhausted"
  | .timedOut => "timed_out"
  | .cancelled => "cancelled"
  | .failed => "failed"

/-- The fields of a `SessionTermination`, before its constructor checks them. -/
structure TerminationFields where
  kind : TerminationKind
  reason : Text
  completedSteps : Int
  deriving DecidableEq

/-- `SessionTermination.__post_init__` -/
def TerminationFields.postInit (f : TerminationFields) : Option String :=
  if blankText f.reason then some "Session termination requires a reason"
  else if f.completedSteps < 0 then
    some "Completed session steps must be a nonnegative integer"
  else none

structure SessionTermination extends TerminationFields where
  accepted : toTerminationFields.postInit = none
  deriving DecidableEq

/-- `SessionTermination(kind, reason, completed_steps)` -/
def TerminationFields.create (f : TerminationFields) : Except Exn SessionTermination :=
  match h : f.postInit with
  | none => .ok ⟨f, h⟩
  | some message => .error (contractError message)

/-- The constructor keeps the fields as they are, and refuses the others. -/
theorem create_termination_iff {f : TerminationFields} {t : SessionTermination} :
    f.create = .ok t ↔ f = t.toTerminationFields := by
  unfold TerminationFields.create
  constructor
  · intro h
    split at h
    · cases h
      rfl
    · cases h
  · rintro rfl
    split
    · rfl
    · rename_i message hm
      rw [t.accepted] at hm
      cases hm

/-- What `to_json` dumps, with its keys in order. -/
def SessionTermination.tree (t : SessionTermination) : Tree :=
  .obj [(ofString "completed_steps", .int t.completedSteps),
    (ofString "kind", .str (ofString t.kind.text)),
    (ofString "reason", .str t.reason),
    (ofString "schema", .str (ofString "flynn.session-termination/v1"))]

/-- `to_json` -/
def SessionTermination.toJson (t : SessionTermination) : Except Exn Text := dumps t.tree

/-- What a session records of its end: the text of `to_json`, of a count that it can write. -/
@[irreducible]
def SessionTermination.recorded (t : SessionTermination) : String :=
  (JsonText.render JsonText.compact t.tree).chars

/-! ## What a session asks -/

/-- What a session asks beside its runtime. -/
inductive Prompt where
  | lock
  | unlock
  | policy (view : SessionView)
  | onStep (result : StepResult)
  | onRejection (error : Exn) (view : SessionView)
  | rejected
  | expired (error : Exn)
  deriving DecidableEq

/-- What it is answered. -/
@[reducible] def Prompt.Answer : Prompt → Type
  | .lock => Except Exn Unit
  | .unlock => Unit
  | .policy _ => Except Exn (Dyn Decision)
  | .onStep _ => Except Exn Unit
  | .onRejection _ _ => Except Exn (Dyn Decision)
  | .rejected => Option Exn
  | .expired _ => Bool

/-- A program of the session. -/
abbrev Act (α : Type) := Prog (Req ⊕ Prompt) (either Req.Answer Prompt.Answer) Exn α

/-- A call of the session on the store. -/
def calls (call : Call) : Act call.Result := .ask (.inl (.store call)) .ret

def prompted (p : Prompt) : Act p.Answer := .ask (.inr p) fun x => .ret (.ok x)

def policy (view : SessionView) : Act (Dyn Decision) := .ask (.inr (.policy view)) .ret

def onStep (result : StepResult) : Act Unit := .ask (.inr (.onStep result)) .ret

def onRejection (error : Exn) (view : SessionView) : Act (Dyn Decision) :=
  .ask (.inr (.onRejection error view)) .ret

/-! ## The session -/

/-- A session: its runtime, and whether it was given the optional callbacks. -/
structure Session where
  runtime : Runtime
  stepping : Bool
  rejecting : Bool

namespace Session

/-- `_check_ready` -/
def checkReady : Act Unit := do
  let _ ← calls .checkReady
  let left ← calls .secondsRemaining
  Prog.raiseIf (left = some 0) (budgetExhausted "Session wall-time budget exhausted")

/-- The locals of the loop of `execute`. -/
structure Carry where
  count : Nat := 0
  last : Option StepResult := none
  correction : Option Decision := none
  deriving DecidableEq

/-- `SessionView(self._run.read(), self._run.latest_observation(), last, count)` -/
def view (carry : Carry) : Act SessionView := do
  let state ← calls .read
  let observation ← calls .latestObservation
  return ⟨state, observation, carry.last, carry.count⟩

/-- The decision of a turn: the correction, or what the policy says. -/
def decision (carry : Carry) : Act (Dyn Decision) :=
  match carry.correction with
  | some decision => pure (.typed decision)
  | none => do
    let view ← view carry
    policy view

/-- The stop of a session. -/
def stop (carry : Carry) (decision : SessionStop) : Act SessionTermination := do
  let termination ← Prog.ofExcept
    (TerminationFields.create ⟨.stopped, ofString decision.reason, carry.count⟩)
  let _ ← calls (.finish (.typed termination.recorded))
  return termination

/-- The handler of a step that raised: a certified rejection is corrected, and
every other exception is raised again. -/
def correct (sn : Session) (carry : Carry) (error : Exn) : Act Carry := do
  Prog.raiseIf (¬ (error.isinstance .proposalRejected = true ∨
    error.isinstance .inferenceRejected = true)) error
  Prog.raiseIf (sn.rejecting = false) error
  let rejected ← prompted .rejected
  Prog.raiseIf (rejected ≠ some error) error
  checkReady
  let view ← view carry
  match ← onRejection error view with
  | .other => Prog.raise (contractError "Rejection policy must return SessionStep or SessionStop")
  | .typed decision => return { carry with correction := some decision }

/-- One turn of the loop: the session stops, or it goes on. -/
def turn (sn : Session) (carry : Carry) : Act (SessionTermination ⊕ Carry) := do
  let decision ← decision carry
  let carry := { carry with correction := none }
  checkReady
  match decision with
  | .other => Prog.raise (contractError "Session policy must return SessionStep or SessionStop")
  | .typed (.stop decision) => do
    let termination ← stop carry decision
    return .inl termination
  | .typed (.step decision) => do
    match ← (sn.runtime.step decision.objective (some decision.grants)).embed.attempted with
    | .error error => do
      let carry ← sn.correct carry error
      return .inr carry
    | .ok result => do
      if sn.stepping then onStep result else pure ()
      return .inr { carry with count := carry.count + 1, last := some result }

/-- The loop of `execute`, in at most `fuel` turns. -/
def loop (sn : Session) : Nat → Carry → Act (Option SessionTermination)
  | 0, _ => pure none
  | fuel + 1, carry => do
    match ← sn.turn carry with
    | .inl termination => return some termination
    | .inr carry => loop sn fuel carry

/-- `async with asyncio.timeout(self._run.seconds_remaining)` -/
def timeout {α : Type} (x : Act α) : Act α := do
  let limit ← calls .secondsRemaining
  x.catching fun e =>
    if e.isinstance .cancelledError && limit.isSome then do
      if ← prompted (.expired e) then Prog.raise timeoutError else Prog.raise e
    else Prog.raise e

/-- The `try` of `execute`, in at most `fuel` turns of its loop. -/
def tried (sn : Session) (fuel : Nat) : Act (Option SessionTermination) := do
  checkReady
  timeout (sn.loop fuel {})

/-- The kind of a termination by an exception. -/
def kindOf (error : Exn) : TerminationKind :=
  if error.isinstance .cancelledError then .cancelled
  else if error.isinstance .timeoutError then .timedOut
  else if error.isinstance .budgetExhausted then .budgetExhausted
  else .failed

/-- The `except` of `execute`: the end is recorded, and the exception raised
again. -/
def conclude {α : Type} (baseline : Nat) (error : Exn) : Act α := do
  let completed ← calls .completedOperations
  let termination ← Prog.ofExcept
    (TerminationFields.create
      ⟨kindOf error, ofString error.typeName, (completed : Int) - baseline⟩)
  let _ ← calls (.finish (.typed termination.recorded))
  Prog.raise error

/-- `execute`, in at most `fuel` turns of its loop. -/
def execute (sn : Session) (fuel : Nat) : Act (Option SessionTermination) := do
  let locked ← prompted .lock
  let _ ← Prog.ofExcept locked
  Prog.finally_ (do
    let outcome ← calls .outcome
    Prog.raiseIf (outcome ≠ none) (contractError "Run already ended; create a fresh session")
    let pending ← calls .pending
    Prog.raiseIf (pending ≠ none)
      (unresolvedEffect "Session cannot recover a pending operation")
    let baseline ← calls .completedOperations
    (sn.tried fuel).catching (conclude baseline)) (do
    let _ ← prompted .unlock
    return ())

end Session

end FlynnAgents
