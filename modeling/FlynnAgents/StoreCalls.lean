-- The store as a machine. A call is one use of a method with its
-- arguments, and an entry of the log is a call with its clock readings and
-- what it returned or raised.
import FlynnAgents.SqliteRun

namespace FlynnAgents

open Relational Transactional

inductive Call where
  | start (operationId : String) (request : InferenceRequest)
      (output : Option (Dyn OutputReservation)) (guards : Dyn (List String))
  | recordGuard (operationId guardId : String) (decision : Dyn GuardDecision)
  | recordEvent (event : Dyn Event)
  | recordUsage (operationId : String) (usage : Dyn InferenceUsage)
  | proposed (operationId : String) (call : Dyn ToolCall)
  | dispatch (operationId : String) (observation externalAction : Bool)
  | returned (operationId : String) (output : Dyn String)
  | complete (evaluation : Dyn Evaluation)
  | failed (operationId error : String)
  | abandonUndispatched (operationId : String)
  | finish (outcome : Dyn String)
  | close
  | openRun
  | outcome
  | read
  | latestObservation
  | remaining
  | pending
  | checkReady
  | outputBudget
  | usageSummary
  | completedOperations
  | records
  | secondsRemaining
  deriving DecidableEq

/-- What a call returns. -/
@[reducible] def Call.Result : Call → Type
  | .returned _ _ => Candidate
  | .complete _ => StepResult
  | .outcome => Option String
  | .read => State
  | .latestObservation => Option String
  | .remaining => ReservationKind → Int
  | .pending => Option PendingOperation
  | .outputBudget => OutputBudget
  | .usageSummary => UsageSummary
  | .completedOperations => Nat
  | .records => Tables
  | .secondsRemaining => Option ℚ
  | _ => Unit

/-- The property `seconds_remaining`, which a closed object has too. -/
def SQLiteRun.secondsRemaining (clock : Clock) : StoreM (Option ℚ) := fun self =>
  (.ok (self.held.secondsRemaining clock), self)

def Call.method (clock : Clock) : (call : Call) → StoreM call.Result
  | .start operationId request output guards =>
    SQLiteRun.start clock operationId request output guards
  | .recordGuard operationId guardId decision => SQLiteRun.recordGuard operationId guardId decision
  | .recordEvent event => SQLiteRun.recordEvent event
  | .recordUsage operationId usage => SQLiteRun.recordUsage operationId usage
  | .proposed operationId call => SQLiteRun.proposed operationId call
  | .dispatch operationId observation externalAction =>
    SQLiteRun.dispatch clock operationId observation externalAction
  | .returned operationId output => SQLiteRun.returned operationId output
  | .complete evaluation => SQLiteRun.complete clock evaluation
  | .failed operationId error => SQLiteRun.failed operationId error
  | .abandonUndispatched operationId => SQLiteRun.abandonUndispatched operationId
  | .finish text => SQLiteRun.finish text
  | .close => SQLiteRun.close
  | .openRun => SQLiteRun.openRun clock
  | .outcome => query fun t => .ok t.run.outcome
  | .read => query fun t => .ok t.read
  | .latestObservation => query fun t => .ok t.latestObservation
  | .remaining => query fun t => .ok t.remaining
  | .pending => query Tables.pending
  | .checkReady => query Tables.checkReady
  | .outputBudget => query Tables.outputBudget
  | .usageSummary => query Tables.usageSummary
  | .completedOperations => query fun t => .ok t.completedOperations
  | .records => query fun t => .ok t
  | .secondsRemaining => SQLiteRun.secondsRemaining clock

/-- A call with the clock readings of its time. -/
structure Timed where
  clock : Clock
  call : Call
  deriving DecidableEq

/-- A call that was made, and what it returned or raised. -/
structure Entry where
  clock : Clock
  call : Call
  result : Except Exn call.Result

/-- The call returned. -/
def Entry.ok (e : Entry) : Bool := e.result.isOk

/-- What a call on the store returns or raises. -/
def Call.answer (call : Call) (clock : Clock) (self : SQLiteRun) : Except Exn call.Result :=
  ((call.method clock).run self).1

/-- One call on the store. -/
def exec (i : Timed) (self : SQLiteRun) : Entry × SQLiteRun :=
  let r := (i.call.method i.clock).run self
  (⟨i.clock, i.call, r.1⟩, r.2)

/-- The store after a list of calls. -/
abbrev SQLiteRun.after (self : SQLiteRun) (calls : List Timed) : SQLiteRun :=
  Machines.after exec self calls

/-- The log of a list of calls. -/
abbrev SQLiteRun.log (self : SQLiteRun) (calls : List Timed) : List Entry :=
  Machines.log exec self calls

/-! ## What a call may write

Every write of a call is one of the changes below, with the checks that it
passed. Each law of the store is proved of these changes. -/

/-- The clock checks of `_require_time` passed. -/
structure Timely (handle : Handle) (clock : Clock) (t : Tables) : Prop where
  isOpen : t.run.outcome = none
  forward : t.run.lastClock ≤ clock.time
  beforeDeadline : handle.secondsRemaining clock ≠ some 0

/-- The tables after `_require_time`. -/
def Tables.tick (t : Tables) (clock : Clock) : Tables :=
  { t with run := { t.run with lastClock := clock.time } }

@[simp] theorem remaining_tick (t : Tables) (clock : Clock) (kind : ReservationKind) :
    (t.tick clock).remaining kind = t.remaining kind := rfl

/-- The requirement rows of an operation, one for each guard. -/
def requirementRows (operationId : String) (guards : List String) : List GuardRequirementRow :=
  guards.map fun g => ⟨operationId, g⟩

/-- The reservation that `start` writes, if it is given one. -/
def reservationRows (operationId : String) (output : Option (Dyn OutputReservation)) :
    List OutputReservationRow :=
  match output with
  | some (.typed o) => [⟨operationId, o.toReservationFields⟩]
  | _ => []

/-- The external reservation that `dispatch` writes, if the tool is external. -/
def externalRows (operationId : String) (externalAction : Bool) : List ReservationRow :=
  if externalAction then [⟨operationId, .external⟩] else []

/-- The commit that `complete` writes, if the evaluation publishes one. -/
def commitRows (current : State) (candidate : Candidate) (evaluation : Evaluation) :
    List CommitRow :=
  match evaluation.published with
  | some value =>
    [⟨current.revision + 1, candidate.id, candidate.base.revision, value, evaluation.digest⟩]
  | none => []

/-- The state after `complete`. -/
def publishedState (current : State) (evaluation : Evaluation) : State :=
  match evaluation.published with
  | some value => ⟨current.revision + 1, value⟩
  | none => current

/-- `Change handle clock t call t'`: the call passed its checks on the tables
`t` and left the tables `t'`. -/
inductive Change (handle : Handle) (clock : Clock) (t : Tables) : Call → Tables → Prop where
  | start {id : String} {request : InferenceRequest} {output : Option (Dyn OutputReservation)}
      {guards : List String} {budget : OutputBudget} {ops : Table OperationRow.id}
      {reqs : Table GuardRequirementRow.key} {res : Table ReservationRow.key}
      {outs : Table OutputReservationRow.operationId}
      (named : guards.any blank = false) (distinct : guards.Nodup)
      (ready : t.checkReady = .ok ()) (timely : Timely handle clock t)
      (budgeted : t.outputBudget = .ok budget)
      (admitted : admitOutput budget request output = .ok ())
      (base : request.base = t.read) (nonempty : id ≠ "")
      (operations : t.operations.insert { id, stage := .inference, request } = some ops)
      (requirements : t.guardRequirements.insertAll (requirementRows id guards) = some reqs)
      (room : 0 < t.remaining .inference)
      (reserved : t.reservations.insert ⟨id, .inference⟩ = some res)
      (outputs : t.outputReservations.insertAll (reservationRows id output) = some outs)
      (written : request.unwritable = false) :
      Change handle clock t (.start id request output (.typed guards))
        { t.tick clock with
          operations := ops
          guardRequirements := reqs
          reservations := res
          outputReservations := outs }
  | recordGuard {id guardId : String} {decision : GuardDecision} {row : OperationRow}
      {rows : Table GuardDecisionRow.key} (isOpen : t.run.outcome = none)
      (operation : t.operation? id = some row) (stage : row.stage = .proposed)
      (required : t.guardRequirements.Has (id, guardId))
      (decided : t.guardDecisions.insert ⟨id, guardId, decision.toDecisionFields⟩ = some rows) :
      Change handle clock t (.recordGuard id guardId (.typed decision))
        { t with guardDecisions := rows }
  | recordEvent {event : Event} {row : OperationRow} (isOpen : t.run.outcome = none)
      (named : event.stage ≠ "") (operation : t.operation? event.stepId = some row) :
      Change handle clock t (.recordEvent (.typed event))
        { t with
          lifecycleEvents := t.lifecycleEvents ++ [⟨event.stepId, event.stage, event.detail⟩] }
  | recordUsage {id : String} {usage : InferenceUsage} {row : OperationRow}
      {rows : Table UsageRow.operationId} (isOpen : t.run.outcome = none)
      (operation : t.operation? id = some row) (stage : row.stage = .inference)
      (reported : t.inferenceUsage.insert ⟨id, usage.toUsageFields⟩ = some rows) :
      Change handle clock t (.recordUsage id (.typed usage)) { t with inferenceUsage := rows }
  | proposed {id : String} {call : ToolCall} {row : OperationRow}
      (isOpen : t.run.outcome = none) (operation : t.operation? id = some row)
      (stage : row.stage = .inference) :
      Change handle clock t (.proposed id (.typed call))
        { t with
          operations := t.operations.update id
            (fun row => { row with stage := .proposed, call := some call }) (fun _ => rfl) }
  | dispatch {id : String} {observation externalAction : Bool} {row : OperationRow}
      {tool res : Table ReservationRow.key} (timely : Timely handle clock t)
      (operation : t.operation? id = some row) (stage : row.stage = .proposed)
      (allowed : checkGuards t.guardDecisions (t.requirements id) = .ok ())
      (room : 0 < t.remaining .tool)
      (reserved : t.reservations.insert ⟨id, .tool⟩ = some tool)
      (externalRoom : externalAction = true → 0 < t.remaining .external)
      (externalReserved : tool.insertAll (externalRows id externalAction) = some res) :
      Change handle clock t (.dispatch id observation externalAction)
        { t.tick clock with
          reservations := res
          operations := t.operations.update id
            (fun row => { row with stage := .dispatched, observation := observation })
            (fun _ => rfl) }
  | returned {id output : String} {row : OperationRow}
      (operation : t.operation? id = some row) (stage : row.stage = .dispatched) :
      Change handle clock t (.returned id (.typed output))
        { t with
          operations := t.operations.update id
            (fun row => { row with stage := .returned, output := some output }) (fun _ => rfl) }
  | complete {evaluation : Evaluation} {row : OperationRow} {candidate : Candidate}
      {evals : Table EvaluationRow.operationId} {commits : Table CommitRow.revision}
      (timely : Timely handle clock t)
      (operation : t.operation? evaluation.candidate.id = some row)
      (stage : row.stage = .returned) (loaded : row.candidate = .ok candidate)
      (checked : checkEvaluation candidate evaluation = .ok ())
      (base : t.read = candidate.base)
      (evaluated : t.evaluations.insert ⟨candidate.id, evaluation, evaluation.digest⟩ = some evals)
      (positive : ∀ r ∈ commitRows t.read candidate evaluation, 0 < r.revision)
      (unpublished : ∀ r ∈ commitRows t.read candidate evaluation,
        ∀ q ∈ t.commits.rows, q.operationId ≠ r.operationId)
      (committed : t.commits.insertAll (commitRows t.read candidate evaluation) = some commits) :
      Change handle clock t (.complete (.typed evaluation))
        { t.tick clock with
          evaluations := evals
          commits := commits
          operations := t.operations.update candidate.id
            (fun row => { row with stage := .completed }) (fun _ => rfl) }
  | failed {id error : String} {row : OperationRow} (operation : t.operation? id = some row) :
      Change handle clock t (.failed id error)
        { t with
          operations := t.operations.update id
            (fun q => { q with stage := row.stage.afterFailure, error := some error })
            (fun _ => rfl) }
  | abandonUndispatched {id : String} {row : OperationRow} (isOpen : t.run.outcome = none)
      (operation : t.operation? id = some row)
      (stage : row.stage = .inference ∨ row.stage = .proposed) :
      Change handle clock t (.abandonUndispatched id)
        { t with
          operations := t.operations.update id
            (fun row => { row with stage := .failed, error := some "recovered before dispatch" })
            (fun _ => rfl) }
  | finish {text : String} (isOpen : t.run.outcome = none) (named : blank text = false) :
      Change handle clock t (.finish (.typed text))
        { t with run := { t.run with outcome := some text } }

end FlynnAgents
