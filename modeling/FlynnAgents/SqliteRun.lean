-- The methods of `SQLiteRun` (sqlite_run.py). A method is given the clock
-- readings of its call. Every write goes through `transaction`, so a method
-- that raises inside it leaves the file as it was.
import FlynnAgents.Accounting
import FlynnAgents.Lib.JsonWrite

namespace FlynnAgents

open Relational Transactional

/-- The readings of `time.time()` and `time.monotonic()` in one call. -/
structure Clock where
  time : ℚ
  monotonic : ℚ
  deriving DecidableEq

/-- What an open `SQLiteRun` holds in memory: the deadline bound at the open. -/
structure Handle where
  monotonicDeadline : Option ℚ
  deriving DecidableEq

/-- The file of a run and the object that owns it, or that owned it last. -/
structure SQLiteRun where
  db : Tables
  held : Handle
  closed : Bool := false
  deriving DecidableEq

/-- The live owner, if any. -/
def SQLiteRun.handle (self : SQLiteRun) : Option Handle :=
  if self.closed then none else some self.held

@[simp] theorem SQLiteRun.handle_db (self : SQLiteRun) (db : Tables) :
    SQLiteRun.handle ⟨db, self.held, self.closed⟩ = self.handle := rfl

@[simp] theorem SQLiteRun.handle_live (db : Tables) (held : Handle) :
    SQLiteRun.handle ⟨db, held, false⟩ = some held := rfl

@[simp] theorem SQLiteRun.handle_closed (db : Tables) (held : Handle) :
    SQLiteRun.handle ⟨db, held, true⟩ = none := rfl

theorem SQLiteRun.handle_some {self : SQLiteRun} {handle : Handle}
    (h : self.handle = some handle) : self.held = handle ∧ self.closed = false := by
  unfold SQLiteRun.handle at h
  split at h
  · cases h
  · exact ⟨Option.some.inj h, by simpa using ‹¬ self.closed = true›⟩

abbrev Body := Txn Tables Exn

abbrev StoreM := Method SQLiteRun Exn

def closedError : Exn := otherError "ProgrammingError" "Cannot operate on a closed database."

/-- `_transaction`: the body commits, or the file is rolled back. -/
def transaction {α : Type} (body : Handle → Body α) : StoreM α := fun self =>
  match self.handle with
  | none => (.error closedError, self)
  | some handle =>
    match (body handle).run self.db with
    | .ok (a, db) => (.ok a, { self with db := db })
    | .error e => (.error e, self)

/-- A read outside a transaction. -/
def query {α : Type} (f : Tables → Except Exn α) : StoreM α := fun self =>
  match self.handle with
  | none => (.error closedError, self)
  | some _ => (f self.db, self)

/-! ## Time -/

/-- `_bind_clock` -/
def bindClock (t : Tables) (clock : Clock) : Except Exn Handle :=
  if clock.time < t.run.lastClock then
    .error (contractError "Wall clock moved backwards; restore the clock before reopening")
  else
    .ok ⟨t.run.deadline.map fun deadline => clock.monotonic + max 0 (deadline - clock.time)⟩

/-- `seconds_remaining` -/
def Handle.secondsRemaining (handle : Handle) (clock : Clock) : Option ℚ :=
  handle.monotonicDeadline.map fun deadline => max 0 (deadline - clock.monotonic)

namespace SQLiteRun

/-- `create`. The run row takes its reading of the wall clock first, and the
clock is bound after. -/
def create (now : ℚ) (clock : Clock) (runId initialState : Dyn String) (limits : RunLimits)
    (initialObservation : Option (Dyn String) := none) : Except Exn SQLiteRun :=
  match runId, initialState, initialObservation with
  | .other, _, _ => .error (contractError "Run identity must be nonempty")
  | .typed id, .typed state, none => start id state none
  | .typed id, .typed state, some (.typed observation) => start id state (some observation)
  | .typed id, _, _ =>
    if blank id then .error (contractError "Run identity must be nonempty")
    else .error (contractError "Initial state and observation must be strings")
where
  start (id state : String) (observation : Option String) : Except Exn SQLiteRun :=
    if blank id then .error (contractError "Run identity must be nonempty")
    else do
      let db := Tables.fresh {
        id := id
        initialState := state
        initialObservation := observation
        limits := limits.toLimitFields
        deadline := limits.wallTimeSeconds.map fun seconds => now + seconds
        lastClock := now
        outcome := none }
      let handle ← bindClock db clock
      return { db, held := handle }

/-- `open` -/
def openRun (clock : Clock) : StoreM Unit := fun self =>
  match self.handle with
  | some _ =>
    (.error (contractError "Run has a live owner; inspect read-only or wait for release"), self)
  | none =>
    if self.db.applicationId ≠ APPLICATION_ID ∨ self.db.userVersion ≠ SCHEMA_VERSION then
      (.error (contractError ("Unsupported Flynn database application/schema " ++
        toString self.db.applicationId ++ "/" ++ toString self.db.userVersion ++
        "; archive old evidence and create a new schema-5 run")), self)
    else match bindClock self.db clock with
      | .error e => (.error e, self)
      | .ok handle => (.ok (), { self with held := handle, closed := false })

/-- `close` -/
def close : StoreM Unit := fun self => (.ok (), { self with closed := true })

end SQLiteRun

def requireOpen : Body Unit := do
  let t ← Txn.get
  Txn.raiseIf (t.run.outcome ≠ none) (contractError "Run already ended; create a fresh run")

def requireTime (handle : Handle) (clock : Clock) : Body Unit := do
  requireOpen
  let t ← Txn.get
  Txn.raiseIf (clock.time < t.run.lastClock)
    (contractError "Wall clock moved backwards; no operation authorized")
  Txn.raiseIf (handle.secondsRemaining clock = some 0)
    (budgetExhausted "Run wall-time budget exhausted")
  Txn.modify fun t => { t with run := { t.run with lastClock := clock.time } }

/-- `finish` -/
def SQLiteRun.finish (outcome : Dyn String) : StoreM Unit :=
  match outcome with
  | .typed text =>
    if blank text then
      Method.raise (contractError "Terminal outcome must be nonempty application-owned text")
    else transaction fun _ => do
      requireOpen
      Txn.modify fun t => { t with run := { t.run with outcome := some text } }
  | .other => Method.raise
      (contractError "Terminal outcome must be nonempty application-owned text")

/-! ## Reads -/

/-- The later of two commit rows by revision. -/
def laterCommit (best : Option CommitRow) (row : CommitRow) : Option CommitRow :=
  match best with
  | none => some row
  | some b => if b.revision < row.revision then some row else some b

/-- `read` -/
def Tables.read (t : Tables) : State :=
  match t.commits.rows.foldl laterCommit none with
  | some row => ⟨row.revision, row.value⟩
  | none => ⟨0, t.run.initialState⟩

/-- `latest_observation` -/
def Tables.latestObservation (t : Tables) : Option String :=
  match t.operations.rows.reverse.find? (fun row => row.observation && row.output.isSome) with
  | some row => row.output
  | none => t.run.initialObservation

def LimitFields.of (l : LimitFields) : ReservationKind → Int
  | .inference => l.inferenceCalls
  | .tool => l.toolCalls
  | .external => l.externalActions

/-- The number of reservations of a kind. -/
def Tables.used (t : Tables) (kind : ReservationKind) : Nat :=
  t.reservations.rows.countP (fun r => decide (r.kind = kind))

/-- `remaining` -/
def Tables.remaining (t : Tables) (kind : ReservationKind) : Int :=
  t.run.limits.of kind - t.used kind

/-- `_operation` -/
def Tables.operation (t : Tables) (id : String) (stage : Option Stage) : Except Exn OperationRow :=
  match t.operation? id with
  | some row =>
    if stage = none ∨ stage = some row.stage then .ok row
    else refused (some row.stage)
  | none => refused none
where
  refused (found : Option Stage) : Except Exn OperationRow :=
    .error (contractError ("Operation " ++ repr id ++ " requires stage " ++
      reprOption (stage.map Stage.text) ++ "; found " ++ reprOption (found.map Stage.text)))

/-- `_candidate` -/
def OperationRow.candidate (row : OperationRow) : Except Exn Candidate :=
  match row.call with
  | some call => .ok ⟨row.id, row.request.base, call, row.output⟩
  | none => .error
      (otherError "TypeError" "the JSON object must be str, bytes or bytearray, not NoneType")

/-- A stage of `pending`: the operation is not over. -/
def Stage.live : Stage → Bool
  | .completed => false
  | .failed => false
  | _ => true

/-- `pending` -/
def Tables.pending (t : Tables) : Except Exn (Option PendingOperation) :=
  match t.operations.rows.find? (fun row => row.stage.live) with
  | none => .ok none
  | some row =>
    if row.stage = .returned then do
      let candidate ← row.candidate
      return some ⟨row.id, row.stage, some candidate⟩
    else .ok (some ⟨row.id, row.stage, none⟩)

/-- `check_ready` -/
def Tables.checkReady (t : Tables) : Except Exn Unit :=
  if t.run.outcome ≠ none then
    .error (contractError "Run already ended; create a fresh run")
  else do
    match ← t.pending with
    | none => return ()
    | some pending =>
      if pending.stage = .dispatched then
        .error (unresolvedEffect "Dispatched effect has no result; never repeat it automatically")
      else
        .error (contractError ("Operation " ++ pending.id ++ " needs explicit recovery from " ++
          pending.stage.text))

/-- `completed_operations` -/
def Tables.completedOperations (t : Tables) : Nat :=
  t.operations.rows.countP (fun row => decide (row.stage = .completed))

/-! ## Admission -/

/-- `_reserve` -/
def reserve (operationId : String) (kind : ReservationKind) : Body Unit := do
  let t ← Txn.get
  Txn.raiseIf (t.remaining kind ≤ 0)
    (budgetExhausted (kind.text ++ " budget exhausted; no operation authorized"))
  let rows ← Txn.ofExcept (insertRow "reservations.operation_id, reservations.kind"
    (t.operation? operationId).isSome t.reservations ⟨operationId, kind⟩)
  Txn.modify fun t => { t with reservations := rows }

/-- The checks that `start` makes on the output reservation. -/
def admitOutput (budget : OutputBudget) (request : InferenceRequest)
    (output : Option (Dyn OutputReservation)) : Except Exn Unit :=
  match budget.limit, output with
  | some _, some (.typed reservation) =>
    if request.maxOutputTokens ≠ some reservation.tokens then
      .error (contractError "Request output ceiling must match its reservation")
    else if reservation.kind = .model then
      if budget.unresolved ≠ 0 ∨ budget.breached ≠ 0 then
        .error (budgetExhausted
          "Output usage is unresolved or its bound was breached; no further model request authorized")
      else if budget.available.all (fun available => decide (available < reservation.tokens)) then
        .error (budgetExhausted "Output reservation exceeds remaining token budget")
      else .ok ()
    else .ok ()
  | some _, _ => .error (contractError "Output-limited run requires an explicit reservation")
  | none, none => .ok ()
  | none, some _ =>
    .error (contractError "Output reservation requires an output-limited run")

/-- `_json(asdict(request))` raises, at an integer with too many digits. -/
def InferenceRequest.unwritable (request : InferenceRequest) : Bool :=
  tooLong request.base.revision || request.maxOutputTokens.any tooLong

def insertRequirement (operationId guardId : String) : Body Unit := do
  let t ← Txn.get
  let rows ← Txn.ofExcept (insertRow "guard_requirements.operation_id, guard_requirements.guard_id"
    (t.operation? operationId).isSome t.guardRequirements ⟨operationId, guardId⟩)
  Txn.modify fun t => { t with guardRequirements := rows }

def insertOutputReservation (operationId : String) : Option (Dyn OutputReservation) → Body Unit
  | some (.typed output) => do
    let t ← Txn.get
    let rows ← Txn.ofExcept (insertRow "output_reservations.operation_id"
      (t.operation? operationId).isSome t.outputReservations
      ⟨operationId, output.toReservationFields⟩)
    Txn.modify fun t => { t with outputReservations := rows }
  | _ => pure ()

/-- `start` -/
def SQLiteRun.start (clock : Clock) (operationId : String) (request : InferenceRequest)
    (output : Option (Dyn OutputReservation)) (guards : Dyn (List String)) : StoreM Unit :=
  match guards with
  | .other => Method.raise (contractError "Required guards must have unique nonempty identities")
  | .typed guards =>
    if guards.any blank ∨ ¬ guards.Nodup then
      Method.raise (contractError "Required guards must have unique nonempty identities")
    else transaction fun handle => do
      let t ← Txn.get
      Txn.ofExcept t.checkReady
      requireTime handle clock
      let budget ← Txn.ofExcept t.outputBudget
      Txn.ofExcept (admitOutput budget request output)
      Txn.raiseIf (request.base ≠ t.read)
        (contractError "Inference request has a stale state revision")
      Txn.raiseIf (operationId = "") (contractError "Operation identity must be nonempty")
      Txn.raiseIf (request.unwritable = true) tooManyDigits
      let rows ← Txn.ofExcept (insertRow "operations.id" true t.operations
        { id := operationId, stage := .inference, request := request })
      Txn.modify fun t => { t with operations := rows }
      Txn.forEach (insertRequirement operationId) guards
      reserve operationId .inference
      insertOutputReservation operationId output

/-- The operation row changed by `f`. -/
def updateOperation (id : String) (f : OperationRow → OperationRow)
    (hf : ∀ row, (f row).id = row.id := by intro row; rfl) : Body Unit :=
  Txn.modify fun t => { t with operations := t.operations.update id f hf }

/-! ## Evidence of one operation -/

/-- `record_guard` -/
def SQLiteRun.recordGuard (operationId guardId : String) (decision : Dyn GuardDecision) :
    StoreM Unit :=
  match decision with
  | .other => Method.raise (contractError "Guard must return GuardDecision")
  | .typed decision => transaction fun _ => do
    requireOpen
    let t ← Txn.get
    let _ ← Txn.ofExcept (t.operation operationId (some .proposed))
    Txn.raiseIf (¬ t.guardRequirements.Has (operationId, guardId))
      (contractError "Guard decision was not required for this operation")
    let rows ← Txn.ofExcept (insertRow "guard_decisions.operation_id, guard_decisions.guard_id"
      (decide (t.guardRequirements.Has (operationId, guardId))) t.guardDecisions
      ⟨operationId, guardId, decision.toDecisionFields⟩)
    Txn.modify fun t => { t with guardDecisions := rows }

/-- `record_event` -/
def SQLiteRun.recordEvent (event : Dyn Event) : StoreM Unit :=
  match event with
  | .other => Method.raise (contractError "Lifecycle event requires a stage and textual detail")
  | .typed event =>
    if event.stage = "" then
      Method.raise (contractError "Lifecycle event requires a stage and textual detail")
    else transaction fun _ => do
      requireOpen
      let t ← Txn.get
      let _ ← Txn.ofExcept (t.operation event.stepId none)
      Txn.modify fun t => { t with
        lifecycleEvents := t.lifecycleEvents ++ [⟨event.stepId, event.stage, event.detail⟩] }

/-- The reservation was breached by the report: another kind, or more tokens. -/
def Breaches (usage : UsageFields) (reserved : ReservationFields) : Prop :=
  usage.kind ≠ reserved.kind ∨ ∃ n, usage.outputTokens = some n ∧ reserved.tokens < n

instance (usage : UsageFields) (reserved : ReservationFields) :
    Decidable (Breaches usage reserved) :=
  match h : usage.outputTokens with
  | none => decidable_of_iff (usage.kind ≠ reserved.kind) (by simp [Breaches, h])
  | some n => decidable_of_iff (usage.kind ≠ reserved.kind ∨ reserved.tokens < n)
      (by simp [Breaches, h])

/-- `record_usage`. The report commits first, and the breach raises after. -/
def SQLiteRun.recordUsage (operationId : String) (usage : Dyn InferenceUsage) : StoreM Unit :=
  match usage with
  | .other => Method.raise (contractError "Inference accounting must be an InferenceUsage")
  | .typed usage => do
    transaction fun _ => do
      requireOpen
      let t ← Txn.get
      let _ ← Txn.ofExcept (t.operation operationId (some .inference))
      let rows ← Txn.ofExcept (insertRow "inference_usage.operation_id"
        (t.operation? operationId).isSome t.inferenceUsage ⟨operationId, usage.toUsageFields⟩)
      Txn.modify fun t => { t with inferenceUsage := rows }
    let reserved ← query fun t => .ok (t.outputReservations.lookup operationId)
    match reserved with
    | none => pure ()
    | some reserved =>
      Method.raiseIf (Breaches usage.toUsageFields reserved.reservation) (contractError
        "Inference output reservation was breached; usage retained, dispatch refused")

/-- `proposed` -/
def SQLiteRun.proposed (operationId : String) (call : Dyn ToolCall) : StoreM Unit :=
  match call with
  | .other => Method.raise
      (contractError "Inference must return a ToolCall with string name and arguments")
  | .typed call => transaction fun _ => do
    requireOpen
    let t ← Txn.get
    let _ ← Txn.ofExcept (t.operation operationId (some .inference))
    updateOperation operationId fun row => { row with stage := .proposed, call := some call }

/-! ## Dispatch and publication -/

/-- The loop of `dispatch` over the required guards of an operation. SQL
leaves the order of the rows open; only which refusal comes first depends
on it. -/
def checkGuards (decisions : Table GuardDecisionRow.key) :
    List GuardRequirementRow → Except Exn Unit
  | [] => .ok ()
  | row :: rest =>
    match decisions.lookup row.key with
    | none => .error (dispatchDenied
        ("Required guard " ++ repr row.guardId ++ " has no recorded decision"))
    | some decision => do
      refusal decision.payload.postInit
      if ¬ decision.payload.allowed then
        .error (dispatchDenied ("Guard " ++ repr row.guardId ++ " refused: " ++
          decision.payload.reason))
      else checkGuards decisions rest

/-- The required guards of an operation. -/
def Tables.requirements (t : Tables) (operationId : String) : List GuardRequirementRow :=
  t.guardRequirements.rows.filter (fun r => decide (r.operationId = operationId))

/-- `dispatch` -/
def SQLiteRun.dispatch (clock : Clock) (operationId : String) (observation externalAction : Bool) :
    StoreM Unit :=
  transaction fun handle => do
    requireTime handle clock
    let t ← Txn.get
    let _ ← Txn.ofExcept (t.operation operationId (some .proposed))
    Txn.ofExcept (checkGuards t.guardDecisions (t.requirements operationId))
    reserve operationId .tool
    if externalAction then reserve operationId .external else pure ()
    updateOperation operationId fun row =>
      { row with stage := .dispatched, observation := observation }

/-- `returned` -/
def SQLiteRun.returned (operationId : String) (output : Dyn String) : StoreM Candidate :=
  match output with
  | .other => Method.raise (contractError "Tool output must be a string")
  | .typed output => do
    transaction fun _ => do
      let t ← Txn.get
      let _ ← Txn.ofExcept (t.operation operationId (some .dispatched))
      updateOperation operationId fun row => { row with stage := .returned, output := some output }
    query fun t => do
      let row ← t.operation operationId none
      row.candidate

open JsonText (Tree)
open Text (ofString)

/-- A string or `None`. -/
def optionTree : Option String → Tree
  | none => .null
  | some s => .str (ofString s)

/-- `asdict` of an evaluation that passed its checks, with the keys sorted. -/
def Evaluation.json (e : Evaluation) : Tree :=
  .obj [
    (ofString "candidate", .obj [
      (ofString "base", .obj [(ofString "revision", .int e.candidate.base.revision),
        (ofString "value", .str (ofString e.candidate.base.value))]),
      (ofString "call", .obj [(ofString "arguments", .str (ofString e.candidate.call.arguments)),
        (ofString "name", .str (ofString e.candidate.call.name))]),
      (ofString "id", .str (ofString e.candidate.id)),
      (ofString "output", optionTree e.candidate.output)]),
    (ofString "evaluator", text e.evaluator),
    (ofString "reason", text e.reason),
    (ofString "scope", text e.scope),
    (ofString "state_update", match e.stateUpdate with
      | none => .null
      | some update => text update),
    (ofString "verdict", match e.verdict with
      | .typed .satisfied => .str (ofString "satisfied")
      | .typed .failed => .str (ofString "failed")
      | .typed .unavailable => .str (ofString "unavailable")
      | .other => .null)]
where
  text : Dyn String → Tree
    | .typed s => .str (ofString s)
    | .other => .null

/-- The digest of an evaluation row. -/
def Evaluation.digest (e : Evaluation) : String :=
  Sha256.hexdigest ((JsonText.render JsonText.compact e.json).map Fin.val)

/-- The value that an evaluation publishes, if it publishes one. -/
def Evaluation.published (e : Evaluation) : Option String :=
  match e.verdict, e.stateUpdate with
  | .typed .satisfied, some (.typed value) => some value
  | _, _ => none

def insertEvaluation (row : EvaluationRow) : Body Unit := do
  let t ← Txn.get
  let rows ← Txn.ofExcept (insertRow "evaluations.operation_id"
    (t.operation? row.operationId).isSome t.evaluations row)
  Txn.modify fun t => { t with evaluations := rows }

def insertCommit (row : CommitRow) : Body Unit := do
  let t ← Txn.get
  Txn.raiseIf (row.revision ≤ 0) (integrityError "CHECK constraint failed: revision>0")
  Txn.raiseIf (∃ r ∈ t.commits.rows, r.operationId = row.operationId)
    (integrityError "UNIQUE constraint failed: commits.operation_id")
  let rows ← Txn.ofExcept (insertRow "commits.revision"
    (decide (t.evaluations.Has row.operationId)) t.commits row)
  Txn.modify fun t => { t with commits := rows }

/-- The commit of `complete`, and the state after it. -/
def insertPublished (current : State) (candidate : Candidate) (evaluation : Evaluation) :
    Body State :=
  match evaluation.published with
  | none => pure current
  | some value => do
    insertCommit ⟨current.revision + 1, candidate.id, candidate.base.revision, value,
      evaluation.digest⟩
    return ⟨current.revision + 1, value⟩

/-- `complete` -/
def SQLiteRun.complete (clock : Clock) (evaluation : Dyn Evaluation) : StoreM StepResult :=
  transaction fun handle => do
    requireTime handle clock
    match evaluation with
    | .other => Txn.raise (otherError "AttributeError" "object has no attribute 'candidate'")
    | .typed evaluation => do
      let t ← Txn.get
      let row ← Txn.ofExcept (t.operation evaluation.candidate.id (some .returned))
      let candidate ← Txn.ofExcept row.candidate
      Txn.ofExcept (checkEvaluation candidate evaluation)
      let current := t.read
      Txn.raiseIf (current ≠ candidate.base)
        (contractError "Stale candidate base; publication refused")
      insertEvaluation ⟨candidate.id, evaluation, evaluation.digest⟩
      let state ← insertPublished current candidate evaluation
      updateOperation candidate.id fun row => { row with stage := .completed }
      return ⟨candidate, evaluation, state, evaluation.published.isSome⟩

/-- The stage that `failed` writes. -/
def Stage.afterFailure (stage : Stage) : Stage :=
  if stage = .inference ∨ stage = .proposed then .failed else stage

/-- `failed`. Only an operation that was never dispatched ends. -/
def SQLiteRun.failed (operationId error : String) : StoreM Unit :=
  transaction fun _ => do
    let t ← Txn.get
    let row ← Txn.ofExcept (t.operation operationId none)
    let stage := row.stage.afterFailure
    updateOperation operationId fun row => { row with stage := stage, error := some error }

/-- `abandon_undispatched` -/
def SQLiteRun.abandonUndispatched (operationId : String) : StoreM Unit :=
  transaction fun _ => do
    requireOpen
    let t ← Txn.get
    let row ← Txn.ofExcept (t.operation operationId none)
    Txn.raiseIf (¬ (row.stage = .inference ∨ row.stage = .proposed))
      (contractError "Only an undispatched operation may be abandoned")
    updateOperation operationId fun row =>
      { row with stage := .failed, error := some "recovered before dispatch" }

end FlynnAgents
