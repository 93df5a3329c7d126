-- The tables of a run file, schema 5. A text column that holds JSON holds
-- the record here that its text decodes to. The rows of a table stand in
-- the order of their rowid, which an insert only ever extends.
import FlynnAgents.Contracts

namespace FlynnAgents

open Relational

def APPLICATION_ID : Nat := 0x464C594E

def SCHEMA_VERSION : Nat := 5

/-! ## The rows -/

/-- The single row of the table `run`. -/
structure RunRow where
  id : String
  initialState : String
  initialObservation : Option String
  limits : LimitFields
  deadline : Option ℚ
  lastClock : ℚ
  outcome : Option String
  deriving DecidableEq

structure OperationRow where
  id : String
  stage : Stage
  request : InferenceRequest
  call : Option ToolCall := none
  observation : Bool := false
  output : Option String := none
  error : Option String := none
  deriving DecidableEq, Repr

inductive ReservationKind where
  | inference
  | tool
  | external
  deriving DecidableEq, Repr

def ReservationKind.text : ReservationKind → String
  | .inference => "inference"
  | .tool => "tool"
  | .external => "external"

structure ReservationRow where
  operationId : String
  kind : ReservationKind
  deriving DecidableEq, Repr

/-- `UNIQUE(operation_id,kind)` -/
def ReservationRow.key (r : ReservationRow) : String × ReservationKind := (r.operationId, r.kind)

structure EvaluationRow where
  operationId : String
  payload : Evaluation
  digest : String
  deriving DecidableEq, Repr

structure CommitRow where
  revision : Int
  operationId : String
  baseRevision : Int
  value : String
  evaluationDigest : String
  deriving DecidableEq, Repr

structure UsageRow where
  operationId : String
  payload : UsageFields
  deriving DecidableEq, Repr

structure OutputReservationRow where
  operationId : String
  reservation : ReservationFields
  deriving DecidableEq, Repr

structure GuardRequirementRow where
  operationId : String
  guardId : String
  deriving DecidableEq, Repr

def GuardRequirementRow.key (r : GuardRequirementRow) : String × String :=
  (r.operationId, r.guardId)

structure GuardDecisionRow where
  operationId : String
  guardId : String
  payload : DecisionFields
  deriving DecidableEq, Repr

def GuardDecisionRow.key (r : GuardDecisionRow) : String × String := (r.operationId, r.guardId)

structure EventRow where
  operationId : String
  stage : String
  detail : String
  deriving DecidableEq, Repr

/-! ## The file -/

structure Tables where
  applicationId : Nat
  userVersion : Nat
  run : RunRow
  operations : Table OperationRow.id
  reservations : Table ReservationRow.key
  evaluations : Table EvaluationRow.operationId
  commits : Table CommitRow.revision
  inferenceUsage : Table UsageRow.operationId
  outputReservations : Table OutputReservationRow.operationId
  guardRequirements : Table GuardRequirementRow.key
  guardDecisions : Table GuardDecisionRow.key
  lifecycleEvents : List EventRow
  deriving DecidableEq

/-- The file that `create` writes. -/
def Tables.fresh (run : RunRow) : Tables where
  applicationId := APPLICATION_ID
  userVersion := SCHEMA_VERSION
  run := run
  operations := .empty
  reservations := .empty
  evaluations := .empty
  commits := .empty
  inferenceUsage := .empty
  outputReservations := .empty
  guardRequirements := .empty
  guardDecisions := .empty
  lifecycleEvents := []

/-- `SELECT * FROM operations WHERE id=?` -/
def Tables.operation? (t : Tables) (id : String) : Option OperationRow := t.operations.lookup id

/-! ## Inserts

A statement that breaks a key or a foreign key raises `IntegrityError`. -/

def integrityError (message : String) : Exn := otherError "IntegrityError" message

/-- The table with one more row. `parent` says that the foreign key finds its
row. -/
def insertRow {ρ κ : Type} {key : ρ → κ} [DecidableEq κ] (table : String) (parent : Bool)
    (t : Table key) (r : ρ) : Except Exn (Table key) :=
  match t.insert r with
  | none => .error (integrityError ("UNIQUE constraint failed: " ++ table))
  | some u => if parent then .ok u else .error (integrityError "FOREIGN KEY constraint failed")

theorem insertRow_ok {ρ κ : Type} {key : ρ → κ} [DecidableEq κ] {table : String} {parent : Bool}
    {t u : Table key} {r : ρ} :
    insertRow table parent t r = .ok u ↔ t.insert r = some u ∧ parent = true := by
  unfold insertRow
  cases t.insert r <;> cases parent <;> simp

end FlynnAgents
