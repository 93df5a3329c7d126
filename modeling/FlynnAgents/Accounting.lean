-- What output_budget.py and accounting.py derive from the rows: the output
-- budget of a limited run and the summary of the usage reports.
import FlynnAgents.Schema

namespace FlynnAgents

open Relational

/-! ## The output budget -/

/-- The running totals of the loop in `output_budget`. -/
structure Tally where
  spent : Int := 0
  held : Int := 0
  unresolved : Nat := 0
  breached : Nat := 0
  deriving DecidableEq, Repr

/-- One turn of the loop, for a reservation and the report of its operation. -/
def Tally.add (t : Tally) (reservation : ReservationFields) (usage : Option UsageFields) : Tally :=
  match usage with
  | some u =>
    if u.kind ≠ reservation.kind then
      { t with
        breached := t.breached + 1
        held := t.held + reservation.tokens
        spent := t.spent + u.outputTokens.getD 0 }
    else if reservation.kind = .scripted then t
    else match u.outputTokens with
      | none => { t with held := t.held + reservation.tokens, unresolved := t.unresolved + 1 }
      | some n =>
        { t with
          spent := t.spent + n
          breached := t.breached + if reservation.tokens < n then 1 else 0 }
  | none =>
    if reservation.kind = .scripted then t
    else { t with held := t.held + reservation.tokens, unresolved := t.unresolved + 1 }

/-- The record of a report, built again from its row. -/
def loadUsage : Option UsageRow → Except Exn (Option UsageFields)
  | none => .ok none
  | some row => do
    refusal row.payload.postInit
    return some row.payload

/-- One turn of the loop, with the two records built again from their rows. -/
def tallyRow (reports : Table UsageRow.operationId) (t : Tally) (row : OutputReservationRow) :
    Except Exn Tally := do
  refusal row.reservation.postInit
  let usage ← loadUsage (reports.lookup row.operationId)
  return t.add row.reservation usage

/-- `output_budget`, of a run with a limit -/
def outputBudget (limit : Int) (reports : Table UsageRow.operationId)
    (reservations : List OutputReservationRow) : Except Exn OutputBudget := do
  let t ← reservations.foldlM (tallyRow reports) {}
  return {
    limit := some limit
    available := some (max 0 (limit - t.spent - t.held))
    spent := t.spent
    held := t.held
    unresolved := t.unresolved
    breached := t.breached }

/-- `SQLiteRun.output_budget` -/
def Tables.outputBudget (t : Tables) : Except Exn OutputBudget :=
  match t.run.limits.postInit with
  | some _ => .error (contractError
      "Invalid durable run limits; preserve this journal and create a new run")
  | none =>
    match t.run.limits.outputTokens with
    | none => .ok { limit := none, available := none }
    | some limit => FlynnAgents.outputBudget limit t.inferenceUsage t.outputReservations.rows

/-! ## The summary of the reports -/

structure UsageSummary where
  invocations : Nat
  modelRequests : Nat
  scriptedInvocations : Nat
  unknownUsageInvocations : Nat
  unreportedInvocations : Nat
  knownInputTokens : Int
  knownOutputTokens : Int
  usageComplete : Bool
  deriving DecidableEq, Repr

/-- One turn of the loop that collects the reports. -/
def collectReport (operations : List String) (reports : List (String × UsageFields))
    (row : UsageRow) : Except Exn (List (String × UsageFields)) :=
  if row.operationId ∉ operations ∨ row.operationId ∈ reports.map Prod.fst then
    .error (contractError "Usage report must bind exactly one existing operation")
  else do
    refusal row.payload.postInit
    return reports ++ [(row.operationId, row.payload)]

/-- `summarize_usage` -/
def summarizeUsage (operationRows : List OperationRow) (usageRows : List UsageRow) :
    Except Exn UsageSummary := do
  let operations := (operationRows.map OperationRow.id).dedup
  let reports ← usageRows.foldlM (collectReport operations) []
  let values := reports.map Prod.snd
  let unknown := values.countP (fun u => decide (u.status = .unknown))
  let unreported := (operations.filter (fun id => decide (id ∉ reports.map Prod.fst))).length
  return {
    invocations := operations.length
    modelRequests := values.countP (fun u => u.requestStarted)
    scriptedInvocations := values.countP (fun u => decide (u.kind = .scripted))
    unknownUsageInvocations := unknown
    unreportedInvocations := unreported
    knownInputTokens := (values.map (fun u => u.inputTokens.getD 0)).sum
    knownOutputTokens := (values.map (fun u => u.outputTokens.getD 0)).sum
    usageComplete := unknown == 0 && unreported == 0 }

/-- `SQLiteRun.usage_summary` -/
def Tables.usageSummary (t : Tables) : Except Exn UsageSummary :=
  summarizeUsage t.operations.rows t.inferenceUsage.rows

end FlynnAgents
