-- The audit of a run (sqlite_run.py, `records` and `inspect`): what a reader who does not own
-- the run sees, in a journal of any schema and at any moment of what the processes do.
import FlynnAgents.OwnershipLaws
import FlynnAgents.History

namespace FlynnAgents

open Relational

/-! ## A journal of any schema -/

/-- What stands at the path of a journal: the ids, and the rows of each table that its schema
has, in the order of their rowid. -/
structure Journal (ρ : Type) where
  applicationId : Nat
  userVersion : Nat
  table : String → Option (List ρ)

/-- The dict that `records` and `inspect` give. -/
abbrev Export (ρ : Type) := List (String × List ρ)

variable {ρ : Type}

/-- The tables that `inspect` reads. -/
def auditTables (version : Nat) : List String :=
  ["run", "operations", "reservations", "evaluations", "commits"] ++
    (if 3 ≤ version then ["inference_usage"] else []) ++
    (if 4 ≤ version then ["output_reservations"] else []) ++
    if 5 ≤ version then ["guard_requirements", "guard_decisions", "lifecycle_events"] else []

/-- `SELECT * FROM table ORDER BY rowid` -/
def Journal.select (journal : Journal ρ) (name : String) : Except Exn (String × List ρ) :=
  match journal.table name with
  | some rows => .ok (name, rows)
  | none => .error (otherError "OperationalError" ("no such table: " ++ name))

/-- `records.setdefault(table, [])` -/
def Export.setDefault (records : Export ρ) (name : String) : Export ρ :=
  if name ∈ records.map Prod.fst then records else records ++ [(name, [])]

/-- `inspect`, of an open database -/
def Journal.inspect (journal : Journal ρ) : Except Exn (Export ρ) :=
  if journal.applicationId ≠ APPLICATION_ID ∨ journal.userVersion ∉ [2, 3, 4, SCHEMA_VERSION] then
    .error (contractError ("Unsupported Flynn audit application/schema " ++
      toString journal.applicationId ++ "/" ++ toString journal.userVersion))
  else do
    let records ← (auditTables journal.userVersion).mapM journal.select
    return ["inference_usage", "output_reservations", "guard_requirements", "guard_decisions",
      "lifecycle_events"].foldl Export.setDefault records

/-- The tables of `records`. -/
def recordTables : List String :=
  ["run", "operations", "reservations", "evaluations", "commits", "inference_usage",
    "output_reservations", "guard_requirements", "guard_decisions", "lifecycle_events"]

/-- The rows of a table that the schema has, and no rows of one that it lacks. -/
def Journal.rows (journal : Journal ρ) (name : String) : List ρ :=
  if name ∈ auditTables journal.userVersion then (journal.table name).getD [] else []

theorem select_all {journal : Journal ρ} {names : List String} {records : Export ρ}
    (h : names.mapM journal.select = .ok records) :
    records = names.map fun name => (name, (journal.table name).getD []) := by
  induction names generalizing records with
  | nil =>
    cases h
    rfl
  | cons name names ih =>
    rw [List.mapM_cons] at h
    unfold Journal.select at h
    cases hrows : journal.table name with
    | none =>
      rw [hrows] at h
      cases h
    | some rows =>
      rw [hrows] at h
      cases hrest : names.mapM journal.select with
      | error e =>
        unfold Journal.select at hrest
        rw [hrest] at h
        cases h
      | ok rest =>
        have hrest' := ih hrest
        unfold Journal.select at hrest
        rw [hrest] at h
        cases h
        rw [List.map_cons, hrows, ← hrest']
        rfl

/-- Whatever the schema, the audit has the ten tables of `records`, in their order. -/
theorem inspect_tables {journal : Journal ρ} {records : Export ρ}
    (h : journal.inspect = .ok records) :
    records = recordTables.map fun name => (name, journal.rows name) := by
  unfold Journal.inspect at h
  split at h
  · cases h
  rename_i hsupported
  obtain ⟨-, hversion⟩ := not_or.mp hsupported
  rw [not_not] at hversion
  cases hselect : (auditTables journal.userVersion).mapM journal.select with
  | error e =>
    rw [hselect] at h
    cases h
  | ok found =>
    rw [hselect] at h
    have hfound := select_all hselect
    cases h
    subst hfound
    simp only [List.mem_cons, List.not_mem_nil, or_false] at hversion
    rcases hversion with hv | hv | hv | hv <;>
      simp [Journal.rows, auditTables, recordTables, Export.setDefault, SCHEMA_VERSION, hv]

/-! ## The journal of a run -/

/-- A row of one of the tables. -/
inductive Row where
  | run (row : RunRow)
  | operation (row : OperationRow)
  | reservation (row : ReservationRow)
  | evaluation (row : EvaluationRow)
  | commit (row : CommitRow)
  | usage (row : UsageRow)
  | outputReservation (row : OutputReservationRow)
  | guardRequirement (row : GuardRequirementRow)
  | guardDecision (row : GuardDecisionRow)
  | lifecycleEvent (row : EventRow)

def Row.operation? : Row → Option OperationRow
  | .operation row => some row
  | _ => none

def Row.usage? : Row → Option UsageRow
  | .usage row => some row
  | _ => none

/-- `records` -/
def Tables.records (t : Tables) : Export Row :=
  [("run", [.run t.run]),
    ("operations", t.operations.rows.map .operation),
    ("reservations", t.reservations.rows.map .reservation),
    ("evaluations", t.evaluations.rows.map .evaluation),
    ("commits", t.commits.rows.map .commit),
    ("inference_usage", t.inferenceUsage.rows.map .usage),
    ("output_reservations", t.outputReservations.rows.map .outputReservation),
    ("guard_requirements", t.guardRequirements.rows.map .guardRequirement),
    ("guard_decisions", t.guardDecisions.rows.map .guardDecision),
    ("lifecycle_events", t.lifecycleEvents.map .lifecycleEvent)]

def Tables.journal (t : Tables) : Journal Row where
  applicationId := t.applicationId
  userVersion := t.userVersion
  table name := t.records.lookup name

/-- `summarize_usage`, of what `inspect` gave -/
def Export.summary (records : Export Row) : Except Exn UsageSummary :=
  summarizeUsage (((records.lookup "operations").getD []).filterMap Row.operation?)
    (((records.lookup "inference_usage").getD []).filterMap Row.usage?)

variable {t : Tables}

theorem inspect_records
    (h : t.applicationId = APPLICATION_ID ∧ t.userVersion = SCHEMA_VERSION) :
    t.journal.inspect = .ok t.records := by
  have hversion : t.journal.userVersion = 5 := h.2
  have hselect : (auditTables 5).mapM t.journal.select = .ok t.records := by
    simp [auditTables, Journal.select, Tables.journal, Tables.records, List.lookup]
    rfl
  have hsupported : ¬ (t.journal.applicationId ≠ APPLICATION_ID ∨
      t.journal.userVersion ∉ [2, 3, 4, SCHEMA_VERSION]) := by
    rw [hversion]
    exact not_or.mpr ⟨not_not.mpr h.1, by decide⟩
  unfold Journal.inspect
  rw [if_neg hsupported, hversion, hselect]
  rfl

/-- The invocations of a journal of schema 2 stay unreported. -/
theorem old_invocations_stay_unreported {journal : Journal Row} {records : Export Row}
    (hv : journal.userVersion = 2) (h : journal.inspect = .ok records) :
    ∃ n : Nat, records.summary = .ok {
      invocations := n
      modelRequests := 0
      scriptedInvocations := 0
      unknownUsageInvocations := 0
      unreportedInvocations := n
      knownInputTokens := 0
      knownOutputTokens := 0
      usageComplete := n == 0 } := by
  have husage : (records.lookup "inference_usage").getD [] = [] := by
    rw [inspect_tables h]
    simp [recordTables, List.lookup, Journal.rows, auditTables, hv]
  unfold Export.summary
  rw [husage]
  refine ⟨((((records.lookup "operations").getD []).filterMap Row.operation?).map
    OperationRow.id).dedup.length, ?_⟩
  simp [summarizeUsage, pure, Except.pure, bind, Except.bind]

/-! ## Any moment -/

/-- `inspect` of the path of a run. The database may be locked when it reads, and what
reads only may not roll a journal back. -/
def Host.inspect (w : Host) (locked : Bool) : Except Exn (Export Row) :=
  match w.file with
  | none => .error (otherError "OperationalError" "unable to open database file")
  | some content =>
    if locked then .error (otherError "OperationalError" "database is locked")
    else if w.journal then
      .error (otherError "OperationalError" "attempt to write a readonly database")
    else ((content.map Tables.journal).getD ⟨0, 0, fun _ => none⟩).inspect

variable {w : Host} {a : SQLiteRun}

theorem inspect_committed (hfile : w.file = some (some t)) (hjournal : w.journal = false)
    (h : t.applicationId = APPLICATION_ID ∧ t.userVersion = SCHEMA_VERSION) :
    w.inspect false = .ok t.records := by
  unfold Host.inspect
  rw [hfile, hjournal]
  exact inspect_records h

theorem Mirror.inspect (h : Mirror w a) (hjournal : w.journal = false) :
    w.inspect false = .ok a.db.records :=
  inspect_committed h.file hjournal h.identified

/-- One owner does what the processes go on to do. -/
theorem Mirror.after (hx : Exclusive w) (h : Mirror w a) (deeds : List Deed) :
    ∃ calls, Mirror (w.after deeds) (a.after calls) := by
  induction deeds generalizing w a with
  | nil => exact ⟨[], h⟩
  | cons deed deeds ih =>
    obtain ⟨calls, hs, -⟩ := h.step hx deed
    obtain ⟨more, hmore⟩ := ih (hx.step deed) hs
    refine ⟨calls ++ more, ?_⟩
    rw [SQLiteRun.after, Machines.after_append]
    exact hmore

end FlynnAgents
