-- What the readers of the store make of the text columns (sqlite_run.py, accounting.py,
-- output_budget.py): they see the records of the rows.
import FlynnAgents.Records
import FlynnAgents.StoreSteps

namespace FlynnAgents

open Relational
open Text (ofString)

/-! ## The columns -/

/-- The columns of an operation row that `_candidate` and `summarize_usage` read. -/
structure OperationColumns where
  id : String
  request : Text
  call : Option Text
  output : Option String

structure UsageColumns where
  operationId : String
  payload : Text

structure DecisionColumns where
  operationId : String
  guardId : String
  payload : Text

def DecisionColumns.key (d : DecisionColumns) : String × String := (d.operationId, d.guardId)

/-- The columns of a file that hold JSON, with the ones that they are read with. -/
structure Columns where
  limits : Text
  operations : List OperationColumns
  inferenceUsage : List UsageColumns
  outputReservations : List OutputReservationRow
  guardDecisions : List DecisionColumns

/-! ## The readers -/

/-- `json.loads` -/
def loadsColumn (text : Text) : Except Exn (Value Text) :=
  match loads text with
  | some v => .ok v
  | none => .error decodeError

/-- What a constructor raises for arguments that are no record. Its text is left out. -/
def argumentError : Exn := otherError "TypeError" "unexpected arguments"

/-- `cls(**d)` -/
def construct {α : Type} (c : Codec α) (v : Value Text) : Except Exn α :=
  match c.decode v with
  | some a => .ok a
  | none => .error argumentError

/-- `d[key]` -/
def itemOf (v : Value Text) (key : String) : Except Exn (Value Text) :=
  match v.asDict.bind (Value.get (ofString key)) with
  | some item => .ok item
  | none => .error (otherError "KeyError" key)

/-- `_candidate` -/
def OperationColumns.candidate (row : OperationColumns) : Except Exn Candidate := do
  let request ← loadsColumn row.request
  let call ← match row.call with
    | some text => loadsColumn text
    | none =>
      .error (otherError "TypeError"
        "the JSON object must be str, bytes or bytearray, not NoneType")
  let base ← construct State.codec (← itemOf request "base")
  let call ← construct ToolCall.codec call
  return ⟨row.id, base, call, row.output⟩

/-- `limits[field]` in `remaining` -/
def Columns.limitOf (x : Columns) (kind : ReservationKind) : Except Exn Int := do
  let limits ← loadsColumn x.limits
  let limit ← itemOf limits (match kind with
    | .inference => "inference_calls"
    | .tool => "tool_calls"
    | .external => "external_actions")
  construct Codec.int limit

/-- `InferenceUsage(**(raw | {"status": UsageStatus(raw["status"])}))` -/
def usageOf (raw : Value Text) : Except Exn UsageFields := do
  let usage ← construct UsageFields.codec raw
  refusal usage.postInit
  return usage

/-- `{row["operation_id"]: json.loads(row["payload"]) for row in records["inference_usage"]}`.
The operation is the primary key. -/
def reportsOf (rows : List UsageColumns) : Except Exn (List (String × Value Text)) :=
  rows.mapM fun row => do
    let raw ← loadsColumn row.payload
    return (row.operationId, raw)

/-- One turn of the loop in `output_budget`. -/
def tallyColumns (reports : List (String × Value Text)) (t : Tally) (row : OutputReservationRow) :
    Except Exn Tally := do
  refusal row.reservation.postInit
  let usage ← match Value.get row.operationId reports with
    | none => pure none
    | some raw => do
      let usage ← usageOf raw
      pure (some usage)
  return t.add row.reservation usage

/-- `SQLiteRun.output_budget` -/
def Columns.outputBudget (x : Columns) : Except Exn OutputBudget := do
  let limits ← loadsColumn x.limits
  if (limits.asDict.bind (Value.get (ofString "output_tokens"))).isNone then
    .error (contractError ("Schema-4 run limits require output_tokens; " ++
      "preserve this journal and create a new run"))
  else match LimitRecord.codec.decode limits with
    | none => .error (contractError
        "Invalid durable run limits; preserve this journal and create a new run")
    | some configured =>
      if configured.fields.postInit ≠ none then
        .error (contractError
          "Invalid durable run limits; preserve this journal and create a new run")
      else match configured.outputTokens with
        | none => .ok { limit := none, available := none }
        | some limit => do
          let reports ← reportsOf x.inferenceUsage
          let t ← x.outputReservations.foldlM (tallyColumns reports) {}
          return {
            limit := some limit
            available := some (max 0 (limit - t.spent - t.held))
            spent := t.spent
            held := t.held
            unresolved := t.unresolved
            breached := t.breached }

/-- One turn of the loop in `summarize_usage`. -/
def collectColumns (operations : List String) (reports : List (String × UsageFields))
    (row : UsageColumns) : Except Exn (List (String × UsageFields)) :=
  if row.operationId ∉ operations ∨ row.operationId ∈ reports.map Prod.fst then
    .error (contractError "Usage report must bind exactly one existing operation")
  else do
    let usage ← usageOf (← loadsColumn row.payload)
    return reports ++ [(row.operationId, usage)]

/-- `summarize_usage` -/
def Columns.usageSummary (x : Columns) : Except Exn UsageSummary := do
  let operations := (x.operations.map OperationColumns.id).dedup
  let reports ← x.inferenceUsage.foldlM (collectColumns operations) []
  let values := reports.map Prod.snd
  let unknown := values.countP (fun u => decide (u.status = .unknown))
  let unreported := (operations.filter (fun id => decide (id ∉ reports.map Prod.fst))).length
  return {
    invocations := operations.length
    modelRequests := values.countP (fun u => u.requestStarted)
    scriptedInvocations := values.countP (fun u => decide (u.kind = .scripted))
    unknownUsageInvocations := unknown
    unreportedInvocations := unreported
    knownInputTokens := (values.map (fun u => u.inputTokens.getD 0)).sum
    knownOutputTokens := (values.map (fun u => u.outputTokens.getD 0)).sum
    usageComplete := unknown == 0 && unreported == 0 }

/-- The loop of `dispatch` over the required guards. -/
def checkDecisions (decisions : List DecisionColumns) : List GuardRequirementRow → Except Exn Unit
  | [] => .ok ()
  | row :: rest =>
    match decisions.find? (fun d => decide (d.key = row.key)) with
    | none => .error (dispatchDenied
        ("Required guard " ++ repr row.guardId ++ " has no recorded decision"))
    | some found => do
      let decision ← construct DecisionFields.codec (← loadsColumn found.payload)
      refusal decision.postInit
      if ¬ decision.allowed then
        .error (dispatchDenied ("Guard " ++ repr row.guardId ++ " refused: " ++ decision.reason))
      else checkDecisions decisions rest

/-! ## The columns of a file -/

/-- The texts that `_json(asdict(x))` writes of the records of the rows. -/
structure Columns.Of (x : Columns) (t : Tables) : Prop where
  limits : ∃ record : LimitRecord, record.fields = t.run.limits ∧
    LimitRecord.codec.text record = some x.limits
  operations : List.Forall₂ (fun columns row => columns.id = row.id ∧
    InferenceRequest.codec.text row.request = some columns.request ∧
    row.call.bind ToolCall.codec.text = columns.call ∧ columns.call.isSome = row.call.isSome ∧
    columns.output = row.output) x.operations t.operations.rows
  inferenceUsage : List.Forall₂ (fun columns row => columns.operationId = row.operationId ∧
    UsageFields.codec.text row.payload = some columns.payload)
      x.inferenceUsage t.inferenceUsage.rows
  outputReservations : x.outputReservations = t.outputReservations.rows
  guardDecisions : List.Forall₂ (fun columns row => columns.key = row.key ∧
    DecisionFields.codec.text row.payload = some columns.payload) x.guardDecisions
      t.guardDecisions.rows

section

variable {x : Columns} {t : Tables}

theorem loadsColumn_text {α : Type} {c : Codec α} {a : α} {text : Text}
    (h : c.text a = some text) : loadsColumn text = .ok (c.encode a).sorted := by
  unfold loadsColumn
  rw [Codec.loads_text h]

theorem construct_sorted {α : Type} (c : Codec α) (a : α) :
    construct c (c.encode a).sorted = .ok a := by
  unfold construct
  rw [c.decoded]

/-- What stands under a key of a record that was written and read again. -/
theorem get_record {items : List (String × Value Text)} (h : (items.map Prod.fst).Nodup)
    (key : String) : (dictValue items).sorted.asDict.bind (Value.get (ofString key)) =
      (Value.get key items).map Value.sorted := by
  have hkeys : ((items.map fun f => (ofString f.1, f.2)).map Prod.fst).Nodup := by
    rw [dictValue_keys]
    exact ofString_nodup h
  unfold dictValue
  rw [Value.sorted]
  exact (get_sorted hkeys (ofString key)).trans (congrArg _ (get_ofString key items))

theorem itemOf_record {items : List (String × Value Text)} (h : (items.map Prod.fst).Nodup)
    {key : String} {v : Value Text} (hv : Value.get key items = some v) :
    itemOf (dictValue items).sorted key = .ok v.sorted := by
  unfold itemOf
  rw [get_record h, hv]
  rfl

theorem request_keys (request : InferenceRequest) : (request.items.map Prod.fst).Nodup :=
  show ["objective", "base", "allowed_tools", "observation", "tools", "images",
    "max_output_tokens"].Nodup by decide

theorem limit_keys (l : LimitRecord) : (l.items.map Prod.fst).Nodup :=
  show ["inference_calls", "tool_calls", "external_actions", "wall_time_seconds",
    "output_tokens"].Nodup by decide

/-! ## Each reader agrees -/

/-- The candidate of an operation is the one of its row. -/
theorem candidate_columns {columns : OperationColumns} {row : OperationRow}
    (hid : columns.id = row.id)
    (hrequest : InferenceRequest.codec.text row.request = some columns.request)
    (hcall : row.call.bind ToolCall.codec.text = columns.call)
    (hpresent : columns.call.isSome = row.call.isSome) (houtput : columns.output = row.output) :
    columns.candidate = row.candidate := by
  have hbase : itemOf (InferenceRequest.codec.encode row.request).sorted "base" =
      .ok (State.codec.encode row.request.base).sorted :=
    itemOf_record (request_keys row.request) rfl
  unfold OperationColumns.candidate OperationRow.candidate
  rw [loadsColumn_text hrequest]
  cases hrow : row.call with
  | none =>
    rw [hrow] at hcall
    rw [← hcall]
    rfl
  | some call =>
    rw [hrow, Option.bind_some] at hcall
    rw [hrow, Option.isSome_some] at hpresent
    obtain ⟨text, htext⟩ := Option.isSome_iff_exists.mp hpresent
    rw [htext] at hcall
    simp only [htext, loadsColumn_text hcall, hbase, construct_sorted, hid, houtput, bind,
      Except.bind, pure, Except.pure]

/-- The limit of a kind is the one of the run row. -/
theorem limitOf_columns (h : x.Of t) (kind : ReservationKind) :
    x.limitOf kind = .ok (t.run.limits.of kind) := by
  obtain ⟨record, hrecord, htext⟩ := h.limits
  have hitem : ∀ {key : String} {n : Int},
      Value.get key record.items = some (Codec.int.encode n) →
        itemOf (LimitRecord.codec.encode record).sorted key = .ok (Codec.int.encode n).sorted :=
    itemOf_record (limit_keys record)
  unfold Columns.limitOf
  rw [loadsColumn_text htext, ← hrecord]
  cases kind with
  | inference =>
    have hinference : itemOf (LimitRecord.codec.encode record).sorted "inference_calls" =
        .ok (Codec.int.encode record.inferenceCalls).sorted := hitem rfl
    simp only [hinference, construct_sorted, bind, Except.bind]
    rfl
  | tool =>
    have htool : itemOf (LimitRecord.codec.encode record).sorted "tool_calls" =
        .ok (Codec.int.encode record.toolCalls).sorted := hitem rfl
    simp only [htool, construct_sorted, bind, Except.bind]
    rfl
  | external =>
    have hexternal : itemOf (LimitRecord.codec.encode record).sorted "external_actions" =
        .ok (Codec.int.encode record.externalActions).sorted := hitem rfl
    simp only [hexternal, construct_sorted, bind, Except.bind]
    rfl

/-- The first of the columns under a key is the one of the first row under it. -/
theorem find_columns {γ ρ κ : Type} [DecidableEq κ] {R : γ → ρ → Prop} {key : γ → κ} {key' : ρ → κ}
    (hkey : ∀ {c r}, R c r → key c = key' r) {cs : List γ} {rs : List ρ} (h : List.Forall₂ R cs rs)
    (k : κ) : Option.Rel R (cs.find? fun c => decide (key c = k))
      (rs.find? fun r => decide (key' r = k)) := by
  induction h with
  | nil => exact .none
  | cons hr _ ih =>
    rw [List.find?_cons, List.find?_cons, hkey hr]
    split
    · exact .some hr
    · exact ih

/-- The guards of an operation are found decided as in the rows. -/
theorem checkDecisions_columns (h : x.Of t) (required : List GuardRequirementRow) :
    checkDecisions x.guardDecisions required = checkGuards t.guardDecisions required := by
  induction required with
  | nil => rfl
  | cons row rest ih =>
    have hfound := @find_columns _ _ _ _ _ DecisionColumns.key GuardDecisionRow.key
      (fun hr => hr.1) _ _ h.guardDecisions row.key
    unfold checkDecisions checkGuards Table.lookup
    generalize x.guardDecisions.find? _ = found at hfound ⊢
    generalize t.guardDecisions.rows.find? _ = found' at hfound ⊢
    cases hfound with
    | none => rfl
    | some hr =>
      simp only [loadsColumn_text hr.2, construct_sorted, ih, bind, Except.bind]

/-- The reports are the ones of the rows. -/
theorem reportsOf_columns (h : x.Of t) : reportsOf x.inferenceUsage = .ok
    (t.inferenceUsage.rows.map fun row =>
      (row.operationId, (UsageFields.codec.encode row.payload).sorted)) := by
  have husage := h.inferenceUsage
  unfold reportsOf
  generalize x.inferenceUsage = columns at husage ⊢
  generalize t.inferenceUsage.rows = rows at husage ⊢
  induction husage with
  | nil => rfl
  | cons hr _ ih =>
    rw [List.mapM_cons, ih, loadsColumn_text hr.2, hr.1]
    rfl

theorem get_reports (rows : List UsageRow) (id : String) : Value.get id (rows.map fun row =>
      (row.operationId, (UsageFields.codec.encode row.payload).sorted)) =
    (rows.find? fun row => decide (row.operationId = id)).map fun row =>
      (UsageFields.codec.encode row.payload).sorted := by
  induction rows with
  | nil => rfl
  | cons row rows ih =>
    rw [List.map_cons, List.find?_cons]
    by_cases hid : row.operationId = id
    · rw [decide_eq_true hid, ← hid, Value.get_here]
      rfl
    · rw [decide_eq_false hid, Value.get_there hid, ih]

theorem usageOf_sorted (u : UsageFields) : usageOf (UsageFields.codec.encode u).sorted =
    (refusal u.postInit).map fun _ => u := by
  unfold usageOf
  rw [construct_sorted]
  simp only [bind, Except.bind]
  cases u.postInit <;> rfl

/-- One turn of the loop does the same. -/
theorem tally_columns (t : Tables) : tallyColumns (t.inferenceUsage.rows.map fun row =>
      (row.operationId, (UsageFields.codec.encode row.payload).sorted)) =
    tallyRow t.inferenceUsage := by
  funext tally row
  unfold tallyColumns tallyRow Table.lookup
  rw [get_reports]
  cases (t.inferenceUsage.rows.find? fun r => decide (r.operationId = row.operationId)) with
  | none => rfl
  | some report =>
    simp only [Option.map_some, usageOf_sorted, loadUsage]
    cases report.payload.postInit <;> rfl

/-- The output budget is the one of the rows. -/
theorem outputBudget_columns (h : x.Of t) : x.outputBudget = t.outputBudget := by
  obtain ⟨record, hrecord, htext⟩ := h.limits
  have htokens : ((LimitRecord.codec.encode record).sorted.asDict.bind
      (Value.get (ofString "output_tokens"))).isNone = false := by
    have hget := get_record (limit_keys record) "output_tokens"
    exact congrArg Option.isNone hget
  unfold Columns.outputBudget Tables.outputBudget
  rw [loadsColumn_text htext, ← hrecord]
  simp only [bind, Except.bind, htokens, LimitRecord.codec.decoded]
  cases hpost : record.fields.postInit with
  | some message => rfl
  | none =>
    cases hlimit : record.outputTokens with
    | none =>
      have hfields : record.fields.outputTokens = none := hlimit
      simp [hfields]
    | some limit =>
      have hfields : record.fields.outputTokens = some limit := hlimit
      simp [hfields, reportsOf_columns h, tally_columns, h.outputReservations,
        FlynnAgents.outputBudget, bind, Except.bind]

/-- One turn of the loop that collects the reports does the same. -/
theorem collect_columns {columns : UsageColumns} {row : UsageRow}
    (hid : columns.operationId = row.operationId)
    (htext : UsageFields.codec.text row.payload = some columns.payload) (operations : List String)
    (reports : List (String × UsageFields)) :
    collectColumns operations reports columns = collectReport operations reports row := by
  unfold collectColumns collectReport
  rw [hid, loadsColumn_text htext]
  simp only [bind, Except.bind, usageOf_sorted]
  cases row.payload.postInit <;> rfl

/-- The summary is the one of the rows. -/
theorem usageSummary_columns (h : x.Of t) : x.usageSummary = t.usageSummary := by
  have hids : x.operations.map OperationColumns.id = t.operations.rows.map OperationRow.id := by
    have hoperations := h.operations
    generalize x.operations = columns at hoperations ⊢
    generalize t.operations.rows = rows at hoperations ⊢
    induction hoperations with
    | nil => rfl
    | cons hr _ ih => rw [List.map_cons, List.map_cons, hr.1, ih]
  have hreports : ∀ (operations : List String) (reports : List (String × UsageFields)),
      x.inferenceUsage.foldlM (collectColumns operations) reports =
        t.inferenceUsage.rows.foldlM (collectReport operations) reports := by
    intro operations
    have husage := h.inferenceUsage
    generalize x.inferenceUsage = columns at husage ⊢
    generalize t.inferenceUsage.rows = rows at husage ⊢
    induction husage with
    | nil => exact fun reports => rfl
    | cons hr _ ih =>
      intro reports
      rw [List.foldlM_cons, List.foldlM_cons, collect_columns hr.1 hr.2]
      exact congrArg _ (funext ih)
  unfold Columns.usageSummary Tables.usageSummary summarizeUsage
  simp only [hids, hreports]

/-! ## The columns exist -/

theorem optionalStr_short (s : Option String) : (Codec.optionalStr.encode s).Short := by
  cases s <;> trivial

theorem optionalInt_short {n : Option Int} (h : ∀ k ∈ n, tooLong k = false) :
    (Codec.optionalInt.encode n).Short := by
  cases n with
  | none => trivial
  | some k => exact h k rfl

theorem str_short (s : String) : (Codec.str.encode s).Short := trivial

theorem list_short {α : Type} {c : Codec α} (h : ∀ a, (c.encode a).Short) (l : List α) :
    (c.list.encode l).Short := by
  refine shortItems_iff.mpr fun v hv => ?_
  obtain ⟨a, -, rfl⟩ := List.mem_map.mp hv
  exact h a

theorem request_short {request : InferenceRequest}
    (hrevision : tooLong request.base.revision = false)
    (htokens : ∀ n ∈ request.maxOutputTokens, tooLong n = false) :
    (InferenceRequest.codec.encode request).Short := by
  refine dictValue_short ?_
  simp only [InferenceRequest.items, List.forall_mem_cons, List.not_mem_nil, false_implies,
    implies_true, and_true]
  refine ⟨trivial, dictValue_short ?_, list_short str_short _, optionalStr_short _,
    list_short (fun spec => dictValue_short ?_) _, list_short (fun image => dictValue_short ?_) _,
    optionalInt_short htokens⟩
  · exact List.forall_mem_cons.mpr ⟨hrevision, List.forall_mem_cons.mpr ⟨trivial, by simp⟩⟩
  · simp [Codec.str, strValue, Value.Short]
  · simp [Codec.str, strValue, Value.Short]

/-- The counts of a report that its constructor accepted fit SQLite. -/
theorem accepted_counts {u : UsageFields} (h : u.postInit = none) :
    (∀ n ∈ u.inputTokens, sqliteInteger n = true) ∧
      ∀ n ∈ u.outputTokens, sqliteInteger n = true := by
  have hcounts : [u.inputTokens, u.outputTokens].any
      (fun c => c.any fun n => !sqliteInteger n) = false := by
    unfold UsageFields.postInit at h
    split at h
    · cases h
    split at h
    · cases h
    split at h
    · cases h
    · exact Bool.eq_false_iff.mpr ‹_›
  constructor
  · intro n hn
    rw [Option.mem_def] at hn
    simp [hn] at hcounts
    exact hcounts.1
  · intro n hn
    rw [Option.mem_def] at hn
    simp [hn] at hcounts
    exact hcounts.2

theorem usage_short {u : UsageFields} (h : u.postInit = none) :
    (UsageFields.codec.encode u).Short := by
  obtain ⟨hinput, houtput⟩ := accepted_counts h
  refine dictValue_short ?_
  simp only [List.forall_mem_cons, List.not_mem_nil, false_implies, implies_true, and_true]
  exact ⟨trivial, trivial, trivial, optionalStr_short _, optionalStr_short _, optionalStr_short _,
    optionalStr_short _, optionalInt_short fun n hn => sqliteInteger_short (hinput n hn),
    optionalInt_short fun n hn => sqliteInteger_short (houtput n hn), optionalStr_short _,
    optionalStr_short _⟩

theorem limits_short {record : LimitRecord} (h : record.fields.postInit = none)
    (hwall : ∀ n, record.wallTimeSeconds = some (.int n) → tooLong n = false) :
    (LimitRecord.codec.encode record).Short := by
  unfold LimitFields.postInit at h
  split at h
  · cases h
  split at h
  · cases h
  rename_i hcounts htokens
  have hcounts := Bool.eq_false_iff.mpr hcounts
  have htokens := Bool.eq_false_iff.mpr htokens
  simp only [LimitRecord.fields, List.any_cons, List.any_nil, Bool.or_false, Bool.or_eq_false_iff,
    Bool.not_eq_false'] at hcounts
  refine dictValue_short ?_
  simp only [LimitRecord.items, List.forall_mem_cons, List.not_mem_nil, false_implies,
    implies_true, and_true]
  refine ⟨sqliteInteger_short hcounts.1, sqliteInteger_short hcounts.2.1,
    sqliteInteger_short hcounts.2.2, ?_, optionalInt_short fun n hn => ?_⟩
  · cases hseconds : record.wallTimeSeconds with
    | none => trivial
    | some x =>
      cases x with
      | int n => exact hwall n hseconds
      | float number rounded => trivial
  · have hrecord : record.fields.outputTokens = some n := hn
    rw [hrecord, Option.any_some, Bool.not_eq_false'] at htokens
    exact sqliteInteger_short htokens

/-- No record of the file holds an integer that is too long to be converted. -/
structure Printable (record : LimitRecord) (t : Tables) : Prop where
  limits : record.fields = t.run.limits
  accepted : t.run.limits.postInit = none
  wallTime : ∀ n, record.wallTimeSeconds = some (.int n) → tooLong n = false
  requests : ∀ row ∈ t.operations.rows, tooLong row.request.base.revision = false ∧
    ∀ n ∈ row.request.maxOutputTokens, tooLong n = false
  reports : ∀ row ∈ t.inferenceUsage.rows, row.payload.postInit = none

theorem columns_of_rows {γ ρ : Type} {R : γ → ρ → Prop} {rs : List ρ}
    (h : ∀ r ∈ rs, ∃ c, R c r) : ∃ cs, List.Forall₂ R cs rs := by
  induction rs with
  | nil => exact ⟨[], .nil⟩
  | cons r rs ih =>
    obtain ⟨c, hc⟩ := h r List.mem_cons_self
    obtain ⟨cs, hcs⟩ := ih fun q hq => h q (List.mem_cons_of_mem _ hq)
    exact ⟨c :: cs, .cons hc hcs⟩

theorem rows_of_columns {γ ρ β : Type} {R : γ → ρ → Prop} {f : ρ → β}
    (hf : ∀ {c r r'}, R c r → R c r' → f r' = f r) {cs : List γ} {rs rs' : List ρ}
    (h : List.Forall₂ R cs rs) (h' : List.Forall₂ R cs rs') : rs'.map f = rs.map f := by
  induction h generalizing rs' with
  | nil =>
    cases h'
    rfl
  | cons hr _ ih =>
    cases h' with
    | cons hr' h' => rw [List.map_cons, List.map_cons, hf hr hr', ih h']

/-- Such a file has its columns: nothing that is written there raises. -/
theorem columns_exist {record : LimitRecord} (h : Printable record t) : ∃ x : Columns, x.Of t := by
  have haccepted : record.fields.postInit = none := by
    rw [h.limits]
    exact h.accepted
  obtain ⟨limits, hlimits⟩ := Codec.text_of_short (limits_short haccepted h.wallTime)
  obtain ⟨operations, hoperations⟩ := @columns_of_rows OperationColumns OperationRow
    (fun columns row => columns.id = row.id ∧
      InferenceRequest.codec.text row.request = some columns.request ∧
      row.call.bind ToolCall.codec.text = columns.call ∧
      columns.call.isSome = row.call.isSome ∧ columns.output = row.output) t.operations.rows (by
    intro row hrow
    obtain ⟨hrevision, htokens⟩ := h.requests row hrow
    obtain ⟨request, hrequest⟩ := Codec.text_of_short (request_short hrevision htokens)
    refine ⟨⟨row.id, request, row.call.bind ToolCall.codec.text, row.output⟩, rfl, hrequest, rfl,
      ?_, rfl⟩
    cases row.call with
    | none => rfl
    | some call =>
      have hshort : (ToolCall.codec.encode call).Short :=
        dictValue_short (by simp [Codec.str, strValue, Value.Short])
      obtain ⟨text, htext⟩ := Codec.text_of_short hshort
      rw [Option.bind_some, htext]
      rfl)
  obtain ⟨usage, husage⟩ := @columns_of_rows UsageColumns UsageRow
    (fun columns row => columns.operationId = row.operationId ∧
      UsageFields.codec.text row.payload = some columns.payload) t.inferenceUsage.rows (by
    intro row hrow
    obtain ⟨text, htext⟩ := Codec.text_of_short (usage_short (h.reports row hrow))
    exact ⟨⟨row.operationId, text⟩, rfl, htext⟩)
  obtain ⟨decisions, hdecisions⟩ := @columns_of_rows DecisionColumns GuardDecisionRow
    (fun columns row => columns.key = row.key ∧
      DecisionFields.codec.text row.payload = some columns.payload) t.guardDecisions.rows (by
    intro row _
    have hshort : (DecisionFields.codec.encode row.payload).Short :=
      dictValue_short (by simp [Codec.str, Codec.bool, strValue, Value.Short])
    obtain ⟨text, htext⟩ := Codec.text_of_short hshort
    exact ⟨⟨row.operationId, row.guardId, text⟩, rfl, htext⟩)
  exact ⟨⟨limits, operations, usage, t.outputReservations.rows, decisions⟩,
    ⟨record, h.limits, hlimits⟩, hoperations, husage, rfl, hdecisions⟩

end

/-! ## The file as texts -/

/-- What is read of the columns of a file is what its rows say: the candidate of each
operation, the limit of each kind, the output budget, the summary of the reports and the
decisions of the guards. The columns of a file exist if its integers can be converted,
and two files with the same columns hold the same records. -/
theorem the_columns_say_the_rows {x : Columns} {t : Tables} (h : x.Of t) :
    List.Forall₂ (fun columns row => columns.candidate = row.candidate) x.operations
        t.operations.rows ∧
      (∀ kind, x.limitOf kind = .ok (t.run.limits.of kind)) ∧
      x.outputBudget = t.outputBudget ∧ x.usageSummary = t.usageSummary ∧
      (∀ required, checkDecisions x.guardDecisions required =
        checkGuards t.guardDecisions required) ∧
      ∀ t', x.Of t' → t'.run.limits = t.run.limits ∧
        t'.operations.rows.map (fun row => (row.id, row.request, row.call, row.output)) =
          t.operations.rows.map (fun row => (row.id, row.request, row.call, row.output)) ∧
        t'.inferenceUsage.rows = t.inferenceUsage.rows ∧
        t'.guardDecisions.rows = t.guardDecisions.rows := by
  refine ⟨h.operations.imp fun _ _ hr => candidate_columns hr.1 hr.2.1 hr.2.2.1 hr.2.2.2.1
      hr.2.2.2.2, limitOf_columns h, outputBudget_columns h, usageSummary_columns h,
    checkDecisions_columns h, fun t' h' => ⟨?_, ?_, ?_, ?_⟩⟩
  · obtain ⟨record, hrecord, htext⟩ := h.limits
    obtain ⟨record', hrecord', htext'⟩ := h'.limits
    rw [← hrecord, ← hrecord', Codec.text_inj htext htext']
  · refine rows_of_columns (fun {columns row row'} hr hr' => ?_) h.operations h'.operations
    obtain ⟨hid, hrequest, hcall, hpresent, houtput⟩ := hr
    obtain ⟨hid', hrequest', hcall', hpresent', houtput'⟩ := hr'
    have hcalls : row'.call = row.call := by
      cases hrow : row.call with
      | none =>
        rw [hpresent, hrow] at hpresent'
        exact Option.not_isSome_iff_eq_none.mp (by rw [← hpresent']; simp)
      | some call =>
        rw [hpresent, hrow] at hpresent'
        obtain ⟨call', hrow'⟩ := Option.isSome_iff_exists.mp hpresent'.symm
        rw [hrow, Option.bind_some] at hcall
        rw [hrow', Option.bind_some] at hcall'
        obtain ⟨text, htext⟩ := Option.isSome_iff_exists.mp
          (hpresent.trans (congrArg Option.isSome hrow))
        rw [htext] at hcall hcall'
        rw [hrow', Codec.text_inj hcall hcall']
    rw [← hid, ← hid', ← houtput, ← houtput', Codec.text_inj hrequest hrequest', hcalls]
  · have hrows := @rows_of_columns _ _ _ _ id (fun {columns row row'} hr hr' => by
      cases row
      cases row'
      cases hr.1.symm.trans hr'.1
      cases Codec.text_inj hr.2 hr'.2
      rfl) _ _ _ h.inferenceUsage h'.inferenceUsage
    rwa [List.map_id, List.map_id] at hrows
  · have hrows := @rows_of_columns _ _ _ _ id (fun {columns row row'} hr hr' => by
      cases row
      cases row'
      cases hr.1.symm.trans hr'.1
      cases Codec.text_inj hr.2 hr'.2
      rfl) _ _ _ h.guardDecisions h'.guardDecisions
    rwa [List.map_id, List.map_id] at hrows

/-- The limits of the samples as they are written. -/
def sampleLimitRecord : LimitRecord where
  inferenceCalls := 3
  toolCalls := 3
  externalActions := 3

/-- The columns of a run that published once give the candidate of its operation. -/
theorem the_columns_say_the_rows_sample :
    let t := ((sampleRun (sampleLimits none none (by decide))).after sampleCalls).db
    ∃ x : Columns, x.Of t ∧ x.outputBudget = .ok { limit := none, available := none } ∧
      List.Forall₂ (fun columns row => columns.candidate = row.candidate) x.operations
        t.operations.rows ∧ t.operations.rows.length = 1 := by
  intro t
  have hprintable : Printable sampleLimitRecord t := {
    limits := by decide +kernel
    accepted := by decide +kernel
    wallTime := fun n hn => by cases hn
    requests := by decide +kernel
    reports := by decide +kernel }
  obtain ⟨x, hx⟩ := columns_exist hprintable
  obtain ⟨hcandidates, -, hbudget, -⟩ := the_columns_say_the_rows hx
  refine ⟨x, hx, ?_, hcandidates, by decide +kernel⟩
  rw [hbudget]
  decide +kernel

end FlynnAgents
