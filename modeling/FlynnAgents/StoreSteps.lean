-- What each method does. A method that returns has passed its checks and
-- made its change, and a method that raises has changed nothing, but for
-- the report that `record_usage` keeps when it finds a breach.
import FlynnAgents.StoreCalls

namespace FlynnAgents

open Relational Transactional

variable {handle : Handle} {clock : Clock} {self self' : SQLiteRun} {t t' : Tables}

/-! ## Transactions -/

theorem transaction_run {α : Type} (body : Handle → Body α) (self : SQLiteRun) :
    (transaction body).run self =
      match self.handle with
      | none => (.error closedError, self)
      | some handle =>
        match (body handle).run self.db with
        | .ok (a, db) => (.ok a, { self with db := db })
        | .error e => (.error e, self) := rfl

theorem transaction_ok {α : Type} {body : Handle → Body α} {a : α} :
    (transaction body).run self = (.ok a, self') ↔
      ∃ handle db, self.handle = some handle ∧ (body handle).run self.db = .ok (a, db) ∧
        self' = { self with db := db } := by
  rw [transaction_run]
  rcases hh : self.handle with _ | handle
  · simp
  · rcases hb : (body handle).run self.db with e | ⟨b, db⟩
    · simp [hb]
    · constructor
      · intro h
        simp only [hb, Prod.mk.injEq, Except.ok.injEq] at h
        obtain ⟨rfl, rfl⟩ := h
        exact ⟨handle, db, rfl, hb, rfl⟩
      · rintro ⟨h, db', hh', hb', rfl⟩
        cases hh'
        rw [hb] at hb'
        cases hb'
        simp [hb]

/-- A transaction that raises leaves everything as it was. -/
theorem transaction_atomic {α : Type} (body : Handle → Body α) : (transaction body).Atomic := by
  intro self e self' h
  rw [transaction_run] at h
  split at h
  · cases h; rfl
  · split at h
    · cases h
    · cases h; rfl

theorem query_eq {α : Type} (f : Tables → Except Exn α) (self : SQLiteRun) :
    (query f).run self =
      match self.handle with
      | none => (.error closedError, self)
      | some _ => (f self.db, self) := rfl

theorem query_run {α : Type} {f : Tables → Except Exn α} : ((query f).run self).2 = self := by
  rw [query_eq]
  split <;> rfl

theorem query_of_live {α : Type} {f : Tables → Except Exn α} (h : self.handle = some handle) :
    (query f).run self = (f self.db, self) := by
  rw [query_eq, h]

/-! ## The steps of a transaction -/

theorem requireOpen_ok : requireOpen.run t = .ok ((), t') ↔ t.run.outcome = none ∧ t' = t := by
  simp [requireOpen]

theorem requireTime_ok :
    (requireTime handle clock).run t = .ok ((), t') ↔
      Timely handle clock t ∧ t' = t.tick clock := by
  unfold requireTime
  simp only [Txn.run_bind_unit_ok, requireOpen_ok, Txn.run_get_bind, Txn.run_raiseIf_ok,
    Txn.run_modify, Except.ok.injEq, Prod.mk.injEq, true_and, not_lt]
  constructor
  · rintro ⟨_, ⟨ho, rfl⟩, _, ⟨hf, rfl⟩, _, ⟨hd, rfl⟩, rfl⟩
    exact ⟨⟨ho, hf, hd⟩, rfl⟩
  · rintro ⟨⟨ho, hf, hd⟩, rfl⟩
    exact ⟨t, ⟨ho, rfl⟩, t, ⟨hf, rfl⟩, t, ⟨hd, rfl⟩, rfl⟩

theorem updateOperation_run {id : String} {f : OperationRow → OperationRow}
    {hf : ∀ row, (f row).id = row.id} :
    (updateOperation id f hf).run t =
      .ok ((), { t with operations := t.operations.update id f hf }) := rfl

theorem operation_ok {id : String} {stage : Option Stage} {row : OperationRow} :
    t.operation id stage = .ok row ↔
      t.operation? id = some row ∧ (stage = none ∨ stage = some row.stage) := by
  unfold Tables.operation Tables.operation.refused
  rcases t.operation? id with _ | q
  · simp
  · by_cases h : stage = none ∨ stage = some q.stage
    · simp only [h, if_true, Except.ok.injEq, Option.some.injEq]
      constructor
      · rintro rfl; exact ⟨rfl, h⟩
      · rintro ⟨rfl, -⟩; rfl
    · simp only [h, if_false, reduceCtorEq, Option.some.injEq, false_iff]
      rintro ⟨rfl, hs⟩
      exact h hs

@[simp] theorem operation_at_ok {id : String} {stage : Stage} {row : OperationRow} :
    t.operation id (some stage) = .ok row ↔ t.operation? id = some row ∧ row.stage = stage := by
  rw [operation_ok]
  simp only [reduceCtorEq, Option.some.injEq, false_or]
  exact and_congr_right fun _ => eq_comm

@[simp] theorem operation_any_ok {id : String} {row : OperationRow} :
    t.operation id none = .ok row ↔ t.operation? id = some row := by
  simp [operation_ok]

theorem reserve_ok {id : String} {kind : ReservationKind} :
    (reserve id kind).run t = .ok ((), t') ↔
      0 < t.remaining kind ∧ (t.operation? id).isSome = true ∧
        ∃ rows, t.reservations.insert ⟨id, kind⟩ = some rows ∧
          t' = { t with reservations := rows } := by
  simp only [reserve, Txn.run_get_bind, Txn.run_bind_unit_ok, Txn.run_raiseIf_ok,
    Txn.run_ofExcept_bind_ok, Txn.run_modify, insertRow_ok, Except.ok.injEq, Prod.mk.injEq,
    true_and, not_le]
  constructor
  · rintro ⟨_, ⟨hr, rfl⟩, rows, ⟨hi, ho⟩, rfl⟩
    exact ⟨hr, ho, rows, hi, rfl⟩
  · rintro ⟨hr, ho, rows, hi, rfl⟩
    exact ⟨t, ⟨hr, rfl⟩, rows, ⟨hi, ho⟩, rfl⟩

/-- A reservation takes one unit of its kind. -/
theorem remaining_reserve {id : String} {kind : ReservationKind}
    {rows : Table ReservationRow.key} (h : t.reservations.insert ⟨id, kind⟩ = some rows)
    (k : ReservationKind) :
    Tables.remaining { t with reservations := rows } k =
      t.remaining k - if kind = k then 1 else 0 := by
  simp only [Tables.remaining, Tables.used, (Table.insert_eq_some_iff.mp h).2, List.countP_append,
    List.countP_singleton, decide_eq_true_eq]
  split <;> push_cast <;> omega

theorem insertRequirement_ok {id guardId : String} (ho : (t.operation? id).isSome = true) :
    (insertRequirement id guardId).run t = .ok ((), t') ↔
      ∃ rows, t.guardRequirements.insert ⟨id, guardId⟩ = some rows ∧
        t' = { t with guardRequirements := rows } := by
  simp only [insertRequirement, Txn.run_get_bind, Txn.run_ofExcept_bind_ok, Txn.run_modify,
    insertRow_ok, ho, and_true, Except.ok.injEq, Prod.mk.injEq, true_and]
  exact exists_congr fun rows => and_congr_right fun _ => eq_comm

theorem requirements_ok {id : String} {guards : List String}
    (ho : (t.operation? id).isSome = true) :
    (Txn.forEach (insertRequirement id) guards).run t = .ok ((), t') ↔
      ∃ rows, t.guardRequirements.insertAll (requirementRows id guards) = some rows ∧
        t' = { t with guardRequirements := rows } := by
  induction guards generalizing t with
  | nil => simp [Txn.forEach, requirementRows, eq_comm]
  | cons g gs ih =>
    simp only [Txn.forEach, Txn.run_bind_unit_ok, insertRequirement_ok ho, requirementRows,
      List.map_cons, Table.insertAll, Option.bind_eq_some_iff]
    constructor
    · rintro ⟨_, ⟨rows, hi, rfl⟩, hrest⟩
      obtain ⟨rest, hr, rfl⟩ := (ih (t := { t with guardRequirements := rows }) ho).mp hrest
      exact ⟨rest, ⟨rows, hi, hr⟩, rfl⟩
    · rintro ⟨rest, ⟨rows, hi, hr⟩, rfl⟩
      refine ⟨_, ⟨rows, hi, rfl⟩, ?_⟩
      exact (ih (t := { t with guardRequirements := rows }) ho).mpr ⟨rest, hr, rfl⟩

theorem insertOutputReservation_ok {id : String} {output : Option (Dyn OutputReservation)}
    (ho : (t.operation? id).isSome = true) :
    (insertOutputReservation id output).run t = .ok ((), t') ↔
      ∃ rows, t.outputReservations.insertAll (reservationRows id output) = some rows ∧
        t' = { t with outputReservations := rows } := by
  rcases output with _ | o | _
  · simp only [insertOutputReservation, reservationRows, Table.insertAll_nil, Txn.run_pure,
      Except.ok.injEq, Prod.mk.injEq, true_and, Option.some.injEq, exists_eq_left']
    exact eq_comm
  · simp only [insertOutputReservation, Txn.run_get_bind, Txn.run_ofExcept_bind_ok, Txn.run_modify,
      insertRow_ok, ho, and_true, Except.ok.injEq, Prod.mk.injEq, true_and, reservationRows,
      Table.insertAll_singleton]
    exact exists_congr fun rows => and_congr_right fun _ => eq_comm
  · simp only [insertOutputReservation, reservationRows, Table.insertAll_nil, Txn.run_pure,
      Except.ok.injEq, Prod.mk.injEq, true_and, Option.some.injEq, exists_eq_left']
    exact eq_comm

/-! ## The methods -/

/-- The call passed its checks, and its change is in the file. -/
def Commits (clock : Clock) (call : Call) (self self' : SQLiteRun) : Prop :=
  ∃ handle t', self.handle = some handle ∧ Change handle clock self.db call t' ∧
    self' = { self with db := t' }

theorem transaction_commits {body : Handle → Body Unit} {call : Call}
    (h : ∀ handle t t', (body handle).run t = .ok ((), t') ↔ Change handle clock t call t') :
    (transaction body).run self = (.ok (), self') ↔ Commits clock call self self' := by
  simp only [transaction_ok, h, Commits]

/-- A check in front of the transaction refuses what no change allows. -/
theorem raise_commits {call : Call} {e : Exn} (h : ∀ handle t t', ¬ Change handle clock t call t') :
    (Method.raise e : StoreM Unit).run self = (.ok (), self') ↔ Commits clock call self self' := by
  simp only [Method.run_raise, Prod.mk.injEq, reduceCtorEq, false_and, false_iff]
  rintro ⟨handle, t', -, hc, -⟩
  exact h handle self.db t' hc

theorem start_ok {id : String} {request : InferenceRequest}
    {output : Option (Dyn OutputReservation)} {guards : Dyn (List String)} :
    (SQLiteRun.start clock id request output guards).run self = (.ok (), self') ↔
      Commits clock (.start id request output guards) self self' := by
  rcases guards with guards | _
  · by_cases hg : guards.any blank = true ∨ ¬ guards.Nodup
    · simp only [SQLiteRun.start, hg, if_true]
      refine raise_commits fun _ _ _ hc => ?_
      cases hc with
      | start named distinct =>
        rcases hg with hg | hg
        · rw [named] at hg; cases hg
        · exact hg distinct
    · simp only [SQLiteRun.start, hg, if_false]
      refine transaction_commits fun handle t t' => ?_
      obtain ⟨named, distinct⟩ := not_or.mp hg
      have present {ops : Table OperationRow.id}
          (h : t.operations.insert { id, stage := .inference, request } = some ops) :
          (ops.lookup id).isSome = true := by
        rw [Table.lookup_insert h]
        simp
      simp only [Txn.run_get_bind, Txn.run_bind_unit_ok, requireTime_ok, Txn.run_ofExcept_bind_ok,
        Txn.run_raiseIf_ok, insertRow_ok, Txn.run_modify, reserve_ok, Except.ok.injEq,
        Prod.mk.injEq, true_and, not_not]
      constructor
      · rintro ⟨_, ready, _, ⟨timely, rfl⟩, budget, budgeted, _, admitted, _, ⟨base, rfl⟩, _,
          ⟨nonempty, rfl⟩, _, ⟨written, rfl⟩, ops, ⟨operations, -⟩, _, rfl, _, hreqs, _,
          ⟨room, -, res, reserved, rfl⟩, houts⟩
        obtain ⟨reqs, requirements, rfl⟩ := (requirements_ok (present operations)).mp hreqs
        obtain ⟨outs, outputs, rfl⟩ :=
          (insertOutputReservation_ok (present operations)).mp houts
        exact .start (by simpa using named) (by simpa using distinct) ready timely budgeted admitted
          base nonempty operations requirements room reserved outputs (by simpa using written)
      · intro h
        obtain @⟨_, _, _, _, budget, ops, reqs, res, outs, named, distinct, ready, timely, budgeted,
          admitted, base, nonempty, operations, requirements, room, reserved, outputs, written⟩ := h
        let u := { t.tick clock with operations := ops }
        have ho : (u.operation? id).isSome = true := present operations
        exact ⟨(), ready, _, ⟨timely, rfl⟩, budget, budgeted, (), admitted, _, ⟨base, rfl⟩, _,
          ⟨nonempty, rfl⟩, _, ⟨by simpa using written, rfl⟩, ops, ⟨operations, trivial⟩, u, rfl,
          { u with guardRequirements := reqs },
          (requirements_ok ho).mpr ⟨reqs, requirements, rfl⟩,
          { u with guardRequirements := reqs, reservations := res },
          ⟨room, ho, res, reserved, rfl⟩,
          (insertOutputReservation_ok
            (t := { u with guardRequirements := reqs, reservations := res })
            ho).mpr ⟨outs, outputs, rfl⟩⟩
  · exact raise_commits fun _ _ _ hc => by cases hc

theorem recordGuard_ok {id guardId : String} {decision : Dyn GuardDecision} :
    (SQLiteRun.recordGuard id guardId decision).run self = (.ok (), self') ↔
      Commits clock (.recordGuard id guardId decision) self self' := by
  rcases decision with decision | _
  · refine transaction_commits fun handle t t' => ?_
    simp only [Txn.run_get_bind, Txn.run_bind_unit_ok, requireOpen_ok, Txn.run_ofExcept_bind_ok,
      operation_at_ok, Txn.run_raiseIf_ok, insertRow_ok, Txn.run_modify, Except.ok.injEq,
      Prod.mk.injEq, true_and, not_not, decide_eq_true_eq]
    constructor
    · rintro ⟨_, ⟨isOpen, rfl⟩, row, ⟨operation, stage⟩, _, ⟨required, rfl⟩, rows, ⟨decided, -⟩,
        rfl⟩
      exact .recordGuard isOpen operation stage required decided
    · intro h
      cases h with
      | recordGuard isOpen operation stage required decided =>
        exact ⟨t, ⟨isOpen, rfl⟩, _, ⟨operation, stage⟩, t, ⟨required, rfl⟩, _,
          ⟨decided, required⟩, rfl⟩
  · exact raise_commits fun _ _ _ hc => by cases hc

theorem recordEvent_ok {event : Dyn Event} :
    (SQLiteRun.recordEvent event).run self = (.ok (), self') ↔
      Commits clock (.recordEvent event) self self' := by
  rcases event with event | _
  · by_cases hs : event.stage = ""
    · simp only [SQLiteRun.recordEvent, hs, if_true]
      refine raise_commits fun _ _ _ hc => ?_
      cases hc with
      | recordEvent _ named => exact named hs
    · simp only [SQLiteRun.recordEvent, hs, if_false]
      refine transaction_commits fun handle t t' => ?_
      simp only [Txn.run_get_bind, Txn.run_bind_unit_ok, requireOpen_ok, Txn.run_ofExcept_bind_ok,
        operation_any_ok, Txn.run_modify, Except.ok.injEq, Prod.mk.injEq, true_and]
      constructor
      · rintro ⟨_, ⟨isOpen, rfl⟩, row, operation, rfl⟩
        exact .recordEvent isOpen hs operation
      · intro h
        cases h with
        | recordEvent isOpen _ operation => exact ⟨t, ⟨isOpen, rfl⟩, _, operation, rfl⟩
  · exact raise_commits fun _ _ _ hc => by cases hc

theorem proposed_ok {id : String} {call : Dyn ToolCall} :
    (SQLiteRun.proposed id call).run self = (.ok (), self') ↔
      Commits clock (.proposed id call) self self' := by
  rcases call with call | _
  · refine transaction_commits fun handle t t' => ?_
    simp only [Txn.run_get_bind, Txn.run_bind_unit_ok, requireOpen_ok, Txn.run_ofExcept_bind_ok,
      operation_at_ok, updateOperation_run, Except.ok.injEq, Prod.mk.injEq, true_and]
    constructor
    · rintro ⟨_, ⟨isOpen, rfl⟩, row, ⟨operation, stage⟩, rfl⟩
      exact .proposed isOpen operation stage
    · intro h
      cases h with
      | proposed isOpen operation stage => exact ⟨t, ⟨isOpen, rfl⟩, _, ⟨operation, stage⟩, rfl⟩
  · exact raise_commits fun _ _ _ hc => by cases hc

theorem dispatch_ok {id : String} {observation externalAction : Bool} :
    (SQLiteRun.dispatch clock id observation externalAction).run self = (.ok (), self') ↔
      Commits clock (.dispatch id observation externalAction) self self' := by
  refine transaction_commits fun handle t t' => ?_
  simp only [Txn.run_get_bind, Txn.run_bind_unit_ok, requireTime_ok, Txn.run_ofExcept_bind_ok,
    operation_at_ok, reserve_ok]
  rcases externalAction with _ | _
  · simp only [Bool.false_eq_true, if_false, updateOperation_run, Except.ok.injEq, Prod.mk.injEq,
      true_and]
    constructor
    · rintro ⟨_, ⟨timely, rfl⟩, row, ⟨operation, stage⟩, _, allowed, _,
        ⟨room, -, tool, reserved, rfl⟩, rfl⟩
      exact .dispatch timely operation stage allowed room reserved (by simp) rfl
    · intro h
      cases h with
      | dispatch timely operation stage allowed room reserved _ externalReserved =>
        cases externalReserved
        exact ⟨_, ⟨timely, rfl⟩, _, ⟨operation, stage⟩, (), allowed, _,
          ⟨room, Option.isSome_of_eq_some operation, _, reserved, rfl⟩, rfl⟩
  · simp only [if_true, Txn.run_bind_unit_ok, reserve_ok, updateOperation_run, Except.ok.injEq,
      Prod.mk.injEq, true_and]
    constructor
    · rintro ⟨_, ⟨timely, rfl⟩, row, ⟨operation, stage⟩, _, allowed, _,
        ⟨room, -, tool, reserved, rfl⟩, _, ⟨externalRoom, -, res, externalReserved, rfl⟩, rfl⟩
      rw [remaining_reserve (t := t.tick clock) reserved] at externalRoom
      refine .dispatch timely operation stage allowed room reserved (fun _ => ?_) ?_
      · simpa using externalRoom
      · simpa [externalRows] using externalReserved
    · intro h
      cases h with
      | dispatch timely operation stage allowed room reserved externalRoom externalReserved =>
        have ho := Option.isSome_of_eq_some operation
        rw [externalRows, if_pos rfl, Table.insertAll_singleton] at externalReserved
        refine ⟨_, ⟨timely, rfl⟩, _, ⟨operation, stage⟩, (), allowed, _,
          ⟨room, ho, _, reserved, rfl⟩, _, ⟨?_, ho, _, externalReserved, rfl⟩, rfl⟩
        rw [remaining_reserve (t := t.tick clock) reserved]
        simpa using externalRoom rfl

theorem failed_ok {id error : String} :
    (SQLiteRun.failed id error).run self = (.ok (), self') ↔
      Commits clock (.failed id error) self self' := by
  refine transaction_commits fun handle t t' => ?_
  simp only [Txn.run_get_bind, Txn.run_ofExcept_bind_ok, operation_any_ok, updateOperation_run,
    Except.ok.injEq, Prod.mk.injEq, true_and]
  constructor
  · rintro ⟨row, operation, rfl⟩
    exact .failed operation
  · intro h
    cases h with
    | failed operation => exact ⟨_, operation, rfl⟩

theorem abandonUndispatched_ok {id : String} :
    (SQLiteRun.abandonUndispatched id).run self = (.ok (), self') ↔
      Commits clock (.abandonUndispatched id) self self' := by
  refine transaction_commits fun handle t t' => ?_
  simp only [Txn.run_get_bind, Txn.run_bind_unit_ok, requireOpen_ok, Txn.run_ofExcept_bind_ok,
    operation_any_ok, Txn.run_raiseIf_ok, updateOperation_run, Except.ok.injEq, Prod.mk.injEq,
    true_and, not_not]
  constructor
  · rintro ⟨_, ⟨isOpen, rfl⟩, row, operation, _, ⟨stage, rfl⟩, rfl⟩
    exact .abandonUndispatched isOpen operation stage
  · intro h
    cases h with
    | abandonUndispatched isOpen operation stage =>
      exact ⟨t, ⟨isOpen, rfl⟩, _, operation, t, ⟨stage, rfl⟩, rfl⟩

theorem finish_ok {outcome : Dyn String} :
    (SQLiteRun.finish outcome).run self = (.ok (), self') ↔
      Commits clock (.finish outcome) self self' := by
  rcases outcome with text | _
  · by_cases hb : blank text = true
    · simp only [SQLiteRun.finish, hb, if_true]
      refine raise_commits fun _ _ _ hc => ?_
      cases hc with
      | finish _ named => rw [hb] at named; cases named
    · simp only [SQLiteRun.finish, hb]
      refine transaction_commits fun handle t t' => ?_
      simp only [Txn.run_bind_unit_ok, requireOpen_ok, Txn.run_modify, Except.ok.injEq,
        Prod.mk.injEq, true_and]
      constructor
      · rintro ⟨_, ⟨isOpen, rfl⟩, rfl⟩
        exact .finish isOpen (by simpa using hb)
      · intro h
        cases h with
        | finish isOpen => exact ⟨t, ⟨isOpen, rfl⟩, rfl⟩
  · exact raise_commits fun _ _ _ hc => by cases hc

/-- The report of an operation breaches its reservation. -/
def Tables.Breached (t : Tables) (id : String) : Prop :=
  ∃ usage reserved, t.inferenceUsage.lookup id = some usage ∧
    t.outputReservations.lookup id = some reserved ∧ Breaches usage.payload reserved.reservation

/-- The transaction of `record_usage`. -/
theorem report_ok {id : String} {usage : InferenceUsage} :
    (transaction fun _ => do
      requireOpen
      let t ← Txn.get
      let _ ← Txn.ofExcept (t.operation id (some .inference))
      let rows ← Txn.ofExcept (insertRow "inference_usage.operation_id"
        (t.operation? id).isSome t.inferenceUsage ⟨id, usage.toUsageFields⟩)
      Txn.modify fun t => { t with inferenceUsage := rows }).run self = (.ok (), self') ↔
      Commits clock (.recordUsage id (.typed usage)) self self' := by
  refine transaction_commits fun handle t t' => ?_
  simp only [Txn.run_get_bind, Txn.run_bind_unit_ok, requireOpen_ok, Txn.run_ofExcept_bind_ok,
    operation_at_ok, insertRow_ok, Txn.run_modify, Except.ok.injEq, Prod.mk.injEq, true_and]
  constructor
  · rintro ⟨_, ⟨isOpen, rfl⟩, row, ⟨operation, stage⟩, rows, ⟨reported, -⟩, rfl⟩
    exact .recordUsage isOpen operation stage reported
  · intro h
    cases h with
    | recordUsage isOpen operation stage reported =>
      exact ⟨t, ⟨isOpen, rfl⟩, _, ⟨operation, stage⟩, _,
        ⟨reported, Option.isSome_of_eq_some operation⟩, rfl⟩

/-- A report that passes its checks is kept, also when it breaches. -/
theorem recordUsage_run {id : String} {usage : Dyn InferenceUsage}
    (h : Commits clock (.recordUsage id usage) self self') :
    ((SQLiteRun.recordUsage id usage).run self).2 = self' ∧
      (((SQLiteRun.recordUsage id usage).run self).1 = .ok () ↔ ¬ self'.db.Breached id) := by
  have hc := h
  obtain ⟨handle, t', hh, hchange, hself⟩ := hc
  cases hchange with
  | @recordUsage _ usage row rows _ _ _ reported =>
    subst hself
    have hused : rows.lookup id = some ⟨id, usage.toUsageFields⟩ := by
      rw [Table.lookup_insert reported, if_pos rfl]
    rw [SQLiteRun.recordUsage, Method.run_bind, report_ok.mpr h]
    simp only [Method.run_bind, query_eq, SQLiteRun.handle_db, hh, Tables.Breached, hused,
      Option.some.injEq]
    rcases self.db.outputReservations.lookup id with _ | reserved
    · simp
    · by_cases hb : Breaches usage.toUsageFields reserved.reservation <;> simp [hb]

theorem recordUsage_unchanged {id : String} {usage : Dyn InferenceUsage}
    (h : ∀ self', ¬ Commits clock (.recordUsage id usage) self self') :
    ∃ e, (SQLiteRun.recordUsage id usage).run self = (.error e, self) := by
  rcases usage with usage | _
  · rw [SQLiteRun.recordUsage, Method.run_bind]
    split
    · rename_i hr
      exact absurd (report_ok.mp hr) (h _)
    · rename_i e _ hr
      rw [transaction_atomic _ _ _ _ hr]
      exact ⟨e, rfl⟩
  · exact ⟨_, rfl⟩

/-- The transaction of `returned`. -/
theorem output_ok {id output : String} :
    (transaction fun _ => do
      let t ← Txn.get
      let _ ← Txn.ofExcept (t.operation id (some .dispatched))
      updateOperation id fun row =>
        { row with stage := .returned, output := some output }).run self = (.ok (), self') ↔
      Commits clock (.returned id (.typed output)) self self' := by
  refine transaction_commits fun handle t t' => ?_
  simp only [Txn.run_get_bind, Txn.run_ofExcept_bind_ok, operation_at_ok, updateOperation_run,
    Except.ok.injEq, Prod.mk.injEq, true_and]
  constructor
  · rintro ⟨row, ⟨operation, stage⟩, rfl⟩
    exact .returned operation stage
  · intro h
    cases h with
    | returned operation stage => exact ⟨_, ⟨operation, stage⟩, rfl⟩

/-- An output that passes its checks is kept, and the candidate is read back. -/
theorem returned_run {id : String} {output : Dyn String}
    (h : Commits clock (.returned id output) self self') :
    (SQLiteRun.returned id output).run self =
      ((self'.db.operation id none).bind OperationRow.candidate, self') := by
  rcases output with output | _
  · rw [SQLiteRun.returned, Method.run_bind, output_ok.mpr h]
    obtain ⟨handle, t', hh, -, rfl⟩ := h
    exact query_of_live hh
  · obtain ⟨_, _, -, hc, -⟩ := h
    cases hc

theorem returned_unchanged {id : String} {output : Dyn String}
    (h : ∀ self', ¬ Commits clock (.returned id output) self self') :
    ∃ e, (SQLiteRun.returned id output).run self = (.error e, self) := by
  rcases output with output | _
  · rw [SQLiteRun.returned, Method.run_bind]
    split
    · rename_i hr
      exact absurd (output_ok.mp hr) (h _)
    · rename_i e _ hr
      rw [transaction_atomic _ _ _ _ hr]
      exact ⟨e, rfl⟩
  · exact ⟨_, rfl⟩

theorem insertEvaluation_ok {row : EvaluationRow} :
    (insertEvaluation row).run t = .ok ((), t') ↔
      (t.operation? row.operationId).isSome = true ∧
        ∃ rows, t.evaluations.insert row = some rows ∧ t' = { t with evaluations := rows } := by
  simp only [insertEvaluation, Txn.run_get_bind, Txn.run_ofExcept_bind_ok, insertRow_ok,
    Txn.run_modify, Except.ok.injEq, Prod.mk.injEq, true_and]
  constructor
  · rintro ⟨rows, ⟨hi, ho⟩, rfl⟩
    exact ⟨ho, rows, hi, rfl⟩
  · rintro ⟨ho, rows, hi, rfl⟩
    exact ⟨rows, ⟨hi, ho⟩, rfl⟩

theorem insertCommit_ok {row : CommitRow} :
    (insertCommit row).run t = .ok ((), t') ↔
      0 < row.revision ∧ (∀ q ∈ t.commits.rows, q.operationId ≠ row.operationId) ∧
        t.evaluations.Has row.operationId ∧
        ∃ rows, t.commits.insert row = some rows ∧ t' = { t with commits := rows } := by
  simp only [insertCommit, Txn.run_get_bind, Txn.run_bind_unit_ok, Txn.run_raiseIf_ok,
    Txn.run_ofExcept_bind_ok, insertRow_ok, Txn.run_modify, Except.ok.injEq, Prod.mk.injEq,
    true_and, not_le, not_exists, not_and, decide_eq_true_eq]
  constructor
  · rintro ⟨_, ⟨hp, rfl⟩, _, ⟨hu, rfl⟩, rows, ⟨hi, he⟩, rfl⟩
    exact ⟨hp, hu, he, rows, hi, rfl⟩
  · rintro ⟨hp, hu, he, rows, hi, rfl⟩
    exact ⟨t, ⟨hp, rfl⟩, t, ⟨hu, rfl⟩, rows, ⟨hi, he⟩, rfl⟩

/-- What `complete` returns when the state was `current`. -/
def Evaluation.result (e : Evaluation) (current : State) : StepResult :=
  ⟨e.candidate, e, publishedState current e, e.published.isSome⟩

theorem checkEvaluation_binds {candidate : Candidate} {e : Evaluation}
    (h : checkEvaluation candidate e = .ok ()) : e.candidate = candidate := by
  unfold checkEvaluation at h
  split at h
  · cases h
  · exact not_not.mp ‹_›

theorem insertPublished_ok {current state : State} {candidate : Candidate} {e : Evaluation} :
    (insertPublished current candidate e).run t = .ok (state, t') ↔
      (∀ r ∈ commitRows current candidate e, 0 < r.revision) ∧
        (∀ r ∈ commitRows current candidate e, ∀ q ∈ t.commits.rows,
          q.operationId ≠ r.operationId) ∧
        (∀ r ∈ commitRows current candidate e, t.evaluations.Has r.operationId) ∧
        ∃ rows, t.commits.insertAll (commitRows current candidate e) = some rows ∧
          t' = { t with commits := rows } ∧ state = publishedState current e := by
  unfold insertPublished commitRows publishedState
  rcases e.published with _ | value
  · simp only [Txn.run_pure, Except.ok.injEq, Prod.mk.injEq, List.not_mem_nil, false_imp_iff,
      implies_true, Table.insertAll_nil, Option.some.injEq, true_and, exists_eq_left']
    constructor
    · rintro ⟨rfl, rfl⟩; exact ⟨rfl, rfl⟩
    · rintro ⟨rfl, rfl⟩; exact ⟨rfl, rfl⟩
  · simp only [Txn.run_bind_unit_ok, insertCommit_ok, Txn.run_pure, Except.ok.injEq,
      Prod.mk.injEq, List.mem_singleton, forall_eq, Table.insertAll_singleton]
    constructor
    · rintro ⟨_, ⟨hp, hu, he, rows, hi, rfl⟩, rfl, rfl⟩
      exact ⟨hp, hu, he, rows, hi, rfl, rfl⟩
    · rintro ⟨hp, hu, he, rows, hi, rfl, rfl⟩
      exact ⟨_, ⟨hp, hu, he, rows, hi, rfl⟩, rfl, rfl⟩

theorem commitRows_operationId {current : State} {candidate : Candidate} {e : Evaluation}
    {r : CommitRow} (h : r ∈ commitRows current candidate e) : r.operationId = candidate.id := by
  unfold commitRows at h
  split at h
  · rw [List.mem_singleton.mp h]
  · cases h

theorem complete_ok {evaluation : Evaluation} {r : StepResult} :
    (SQLiteRun.complete clock (.typed evaluation)).run self = (.ok r, self') ↔
      Commits clock (.complete (.typed evaluation)) self self' ∧
        r = evaluation.result self.db.read := by
  simp only [SQLiteRun.complete, transaction_ok, Txn.run_get_bind, Txn.run_bind_unit_ok,
    requireTime_ok, Txn.run_ofExcept_bind_ok, operation_at_ok, Txn.run_raiseIf_ok,
    insertEvaluation_ok, Txn.run_bind_ok (x := insertPublished _ _ _), insertPublished_ok,
    updateOperation_run, Txn.run_pure, Except.ok.injEq, Prod.mk.injEq, not_not, true_and]
  constructor
  · rintro ⟨handle, _, hh,
      ⟨_, ⟨timely, rfl⟩, row, ⟨operation, stage⟩, candidate, loaded, _, checked,
      _, ⟨base, rfl⟩, _, ⟨-, evals, evaluated, rfl⟩, _, _, ⟨positive, unpublished, -, commits,
      committed, rfl, rfl⟩, _, rfl, rfl, rfl⟩, rfl⟩
    refine ⟨⟨handle, _, hh, .complete timely operation stage loaded checked base evaluated positive
      unpublished committed, rfl⟩, ?_⟩
    rw [Evaluation.result, checkEvaluation_binds checked]
    rfl
  · rintro ⟨⟨handle, _, hh, hc, rfl⟩, rfl⟩
    cases hc with
    | @complete _ row candidate evals commits timely operation stage loaded checked base evaluated
        positive unpublished committed =>
      have hid : evaluation.candidate.id = candidate.id := by rw [checkEvaluation_binds checked]
      refine ⟨handle, _, hh, ⟨_, ⟨timely, rfl⟩, row, ⟨operation, stage⟩, candidate, loaded, (),
        checked, _, ⟨base, rfl⟩, _, ⟨Option.isSome_of_eq_some (hid ▸ operation), evals, evaluated,
        rfl⟩, _, _, ⟨positive, unpublished, ?_, commits, committed, rfl, rfl⟩, _, rfl, ?_, rfl⟩,
        rfl⟩
      · intro r hr
        rw [commitRows_operationId hr]
        exact (Table.has_insert evaluated _).mpr (.inl rfl)
      · rw [Evaluation.result, checkEvaluation_binds checked]
        rfl

theorem complete_other : ∃ e, (SQLiteRun.complete clock .other).run self = (.error e, self) := by
  rcases h : (SQLiteRun.complete clock .other).run self with ⟨e | r, self'⟩
  · exact ⟨e, by rw [transaction_atomic _ _ _ _ h]⟩
  · obtain ⟨_, _, _, hr, -⟩ := transaction_ok.mp h
    obtain ⟨_, -, hr⟩ := Txn.run_bind_unit_ok.mp hr
    cases hr

/-! ## One call -/

/-- The calls that write to the file. -/
def Call.mutates : Call → Bool
  | .start .. | .recordGuard .. | .recordEvent .. | .recordUsage .. | .proposed .. | .dispatch ..
  | .returned .. | .complete .. | .failed .. | .abandonUndispatched .. | .finish .. => true
  | _ => false

/-- The end of a writing call: the one change that it may make is in the
file, or it raised and nothing changed. -/
def Settled {α : Type} (clock : Clock) (call : Call) (self : SQLiteRun)
    (r : Except Exn α × SQLiteRun) : Prop :=
  (∀ self', Commits clock call self self' ↔ self' = r.2) ∨
    ((∀ self', ¬ Commits clock call self self') ∧ r.1.isOk = false ∧ r.2 = self)

/-- A method that returns exactly when it commits, and else changes nothing. -/
theorem settled_of_ok {α : Type} {m : StoreM α} {call : Call} {a : α} (hm : m.Atomic)
    (hok : ∀ b self', m.run self = (.ok b, self') ↔ Commits clock call self self' ∧ b = a) :
    Settled clock call self (m.run self) := by
  rcases hr : m.run self with ⟨e | b, self₁⟩
  · refine .inr ⟨fun self' hc => ?_, rfl, hm _ _ _ hr⟩
    have := (hok a self').mpr ⟨hc, rfl⟩
    rw [hr] at this
    cases this
  · obtain ⟨hc, rfl⟩ := (hok b self₁).mp hr
    refine .inl fun self' => ⟨fun hc' => ?_, fun h => h ▸ hc⟩
    have := (hok b self').mpr ⟨hc', rfl⟩
    rw [hr] at this
    cases this
    rfl

theorem unit_settled {m : StoreM Unit} {call : Call} (hm : m.Atomic)
    (hok : ∀ self', m.run self = (.ok (), self') ↔ Commits clock call self self') :
    Settled clock call self (m.run self) :=
  settled_of_ok (a := ()) hm fun _ self' => by simpa using hok self'

theorem settled_of_run {α : Type} {m : StoreM α} {call : Call}
    (hc : ∀ self', Commits clock call self self' → (m.run self).2 = self')
    (hn : (∀ self', ¬ Commits clock call self self') → ∃ e, m.run self = (.error e, self)) :
    Settled clock call self (m.run self) := by
  by_cases h : ∃ self', Commits clock call self self'
  · obtain ⟨self₁, h⟩ := h
    refine .inl fun self' => ⟨fun h' => (hc _ h').symm, ?_⟩
    rintro rfl
    rw [hc _ h]
    exact h
  · have hn' : ∀ self', ¬ Commits clock call self self' := fun s hs => h ⟨s, hs⟩
    obtain ⟨e, he⟩ := hn hn'
    exact .inr ⟨hn', by rw [he]; rfl, by rw [he]⟩

theorem settled (clock : Clock) (call : Call) (self : SQLiteRun) (h : call.mutates = true) :
    Settled clock call self ((call.method clock).run self) := by
  cases call with
  | start id request output guards =>
    refine unit_settled ?_ fun _ => start_ok
    cases guards with
    | typed guards => exact Method.atomic_ite (Method.atomic_raise _) (transaction_atomic _)
    | other => exact Method.atomic_raise _
  | recordGuard id guardId decision =>
    refine unit_settled ?_ fun _ => recordGuard_ok
    cases decision with
    | typed d => exact transaction_atomic _
    | other => exact Method.atomic_raise _
  | recordEvent event =>
    refine unit_settled ?_ fun _ => recordEvent_ok
    cases event with
    | typed event => exact Method.atomic_ite (Method.atomic_raise _) (transaction_atomic _)
    | other => exact Method.atomic_raise _
  | recordUsage id usage =>
    refine settled_of_run (fun _ hc => (recordUsage_run hc).1) fun hn => ?_
    exact recordUsage_unchanged hn
  | proposed id call =>
    refine unit_settled ?_ fun _ => proposed_ok
    cases call with
    | typed c => exact transaction_atomic _
    | other => exact Method.atomic_raise _
  | dispatch id observation externalAction =>
    exact unit_settled (transaction_atomic _) fun _ => dispatch_ok
  | returned id output =>
    refine settled_of_run (fun _ hc => ?_) fun hn => returned_unchanged hn
    exact congrArg Prod.snd (returned_run hc)
  | complete evaluation =>
    cases evaluation with
    | typed e => exact settled_of_ok (transaction_atomic _) fun _ _ => complete_ok
    | other => exact settled_of_run (fun _ ⟨_, _, _, hc, _⟩ => nomatch hc) fun _ => complete_other
  | failed id error => exact unit_settled (transaction_atomic _) fun _ => failed_ok
  | abandonUndispatched id =>
    exact unit_settled (transaction_atomic _) fun _ => abandonUndispatched_ok
  | finish outcome =>
    refine unit_settled ?_ fun _ => finish_ok
    cases outcome with
    | typed text => exact Method.atomic_ite (Method.atomic_raise _) (transaction_atomic _)
    | other => exact Method.atomic_raise _
  | _ => cases h

/-- The calls that may raise after their change is in the file. -/
def Call.raisesLate : Call → Bool
  | .recordUsage .. | .returned .. => true
  | _ => false

theorem commits_mutates {call : Call} (h : Commits clock call self self') :
    call.mutates = true := by
  obtain ⟨_, _, -, hc, -⟩ := h
  cases hc <;> rfl

theorem exec_run (i : Timed) (self : SQLiteRun) :
    exec i self = (⟨i.clock, i.call, ((i.call.method i.clock).run self).1⟩,
      ((i.call.method i.clock).run self).2) := rfl

/-- A call that made its change returns, but for a late raise. -/
theorem ok_of_commits {i : Timed} (hl : i.call.raisesLate = false)
    (h : Commits i.clock i.call self self') : (exec i self).1.ok = true := by
  have hok : ∀ {m : StoreM Unit}, m.run self = (.ok (), self') → (m.run self).1.isOk = true := by
    intro m hm
    rw [hm]
    rfl
  obtain ⟨clock, call⟩ := i
  obtain ⟨_, _, -, hc, -⟩ := id h
  cases hc with
  | recordUsage => cases hl
  | returned => cases hl
  | start => exact hok (start_ok.mpr h)
  | recordGuard => exact hok (recordGuard_ok.mpr h)
  | recordEvent => exact hok (recordEvent_ok.mpr h)
  | proposed => exact hok (proposed_ok.mpr h)
  | dispatch => exact hok (dispatch_ok.mpr h)
  | @complete e =>
    have := complete_ok.mpr ⟨h, rfl⟩
    simp only [Entry.ok, exec_run, Call.method, this]
    rfl
  | failed => exact hok (failed_ok.mpr h)
  | abandonUndispatched => exact hok (abandonUndispatched_ok.mpr h)
  | finish => exact hok (finish_ok.mpr h)

theorem read_run {call : Call} (hm : call.mutates = false) :
    ((call.method clock).run self).2.db = self.db ∧
      (call ≠ .close → call ≠ .openRun → ((call.method clock).run self).2 = self) := by
  cases call with
  | close => exact ⟨rfl, fun h => absurd rfl h⟩
  | openRun =>
    refine ⟨?_, fun _ h => absurd rfl h⟩
    change (SQLiteRun.openRun clock self).2.db = self.db
    unfold SQLiteRun.openRun
    split
    · rfl
    · split
      · rfl
      · split <;> rfl
  | secondsRemaining => exact ⟨rfl, fun _ _ => rfl⟩
  | outcome | read | latestObservation | remaining | pending | checkReady | outputBudget
  | usageSummary | completedOperations | records =>
    exact ⟨congrArg SQLiteRun.db query_run, fun _ _ => query_run⟩
  | _ => cases hm

/-- What one call does: it makes its change and returns, but for a late
raise, or it writes nothing. -/
theorem exec_cases (i : Timed) (self : SQLiteRun) :
    (Commits i.clock i.call self (exec i self).2 ∧
        (i.call.raisesLate = false → (exec i self).1.ok = true)) ∨
      ((exec i self).2.db = self.db ∧ (i.call.mutates = true → (exec i self).1.ok = false)) := by
  by_cases hm : i.call.mutates = true
  · rcases settled i.clock i.call self hm with hs | ⟨-, hr, he⟩
    · have hc := (hs _).mpr rfl
      exact .inl ⟨hc, fun hl => ok_of_commits hl hc⟩
    · exact .inr ⟨congrArg SQLiteRun.db he, fun _ => hr⟩
  · exact .inr ⟨(read_run (by simpa using hm)).1, fun h => absurd h hm⟩

/-- A change that a call may make is the one that it makes. -/
theorem exec_of_commits {i : Timed} (h : Commits i.clock i.call self self') :
    (exec i self).2 = self' := by
  rcases settled i.clock i.call self (commits_mutates h) with hs | ⟨hn, -, -⟩
  · exact ((hs self').mp h).symm
  · exact absurd h (hn self')

/-- A writing call that returns has made its change. -/
theorem commits_of_ok {i : Timed} (hm : i.call.mutates = true) (h : (exec i self).1.ok = true) :
    Commits i.clock i.call self (exec i self).2 := by
  rcases exec_cases i self with ⟨hc, -⟩ | ⟨-, he⟩
  · exact hc
  · rw [he hm] at h
    cases h

/-- Only `close` and `open` change what the owner holds in memory. -/
theorem exec_handle {i : Timed} (hc : i.call ≠ .close) (ho : i.call ≠ .openRun) :
    (exec i self).2.handle = self.handle := by
  by_cases hm : i.call.mutates = true
  · rcases settled i.clock i.call self hm with hs | ⟨-, -, he⟩
    · obtain ⟨handle, t', hh, -, he⟩ := (hs _).mpr rfl
      rw [exec_run]
      simp only [he, SQLiteRun.handle_db]
    · exact congrArg SQLiteRun.handle he
  · exact congrArg SQLiteRun.handle ((read_run (by simpa using hm)).2 hc ho)

/-- Only `open` binds the clock anew. -/
theorem exec_held {i : Timed} (ho : i.call ≠ .openRun) : (exec i self).2.held = self.held := by
  by_cases hc : i.call = .close
  · obtain ⟨clock, call⟩ := i
    cases hc
    rfl
  · by_cases hm : i.call.mutates = true
    · rcases settled i.clock i.call self hm with hs | ⟨-, -, he⟩
      · obtain ⟨handle, t', hh, -, he⟩ := (hs _).mpr rfl
        rw [exec_run]
        simp only [he]
      · exact congrArg SQLiteRun.held he
    · exact congrArg SQLiteRun.held ((read_run (by simpa using hm)).2 hc ho)

/-- What holds of the log and the tables, and is kept by an entry that wrote
nothing and by each change, is kept by every run. -/
theorem after_log_keeps (I : List Entry → Tables → Prop)
    (hsame : ∀ l e t, I l t → (e.call.mutates = true → e.ok = false) → I (l ++ [e]) t)
    (hchange : ∀ l e handle t t', I l t → Change handle e.clock t e.call t' →
      (e.call.raisesLate = false → e.ok = true) → I (l ++ [e]) t')
    (h : I [] self.db) (calls : List Timed) : I (self.log calls) (self.after calls).db := by
  refine Machines.run_keeps exec (fun l s => I l s.db) self h (fun l s i hs => ?_) calls
  rcases exec_cases i s with ⟨⟨handle, t', -, hc, he⟩, hok⟩ | ⟨he, hno⟩
  · simp only [he]
    exact hchange l (exec i s).1 handle s.db t' hs hc hok
  · simp only [he]
    exact hsame l (exec i s).1 s.db hs hno

/-- What holds of the tables and is kept by each change is kept by every run. -/
theorem after_keeps (I : Tables → Prop)
    (hI : ∀ handle clock t call t', I t → Change handle clock t call t' → I t')
    (h : I self.db) (calls : List Timed) : I (self.after calls).db :=
  after_log_keeps (fun _ t => I t) (fun _ _ _ h _ => h)
    (fun _ e handle t t' h hc _ => hI handle e.clock t e.call t' h hc) h calls

/-! ## A new run -/

/-- The run row that `create` writes. -/
def createdRow (now : ℚ) (id state : String) (limits : RunLimits) (observation : Option String) :
    RunRow where
  id := id
  initialState := state
  initialObservation := observation
  limits := limits.toLimitFields
  deadline := limits.wallTimeSeconds.map fun seconds => now + seconds
  lastClock := now
  outcome := none

theorem create_start_ok {now : ℚ} {id state : String} {limits : RunLimits}
    {observation : Option String}
    (h : SQLiteRun.create.start now clock limits id state observation = .ok self) :
    self.db = Tables.fresh (createdRow now id state limits observation) ∧
      ∃ handle, bindClock self.db clock = .ok handle ∧ self.handle = some handle := by
  unfold SQLiteRun.create.start at h
  split at h
  · cases h
  · simp only [bind, Except.bind, pure, Except.pure] at h
    split at h
    · cases h
    · cases h
      exact ⟨rfl, _, ‹_›, rfl⟩

/-- A run that `create` returned: the file is new, and the clock is bound to it. -/
theorem create_ok {now : ℚ} {runId state : Dyn String} {limits : RunLimits}
    {observation : Option (Dyn String)}
    (h : SQLiteRun.create now clock runId state limits observation = .ok self) :
    ∃ id text seen, self.db = Tables.fresh (createdRow now id text limits seen) ∧
      state = .typed text ∧ ∃ handle, bindClock self.db clock = .ok handle ∧
        self.handle = some handle := by
  unfold SQLiteRun.create at h
  split at h
  · cases h
  · obtain ⟨hdb, hh⟩ := create_start_ok h
    exact ⟨_, _, _, hdb, rfl, hh⟩
  · obtain ⟨hdb, hh⟩ := create_start_ok h
    exact ⟨_, _, _, hdb, rfl, hh⟩
  · split at h <;> cases h

/-- Three units of each kind. -/
def sampleLimits (wallTimeSeconds : Option ℚ) (outputTokens : Option Int)
    (h : LimitFields.postInit ⟨3, 3, 3, wallTimeSeconds, outputTokens⟩ = none) : RunLimits :=
  ⟨_, h⟩

/-- A run created at time 0. -/
def sampleRun (limits : RunLimits) : SQLiteRun :=
  ⟨Tables.fresh (createdRow 0 "run" "draft" limits none),
    ⟨limits.wallTimeSeconds.map fun seconds => 0 + max 0 (0 + seconds - 0)⟩, false⟩

theorem create_sample (limits : RunLimits) :
    SQLiteRun.create 0 ⟨0, 0⟩ (.typed "run") (.typed "draft") limits none =
      .ok (sampleRun limits) := by
  have hb : blank "run" = false := by decide
  have hc : bindClock (Tables.fresh (createdRow 0 "run" "draft" limits none)) ⟨0, 0⟩ =
      .ok ⟨limits.wallTimeSeconds.map fun seconds => 0 + max 0 (0 + seconds - 0)⟩ := by
    unfold bindClock
    rw [if_neg (by exact lt_irrefl (0 : ℚ))]
    simp [Tables.fresh, createdRow]
  unfold SQLiteRun.create SQLiteRun.create.start
  simp only [hb, Bool.false_eq_true, if_false]
  change (bindClock (Tables.fresh (createdRow 0 "run" "draft" limits none)) ⟨0, 0⟩ >>=
    fun handle => _) = _
  rw [hc]
  rfl

/-- A request of an operation on the first state. -/
def sampleRequest : InferenceRequest :=
  { objective := "goal", base := ⟨0, "draft"⟩, allowedTools := [] }

/-- An operation from its start to its commit, with one guard. -/
def sampleCalls : List Timed :=
  [⟨⟨0, 0⟩, .start "op" sampleRequest none (.typed ["guard"])⟩,
    ⟨⟨1, 1⟩, .proposed "op" (.typed ⟨"act", "\x7b\x7d"⟩)⟩,
    ⟨⟨2, 2⟩, .recordGuard "op" "guard" (.typed ⟨⟨true, "allowed"⟩, by decide⟩)⟩,
    ⟨⟨3, 3⟩, .dispatch "op" true true⟩,
    ⟨⟨4, 4⟩, .returned "op" (.typed "done")⟩,
    ⟨⟨5, 5⟩, .complete (.typed {
      candidate := ⟨"op", ⟨0, "draft"⟩, ⟨"act", "\x7b\x7d"⟩, some "done"⟩
      evaluator := .typed "evaluator"
      scope := .typed "scope"
      verdict := .typed .satisfied
      reason := .typed "reason"
      stateUpdate := some (.typed "final") })⟩]

end FlynnAgents
