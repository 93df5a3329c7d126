-- The reservations of a run follow the stages of its operations: an inference
-- reservation for each operation, a tool reservation for each dispatch, and
-- an external one for each dispatch of an external action.
import FlynnAgents.Operations

namespace FlynnAgents

open Relational Transactional

variable {handle : Handle} {clock : Clock} {t t' : Tables} {call : Call} {log : List Entry}

/-- The tool of the operation was dispatched. -/
def Tables.Spent (t : Tables) (id : String) : Prop :=
  ∃ row, t.operation? id = some row ∧ row.stage.spent = true

/-- The entry is a dispatch of the operation as an external action. -/
def Entry.dispatchesExternally (e : Entry) (id : String) : Bool :=
  e.ok && match e.call with
    | .dispatch i _ true => decide (i = id)
    | _ => false

/-- The operation was dispatched with `external_action=True`. -/
def dispatchedExternally (log : List Entry) (id : String) : Bool :=
  log.any fun e => e.dispatchesExternally id

/-! ## One change -/

/-- The reservations that a call makes. -/
def Call.reserves : Call → List ReservationRow
  | .start id .. => [⟨id, .inference⟩]
  | .dispatch id _ externalAction => ⟨id, .tool⟩ :: externalRows id externalAction
  | _ => []

theorem Change.reserves (h : Change handle clock t call t') :
    t.reservations.insertAll call.reserves = some t'.reservations := by
  cases h with
  | start _ _ _ _ _ _ _ _ _ _ _ reserved => simpa [Call.reserves] using reserved
  | dispatch _ _ _ _ _ reserved _ externalReserved =>
    simp only [Call.reserves, Table.insertAll, reserved, Option.bind_some, externalReserved]
  | _ => rfl

/-- No change touches the limits of the run. -/
theorem Change.limits (h : Change handle clock t call t') : t'.run.limits = t.run.limits := by
  cases h <;> rfl

theorem mem_reserves_inference {id : String} (h : ⟨id, .inference⟩ ∈ call.reserves) :
    ∃ request output guards, call = .start id request output guards := by
  cases call with
  | start i request output guards =>
    have : id = i := by simpa [Call.reserves] using h
    exact ⟨request, output, guards, by rw [this]⟩
  | dispatch => simp [Call.reserves, externalRows] at h
  | _ => cases h

theorem mem_reserves_tool {id : String} (h : ⟨id, .tool⟩ ∈ call.reserves) :
    ∃ observation externalAction, call = .dispatch id observation externalAction := by
  cases call with
  | dispatch i observation externalAction =>
    have : id = i := by simpa [Call.reserves, externalRows] using h
    exact ⟨observation, externalAction, by rw [this]⟩
  | start => simp [Call.reserves] at h
  | _ => cases h

theorem mem_reserves_external {id : String} :
    ⟨id, .external⟩ ∈ call.reserves ↔ ∃ observation, call = .dispatch id observation true := by
  cases call with
  | dispatch i observation externalAction =>
    cases externalAction <;> simp [Call.reserves, externalRows, eq_comm]
  | start => simp [Call.reserves]
  | _ => simp [Call.reserves]

/-- An operation is there after a change when it was there before it, or was
started by it. -/
theorem Change.started_iff (h : Change handle clock t call t') (id : String) :
    (t'.operation? id).isSome = true ↔
      (t.operation? id).isSome = true ∨ ⟨id, .inference⟩ ∈ call.reserves := by
  rcases h.lookup id with ⟨hw, he⟩ | ⟨hn, _, _, _, rfl, hs⟩ | ⟨row, row', hr, hr', hm⟩
  · rw [he]
    refine ⟨.inl, fun hor => hor.resolve_right fun hm => ?_⟩
    obtain ⟨_, _, _, rfl⟩ := mem_reserves_inference hm
    exact hw rfl
  · simp [hs, Call.reserves]
  · simp [hr, hr']

/-- The tool of an operation is spent after a change when it was spent before
it, or the change is its dispatch. -/
theorem Change.spent_iff (h : Change handle clock t call t') (id : String) :
    t'.Spent id ↔ t.Spent id ∨ ⟨id, .tool⟩ ∈ call.reserves := by
  unfold Tables.Spent
  rcases h.lookup id with ⟨hw, he⟩ | ⟨hn, _, _, _, rfl, hs⟩ | ⟨row, row', hr, hr', hm⟩
  · rw [he]
    refine ⟨.inl, fun hor => hor.resolve_right fun hm => ?_⟩
    obtain ⟨_, _, rfl⟩ := mem_reserves_tool hm
    exact hw rfl
  · simp [hn, hs, Call.reserves, Stage.spent]
  · simp only [hr, hr', Option.some.injEq, exists_eq_left']
    rcases hm.spent with he | ⟨-, hd, _, _, rfl⟩
    · rw [he]
      refine ⟨.inl, fun hor => hor.resolve_right fun ht => ?_⟩
      obtain ⟨_, _, rfl⟩ := mem_reserves_tool ht
      cases hm with
      | dispatched hs => 
        rw [hs] at he
        cases he
    · simp [hd, Stage.spent, Call.reserves]

theorem Change.has_iff (h : Change handle clock t call t') (id : String)
    (kind : ReservationKind) :
    t'.reservations.Has (id, kind) ↔
      t.reservations.Has (id, kind) ∨ ⟨id, kind⟩ ∈ call.reserves := by
  rw [Table.has_insertAll h.reserves]
  refine or_congr_right ⟨?_, fun hm => ⟨_, hm, rfl⟩⟩
  rintro ⟨⟨i, k⟩, hm, hk⟩
  cases hk
  exact hm

/-- A change takes from the budget what it reserves, and nothing else. -/
theorem Change.remaining (h : Change handle clock t call t') (kind : ReservationKind) :
    t'.remaining kind =
      t.remaining kind - call.reserves.countP (fun r => decide (r.kind = kind)) := by
  simp only [Tables.remaining, Tables.used, h.limits, Table.insertAll_rows h.reserves,
    List.countP_append]
  push_cast
  omega

/-- A change never takes more than is left. -/
theorem Change.room (h : Change handle clock t call t') {kind : ReservationKind}
    (hr : 0 ≤ t.remaining kind) : 0 ≤ t'.remaining kind := by
  rw [h.remaining]
  cases h with
  | start _ _ _ _ _ _ _ _ _ _ room =>
    cases kind <;> simp [Call.reserves] <;> omega
  | @dispatch id observation externalAction _ _ _ _ _ _ _ room _ externalRoom =>
    cases externalAction <;> cases kind <;> simp [Call.reserves, externalRows] at externalRoom ⊢ <;>
      omega
  | _ => simpa [Call.reserves] using hr

/-! ## Every run -/

theorem dispatchedExternally_append (log : List Entry) (e : Entry) (id : String) :
    dispatchedExternally (log ++ [e]) id =
      (dispatchedExternally log id || e.dispatchesExternally id) := by
  simp [dispatchedExternally]

theorem dispatchesExternally_of_refused {e : Entry} (h : e.call.mutates = true → e.ok = false)
    (id : String) : e.dispatchesExternally id = false := by
  unfold Entry.dispatchesExternally
  cases hc : e.call with
  | dispatch => rw [h (by rw [hc]; rfl)]; rfl
  | _ => simp

theorem dispatchesExternally_iff {e : Entry} (h : e.call.raisesLate = false → e.ok = true)
    (id : String) : e.dispatchesExternally id = true ↔ ⟨id, .external⟩ ∈ e.call.reserves := by
  rw [mem_reserves_external]
  unfold Entry.dispatchesExternally
  cases hc : e.call with
  | dispatch i observation externalAction =>
    rw [h (by rw [hc]; rfl)]
    cases externalAction <;> simp
  | _ => simp

/-- What holds of the reservations of every run. -/
structure Reserved (log : List Entry) (t : Tables) : Prop where
  inference (id : String) : t.reservations.Has (id, .inference) ↔ (t.operation? id).isSome = true
  tool (id : String) : t.reservations.Has (id, .tool) ↔ t.Spent id
  external (id : String) :
    t.reservations.Has (id, .external) ↔ dispatchedExternally log id = true
  spent (id : String) : dispatchedExternally log id = true → t.Spent id
  room (kind : ReservationKind) : 0 ≤ t.remaining kind

theorem Reserved.refused (h : Reserved log t) {e : Entry}
    (he : e.call.mutates = true → e.ok = false) : Reserved (log ++ [e]) t where
  inference := h.inference
  tool := h.tool
  external id := by
    rw [h.external, dispatchedExternally_append, dispatchesExternally_of_refused he, Bool.or_false]
  spent id := by
    rw [dispatchedExternally_append, dispatchesExternally_of_refused he, Bool.or_false]
    exact h.spent id
  room := h.room

theorem Reserved.change (h : Reserved log t) {e : Entry} (hc : Change handle e.clock t e.call t')
    (he : e.call.raisesLate = false → e.ok = true) : Reserved (log ++ [e]) t' where
  inference id := by rw [hc.has_iff, h.inference, hc.started_iff]
  tool id := by rw [hc.has_iff, h.tool, hc.spent_iff]
  external id := by
    rw [hc.has_iff, h.external, dispatchedExternally_append, Bool.or_eq_true,
      dispatchesExternally_iff he]
  spent id := by
    rw [dispatchedExternally_append, Bool.or_eq_true, dispatchesExternally_iff he, hc.spent_iff]
    rintro (hd | hd)
    · exact .inl (h.spent id hd)
    · obtain ⟨observation, hd⟩ := mem_reserves_external.mp hd
      rw [hd]
      exact .inr (by simp [Call.reserves])
  room kind := hc.room (h.room kind)

theorem limits_counted {l : LimitFields} (h : l.postInit = none) (kind : ReservationKind) :
    sqliteInteger (l.of kind) = true := by
  unfold LimitFields.postInit at h
  split at h
  · cases h
  · rename_i hn
    simp only [List.any_cons, List.any_nil, Bool.or_false, Bool.or_eq_true, Bool.not_eq_true',
      not_or, Bool.not_eq_false] at hn
    cases kind <;> simp [LimitFields.of, hn]

theorem limits_nonneg {l : LimitFields} (h : l.postInit = none) (kind : ReservationKind) :
    0 ≤ l.of kind :=
  (of_decide_eq_true (limits_counted h kind)).1

theorem reserved_fresh {now : ℚ} {id state : String} {limits : RunLimits}
    {observation : Option String} :
    Reserved [] (Tables.fresh (createdRow now id state limits observation)) where
  inference id := by simp [Tables.fresh, Table.Has, Tables.operation?]
  tool id := by simp [Tables.fresh, Table.Has, Tables.Spent, Tables.operation?]
  external id := by simp [Tables.fresh, Table.Has, dispatchedExternally]
  spent id := by simp [dispatchedExternally]
  room kind := by
    have h := limits_nonneg limits.accepted kind
    simpa [Tables.remaining, Tables.used, Tables.fresh, createdRow] using h

/-- The operation holds a reservation of the kind, by its stage and by the log. -/
def Holds (log : List Entry) : ReservationKind → OperationRow → Bool
  | .inference, _ => true
  | .tool, row => row.stage.spent
  | .external, row => row.stage.spent && dispatchedExternally log row.id

/-- A reservation is there exactly when its operation holds it. -/
theorem Reserved.has_iff (h : Reserved log t) (id : String) (kind : ReservationKind) :
    t.reservations.Has (id, kind) ↔
      ∃ row ∈ t.operations.rows, row.id = id ∧ Holds log kind row = true := by
  have hlook : ∀ p : OperationRow → Prop, (∃ row, t.operation? id = some row ∧ p row) ↔
      ∃ row ∈ t.operations.rows, row.id = id ∧ p row := by
    intro p
    simp only [Tables.operation?, Table.lookup_eq_some_iff, and_assoc]
  cases kind with
  | inference =>
    rw [h.inference, Option.isSome_iff_exists, ← hlook]
    simp [Holds]
  | tool => rw [h.tool, Tables.Spent, hlook]; rfl
  | external =>
    rw [h.external, ← hlook]
    constructor
    · intro hd
      obtain ⟨row, hr, hs⟩ := h.spent id hd
      have hi : row.id = id := (Table.lookup_some hr).2
      exact ⟨row, hr, by simp [Holds, hs, hi, hd]⟩
    · rintro ⟨row, hr, hh⟩
      have hi : row.id = id := (Table.lookup_some hr).2
      simp only [Holds, hi, Bool.and_eq_true] at hh
      exact hh.2

/-- Each operation holds one reservation of a kind, or none. -/
theorem Reserved.count (h : Reserved log t) {row : OperationRow} (hr : row ∈ t.operations.rows)
    (kind : ReservationKind) :
    t.reservations.rows.count ⟨row.id, kind⟩ = if Holds log kind row = true then 1 else 0 := by
  have hmem : (⟨row.id, kind⟩ : ReservationRow) ∈ t.reservations.rows ↔
      Holds log kind row = true := by
    have hhas : t.reservations.Has (row.id, kind) ↔ ⟨row.id, kind⟩ ∈ t.reservations.rows := by
      constructor
      · rintro ⟨⟨i, k⟩, hm, hk⟩
        cases hk
        exact hm
      · intro hm
        exact ⟨_, hm, rfl⟩
    rw [← hhas, h.has_iff]
    constructor
    · rintro ⟨q, hq, hid, hh⟩
      rw [← Table.eq_of_key hq hr hid]
      exact hh
    · intro hh
      exact ⟨row, hr, rfl, hh⟩
  simp only [Table.count_eq, hmem]

theorem Reserved.used (h : Reserved log t) (kind : ReservationKind) :
    t.used kind = t.operations.rows.countP (Holds log kind) := by
  rw [Tables.used, List.countP_eq_length_filter, List.countP_eq_length_filter]
  refine Table.length_eq_of_same_values (f := ReservationRow.operationId) (g := OperationRow.id)
    ?_ ?_ fun id => ?_
  · refine List.Nodup.of_map (fun id => (id, kind)) ?_
    rw [List.map_map, List.map_congr_left (g := ReservationRow.key)]
    · exact t.reservations.keysNodup.sublist (List.filter_sublist.map ReservationRow.key)
    · intro r hr
      have hk : r.kind = kind := by simpa using (List.mem_filter.mp hr).2
      simp [ReservationRow.key, hk]
  · exact t.operations.keysNodup.sublist (List.filter_sublist.map OperationRow.id)
  · rw [List.mem_map, List.mem_map]
    constructor
    · rintro ⟨r, hr, rfl⟩
      obtain ⟨hm, hk⟩ := List.mem_filter.mp hr
      have hk : r.kind = kind := by simpa using hk
      obtain ⟨row, hrow, hid, hh⟩ := (h.has_iff r.operationId kind).mp ⟨r, hm, by rw [← hk]; rfl⟩
      exact ⟨row, List.mem_filter.mpr ⟨hrow, hh⟩, hid⟩
    · rintro ⟨row, hrow, rfl⟩
      obtain ⟨hm, hh⟩ := List.mem_filter.mp hrow
      obtain ⟨⟨i, k⟩, hr, hk⟩ := (h.has_iff row.id kind).mpr ⟨row, hm, rfl, hh⟩
      cases hk
      exact ⟨_, List.mem_filter.mpr ⟨hr, by simp⟩, rfl⟩

/-- The stage change that a unit of a kind pays for. -/
def Pays (call : Call) (t t' : Tables) : ReservationKind → Prop
  | .inference => ∃ id row, t.operation? id = none ∧ t'.operation? id = some row ∧
      row.stage = .inference
  | .tool => ∃ id row row', t.operation? id = some row ∧ row.stage = .proposed ∧
      t'.operation? id = some row' ∧ row'.stage = .dispatched
  | .external => ∃ id row row', t.operation? id = some row ∧ row.stage = .proposed ∧
      t'.operation? id = some row' ∧ row'.stage = .dispatched ∧
      ∃ observation, call = .dispatch id observation true

/-- A change takes no unit, or it takes one for its stage change. -/
theorem Change.pays (h : Change handle clock t call t') (kind : ReservationKind) :
    t'.remaining kind = t.remaining kind ∨
      (t'.remaining kind = t.remaining kind - 1 ∧ Pays call t t' kind) := by
  have hr := h.remaining kind
  cases call with
  | start id request output guards =>
    cases kind with
    | inference =>
      refine .inr ⟨by simpa [Call.reserves] using hr, ?_⟩
      rcases h.lookup id with ⟨hw, -⟩ | ⟨hn, _, _, _, -, hs⟩ | ⟨_, _, _, _, hm⟩
      · exact absurd rfl hw
      · exact ⟨id, _, hn, hs, rfl⟩
      · cases hm
    | tool | external => exact .inl (by simpa [Call.reserves] using hr)
  | dispatch id observation externalAction =>
    have hd : ∃ row row', t.operation? id = some row ∧ row.stage = .proposed ∧
        t'.operation? id = some row' ∧ row'.stage = .dispatched := by
      rcases h.lookup id with ⟨hw, -⟩ | ⟨_, _, _, _, hc, -⟩ | ⟨row, row', ho, ho', hm⟩
      · exact absurd rfl hw
      · cases hc
      · cases hm with
        | dispatched hs => exact ⟨_, _, ho, hs, ho', rfl⟩
    obtain ⟨row, row', ho, hs, ho', hs'⟩ := hd
    cases kind with
    | inference =>
      refine .inl ?_
      cases externalAction <;> simpa [Call.reserves, externalRows] using hr
    | tool =>
      refine .inr ⟨?_, id, row, row', ho, hs, ho', hs'⟩
      cases externalAction <;> simpa [Call.reserves, externalRows] using hr
    | external =>
      cases externalAction with
      | false => exact .inl (by simpa [Call.reserves, externalRows] using hr)
      | true =>
        refine .inr ⟨?_, id, row, row', ho, hs, ho', hs', observation, rfl⟩
        simpa [Call.reserves, externalRows] using hr
  | _ => exact .inl (by simpa [Call.reserves] using hr)

theorem reserved_after {self : SQLiteRun} (h : Reserved [] self.db) (calls : List Timed) :
    Reserved (self.log calls) (self.after calls).db :=
  after_log_keeps Reserved (fun _ _ _ h he => h.refused he)
    (fun _ _ _ _ _ h hc he => h.change hc he) h calls

theorem exec_pays (i : Timed) (self : SQLiteRun) (kind : ReservationKind) :
    (exec i self).2.db.remaining kind = self.db.remaining kind ∨
      ((exec i self).2.db.remaining kind = self.db.remaining kind - 1 ∧
        Pays i.call self.db (exec i self).2.db kind) := by
  rcases exec_cases i self with ⟨⟨handle, t', -, hc, he⟩, -⟩ | ⟨he, -⟩
  · rw [he]
    exact hc.pays kind
  · exact .inl (by rw [he])

theorem remaining_after_le (self : SQLiteRun) (calls : List Timed) (kind : ReservationKind) :
    (self.after calls).db.remaining kind ≤ self.db.remaining kind := by
  refine Machines.after_related exec (fun _ => True)
    (fun s s' => s'.db.remaining kind ≤ s.db.remaining kind) (fun _ _ _ => trivial)
    (fun _ => le_refl _) (fun _ _ _ h h' => h'.trans h) (fun s i _ => ?_) trivial calls
  rcases exec_pays i s kind with he | ⟨he, -⟩ <;> omega

/-- For every sequence of calls, whatever they return or raise: an operation
holds one inference reservation, a tool reservation exactly when its tool was
dispatched, and an external one exactly when that was an external action.
What remains is each limit less those counts, never negative, and no call
gives a unit back or takes one without the stage change that it pays for. -/
theorem reservations_follow_the_stages {now : ℚ} {runId state : Dyn String} {limits : RunLimits}
    {observation : Option (Dyn String)} {self : SQLiteRun}
    (h : SQLiteRun.create now clock runId state limits observation = .ok self)
    (calls : List Timed) :
    (∀ row ∈ (self.after calls).db.operations.rows, ∀ kind,
      (self.after calls).db.reservations.rows.count ⟨row.id, kind⟩ =
        if Holds (self.log calls) kind row = true then 1 else 0) ∧
    (∀ r ∈ (self.after calls).db.reservations.rows,
      ∃ row ∈ (self.after calls).db.operations.rows, row.id = r.operationId) ∧
    (∀ kind, (self.after calls).db.remaining kind = limits.of kind -
        (self.after calls).db.operations.rows.countP (Holds (self.log calls) kind) ∧
      0 ≤ (self.after calls).db.remaining kind) ∧
    (∀ i kind, (self.after (calls ++ [i])).db.remaining kind =
      (self.after calls).db.remaining kind ∨
      ((self.after (calls ++ [i])).db.remaining kind =
          (self.after calls).db.remaining kind - 1 ∧
        Pays i.call (self.after calls).db (self.after (calls ++ [i])).db kind)) ∧
    ∀ more kind, (self.after (calls ++ more)).db.remaining kind ≤
      (self.after calls).db.remaining kind := by
  obtain ⟨id, text, seen, hdb, -⟩ := create_ok h
  have hr : Reserved (self.log calls) (self.after calls).db :=
    reserved_after (hdb ▸ reserved_fresh) calls
  have hl : (self.after calls).db.run.limits = limits.toLimitFields :=
    after_keeps (fun t => t.run.limits = limits.toLimitFields)
      (fun _ _ _ _ _ hi hc => hc.limits.trans hi) (by rw [hdb]; rfl) calls
  refine ⟨fun row hrow kind => hr.count hrow kind, fun r hrow => ?_, fun kind => ⟨?_, hr.room kind⟩,
    fun i kind => ?_, fun more kind => ?_⟩
  · obtain ⟨row, hm, hid, -⟩ := (hr.has_iff r.operationId r.kind).mp ⟨r, hrow, rfl⟩
    exact ⟨row, hm, hid⟩
  · rw [Tables.remaining, hr.used, hl]
  · simp only [SQLiteRun.after, Machines.after_append]
    exact exec_pays i _ kind
  · simp only [SQLiteRun.after, Machines.after_append]
    exact remaining_after_le _ more kind

theorem reservations_follow_the_stages_sample :
    ((sampleRun (sampleLimits none none (by decide))).after sampleCalls).db.remaining .tool =
        3 - ((sampleRun (sampleLimits none none (by decide))).after
          sampleCalls).db.operations.rows.countP
            (Holds ((sampleRun (sampleLimits none none (by decide))).log sampleCalls) .tool) ∧
      0 ≤ ((sampleRun (sampleLimits none none (by decide))).after sampleCalls).db.remaining .tool :=
  (reservations_follow_the_stages (create_sample (sampleLimits none none (by decide)))
    sampleCalls).2.2.1 .tool

end FlynnAgents
