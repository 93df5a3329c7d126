-- The cap on output tokens. The budget is a fold over the reservations and
-- their reports; the admission rule of `start` keeps it within the limit,
-- and leaves at most one model reservation open.
import FlynnAgents.GuardLaws

namespace FlynnAgents

open Relational Transactional

variable {handle : Handle} {clock : Clock} {t t' : Tables} {call : Call}

/-! ## The fold -/

/-- What one reservation and its report add to the totals. -/
def share (reservation : ReservationFields) (usage : Option UsageFields) : Tally :=
  Tally.add {} reservation usage

theorem add_eq (t : Tally) (r : ReservationFields) (u : Option UsageFields) :
    t.add r u =
      ⟨t.spent + (share r u).spent, t.held + (share r u).held,
        t.unresolved + (share r u).unresolved, t.breached + (share r u).breached⟩ := by
  unfold share Tally.add
  rcases u with _ | u
  · by_cases hr : r.kind = .scripted <;> simp [hr]
  · by_cases hk : u.kind = r.kind
    · by_cases hr : r.kind = .scripted
      · simp [hk, hr]
      · rcases ho : u.outputTokens with _ | n <;> simp [hk, hr, ho]
    · simp [hk]

/-- The totals of the run. -/
def Tables.tally (t : Tables) : Tally :=
  t.outputReservations.rows.foldl (fun s row => s.add row.reservation (t.report row.operationId)) {}

/-- The share of a row. -/
def Tables.share (t : Tables) (row : OutputReservationRow) : Tally :=
  FlynnAgents.share row.reservation (t.report row.operationId)

theorem foldl_add (f : OutputReservationRow → Option UsageFields)
    (rows : List OutputReservationRow) (s : Tally) :
    rows.foldl (fun s row => s.add row.reservation (f row)) s =
      ⟨s.spent + (rows.map fun row => (FlynnAgents.share row.reservation (f row)).spent).sum,
        s.held + (rows.map fun row => (FlynnAgents.share row.reservation (f row)).held).sum,
        s.unresolved +
          (rows.map fun row => (FlynnAgents.share row.reservation (f row)).unresolved).sum,
        s.breached +
          (rows.map fun row => (FlynnAgents.share row.reservation (f row)).breached).sum⟩ := by
  induction rows generalizing s with
  | nil => simp
  | cons row rows ih =>
    rw [List.foldl_cons, ih, add_eq]
    simp only [List.map_cons, List.sum_cons, Tally.mk.injEq]
    refine ⟨?_, ?_, ?_, ?_⟩ <;> ring

theorem tally_eq (t : Tables) :
    t.tally = ⟨(t.outputReservations.rows.map fun row => (t.share row).spent).sum,
      (t.outputReservations.rows.map fun row => (t.share row).held).sum,
      (t.outputReservations.rows.map fun row => (t.share row).unresolved).sum,
      (t.outputReservations.rows.map fun row => (t.share row).breached).sum⟩ := by
  rw [Tables.tally, foldl_add]
  simp [Tables.share]

/-- Every stored reservation and report passes its own check. -/
structure Sound (t : Tables) : Prop where
  limits : t.run.limits.postInit = none
  reservations : ∀ r ∈ t.outputReservations.rows, r.reservation.postInit = none
  reports : ∀ u ∈ t.inferenceUsage.rows, u.payload.postInit = none

theorem foldlM_tallyRow (ht : ∀ u ∈ t.inferenceUsage.rows, u.payload.postInit = none)
    {rows : List OutputReservationRow} (hr : ∀ r ∈ rows, r.reservation.postInit = none)
    (s : Tally) :
    rows.foldlM (tallyRow t.inferenceUsage) s =
      .ok (rows.foldl (fun s row => s.add row.reservation (t.report row.operationId)) s) := by
  induction rows generalizing s with
  | nil => rfl
  | cons row rows ih =>
    have hload : loadUsage (t.inferenceUsage.lookup row.operationId) =
        .ok (t.report row.operationId) := by
      unfold Tables.report
      rcases hl : t.inferenceUsage.lookup row.operationId with _ | u
      · rfl
      · have hu := ht u (Table.lookup_some hl).1
        simp [loadUsage, hu, refusal, bind, Except.bind, pure, Except.pure]
    have hrow : tallyRow t.inferenceUsage s row =
        .ok (s.add row.reservation (t.report row.operationId)) := by
      have := hr row (by simp)
      simp [tallyRow, this, hload, refusal, bind, Except.bind, pure, Except.pure]
    rw [List.foldlM_cons, hrow, List.foldl_cons]
    exact ih (fun q hq => hr q (by simp [hq])) _

/-- What `output_budget` returns, of a run with a limit. -/
theorem Sound.outputBudget (h : Sound t) {limit : Int}
    (hl : t.run.limits.outputTokens = some limit) :
    t.outputBudget = .ok ⟨some limit, some (max 0 (limit - t.tally.spent - t.tally.held)),
      t.tally.spent, t.tally.held, t.tally.unresolved, t.tally.breached⟩ := by
  unfold Tables.outputBudget
  simp only [h.limits, hl, FlynnAgents.outputBudget, foldlM_tallyRow h.reports h.reservations]
  rfl

/-! ## The share of one reservation -/

/-- The report settles a model reservation: it is a model report, with a known
output within the reserved tokens. -/
def Settles (reservation : ReservationFields) : Option UsageFields → Prop
  | some u => u.kind = .model ∧ ∃ n, u.outputTokens = some n ∧ n ≤ reservation.tokens
  | none => False

theorem tokens_nonneg {r : ReservationFields} (h : r.postInit = none) : 0 ≤ r.tokens := by
  unfold ReservationFields.postInit at h
  split at h
  · cases h
  · rename_i hn
    simp only [sqliteInteger, Bool.not_eq_true', decide_eq_false_iff_not, not_not] at hn
    exact hn.1

theorem kind_cases (k : InvocationKind) : k = .model ∨ k = .scripted := by
  cases k <;> simp

/-- A model reservation is settled when it adds nothing open and no breach. -/
theorem settles_iff {r : ReservationFields} (hr : r.kind = .model) (u : Option UsageFields) :
    (share r u).unresolved = 0 ∧ (share r u).breached = 0 ↔ Settles r u := by
  unfold share Tally.add Settles
  rcases u with _ | u
  · simp [hr]
  · rcases kind_cases u.kind with hk | hk
    · rcases ho : u.outputTokens with _ | n <;> simp [hk, hr, ho]
    · simp [hk, hr]

theorem held_nonneg {r : ReservationFields} (hr : 0 ≤ r.tokens) (u : Option UsageFields) :
    0 ≤ (share r u).held := by
  unfold share Tally.add
  rcases u with _ | u
  · by_cases hk : r.kind = .scripted <;> simp [hk, hr]
  · by_cases hk : u.kind = r.kind
    · by_cases hs : r.kind = .scripted
      · simp [hk, hs]
      · rcases ho : u.outputTokens with _ | n <;> simp [hk, hs, ho, hr]
    · simp [hk, hr]

/-- What a reservation holds before its report. -/
theorem share_none {r : ReservationFields} (hr : r.postInit = none) :
    (share r none).spent + (share r none).held = r.tokens := by
  unfold ReservationFields.postInit at hr
  split at hr
  · cases hr
  · split at hr
    · cases hr
    · rename_i hk
      rw [ne_eq, not_not] at hk
      unfold share Tally.add
      by_cases hs : r.kind = .scripted
      · simp [hs, (hk.mp hs)]
      · simp [hs]

theorem breached_none (r : ReservationFields) : (share r none).breached = 0 := by
  unfold share Tally.add
  by_cases hs : r.kind = .scripted <;> simp [hs]

theorem scripted_tokens {r : ReservationFields} (hr : r.postInit = none) (hs : r.kind = .scripted) :
    r.tokens = 0 := by
  unfold ReservationFields.postInit at hr
  split at hr
  · cases hr
  · split at hr
    · cases hr
    · rename_i hk
      rw [ne_eq, not_not] at hk
      exact hk.mp hs

/-- A report that breaches nothing takes no more than was held for it. -/
theorem share_le {r : ReservationFields} {u : UsageFields} (hr : r.postInit = none)
    (hb : (share r (some u)).breached = 0) :
    (share r (some u)).spent + (share r (some u)).held ≤
      (share r none).spent + (share r none).held := by
  rw [share_none hr]
  have ht := tokens_nonneg hr
  unfold share Tally.add at *
  by_cases hk : u.kind = r.kind
  · by_cases hs : r.kind = .scripted
    · simp [hk, hs, ht]
    · rcases ho : u.outputTokens with _ | n
      · simp [hk, hs, ho]
      · simp [hk, hs, ho] at hb ⊢
        exact hb
  · simp [hk] at hb

/-! ## Admission -/

/-- What `start` admits, of a run with a limit. -/
theorem admitOutput_ok {b : OutputBudget} {limit : Int} {request : InferenceRequest}
    {output : Option (Dyn OutputReservation)} (hl : b.limit = some limit) :
    admitOutput b request output = .ok () ↔
      ∃ o, output = some (.typed o) ∧ request.maxOutputTokens = some o.tokens ∧
        (o.kind = .model → b.unresolved = 0 ∧ b.breached = 0 ∧
          ∃ a, b.available = some a ∧ o.tokens ≤ a) := by
  unfold admitOutput
  rw [hl]
  rcases output with _ | o | _
  · simp
  · simp only [Option.some.injEq, Dyn.typed.injEq, exists_eq_left']
    by_cases hm : request.maxOutputTokens = some o.tokens
    · rcases kind_cases o.kind with hk | hk
      · by_cases hu : b.unresolved ≠ 0 ∨ b.breached ≠ 0
        · simp only [hm, hk, hu, ne_eq, not_true_eq_false, if_false, if_true, reduceCtorEq,
            true_and, forall_true_left, false_iff]
          rintro ⟨h₁, h₂, -⟩
          exact hu.elim (fun h => h h₁) (fun h => h h₂)
        · rw [not_or, not_not, not_not] at hu
          rcases ha : b.available with _ | a
          · simp [hm, hk, hu]
          · by_cases hlt : a < o.tokens
            · simp [hm, hk, hu, hlt]
            · simp [hm, hk, hu, hlt, not_lt.mp hlt]
      · simp [hm, hk]
    · simp [hm]
  · simp

/-! ## One change -/

/-- The reservation is of a model, and not settled. -/
def Tables.Unsettled (t : Tables) (row : OutputReservationRow) : Prop :=
  row ∈ t.outputReservations.rows ∧ row.reservation.kind = .model ∧
    ¬ Settles row.reservation (t.report row.operationId)

theorem tally_settled (hu : t.tally.unresolved = 0) (hb : t.tally.breached = 0)
    (row : OutputReservationRow) : ¬ t.Unsettled row := by
  rintro ⟨hm, hk, hs⟩
  rw [tally_eq] at hu hb
  simp only [List.sum_eq_zero_iff, List.mem_map, forall_exists_index, and_imp,
    forall_apply_eq_imp_iff₂] at hu hb
  exact hs ((settles_iff hk _).mp ⟨hu row hm, hb row hm⟩)

/-- The output reservation that a call makes. -/
def Call.reservesOutput : Call → List OutputReservationRow
  | .start id _ output _ => reservationRows id output
  | _ => []

theorem Change.reservesOutput (h : Change handle clock t call t') :
    t'.outputReservations.rows = t.outputReservations.rows ++ call.reservesOutput := by
  cases h with
  | start _ _ _ _ _ _ _ _ _ _ _ _ outputs => exact Table.insertAll_rows outputs
  | _ => simp [Call.reservesOutput, Tables.tick]

theorem mem_reservesOutput {r : OutputReservationRow} (h : r ∈ call.reservesOutput) :
    ∃ request o guards, call = .start r.operationId request (some (.typed o)) guards ∧
      r.reservation = o.toReservationFields := by
  unfold Call.reservesOutput at h
  split at h
  · unfold reservationRows at h
    split at h
    · rw [List.mem_singleton] at h
      subst h
      exact ⟨_, _, _, rfl, rfl⟩
    · cases h
  · cases h

/-- A reservation that is not settled after a change was not settled before
it, or is new. -/
theorem Change.unsettled (h : Change handle clock t call t') {r : OutputReservationRow}
    (hu : t'.Unsettled r) :
    t.Unsettled r ∨ (r ∈ call.reservesOutput ∧ r.reservation.kind = .model) := by
  obtain ⟨hm, hk, hs⟩ := hu
  rw [h.reservesOutput, List.mem_append] at hm
  refine hm.imp (fun hm => ⟨hm, hk, fun hset => hs ?_⟩) fun hm => ⟨hm, hk⟩
  rcases hr : t.report r.operationId with _ | u
  · rw [hr] at hset
    exact hset.elim
  · rw [h.report_stays hr, ← hr]
    exact hset

/-! ## Every run -/

/-- What holds of the output budget of every run with a limit. -/
structure Capped (limit : Int) (t : Tables) : Prop where
  sound : Sound t
  limited : t.run.limits.outputTokens = some limit
  reserved : ∀ r ∈ t.outputReservations.rows, (t.operation? r.operationId).isSome = true
  reported : ∀ u ∈ t.inferenceUsage.rows, (t.operation? u.operationId).isSome = true
  within : t.tally.breached = 0 → t.tally.spent + t.tally.held ≤ limit
  single : ∀ {r q : OutputReservationRow}, t.Unsettled r → t.Unsettled q → r = q

variable {limit : Int}

/-- What a start passed when it reserved output. -/
theorem Capped.admitted (hc : Capped limit t) (h : Change handle clock t call t')
    {r : OutputReservationRow} (hr : r ∈ call.reservesOutput) :
    r.reservation.postInit = none ∧
      (r.reservation.kind = .model → t.tally.unresolved = 0 ∧ t.tally.breached = 0 ∧
        r.reservation.tokens ≤ max 0 (limit - t.tally.spent - t.tally.held)) := by
  obtain ⟨request, o, guards, rfl, ho⟩ := mem_reservesOutput hr
  refine ⟨by rw [ho]; exact o.accepted, fun hk => ?_⟩
  cases h with
  | start _ _ _ _ budgeted admitted =>
    rw [hc.sound.outputBudget hc.limited] at budgeted
    cases budgeted
    obtain ⟨o', he, -, hmodel⟩ := (admitOutput_ok rfl).mp admitted
    cases he
    rw [ho] at hk
    obtain ⟨hu, hb, a, ha, hle⟩ := hmodel hk
    cases ha
    rw [ho]
    exact ⟨hu, hb, hle⟩

/-- A call reserves output once, or not at all. -/
theorem reservesOutput_cases (call : Call) :
    call.reservesOutput = [] ∨ ∃ r, call.reservesOutput = [r] := by
  unfold Call.reservesOutput
  split
  · unfold reservationRows
    split
    · exact .inr ⟨_, rfl⟩
    · exact .inl rfl
  · exact .inl rfl

theorem Capped.no_report (hc : Capped limit t) {id : String} (ho : t.operation? id = none) :
    t.report id = none := by
  unfold Tables.report
  rcases hl : t.inferenceUsage.lookup id with _ | u
  · rfl
  · obtain ⟨hm, hid⟩ := Table.lookup_some hl
    have := hc.reported u hm
    rw [hid, ho] at this
    cases this

/-- A new reservation has no report yet. -/
theorem Capped.new_report (hc : Capped limit t) (h : Change handle clock t call t')
    {r : OutputReservationRow} (hr : r ∈ call.reservesOutput) : t'.report r.operationId = none := by
  obtain ⟨request, o, guards, rfl, -⟩ := mem_reservesOutput hr
  have hnone := hc.no_report h.fresh
  rcases h.reports with he | ⟨_, _, _, hcall, -⟩
  · rw [Tables.report, he]
    exact hnone
  · cases hcall

theorem tally_breached_zero : t.tally.breached = 0 ↔
    ∀ r ∈ t.outputReservations.rows, (t.share r).breached = 0 := by
  rw [tally_eq]
  simp [List.sum_eq_zero_iff]

/-- An old reservation that breaches nothing takes no more than before. -/
theorem Capped.share_le (hc : Capped limit t) (h : Change handle clock t call t')
    {r : OutputReservationRow} (hr : r ∈ t.outputReservations.rows)
    (hb : (t'.share r).breached = 0) :
    (t.share r).breached = 0 ∧
      (t'.share r).spent + (t'.share r).held ≤ (t.share r).spent + (t.share r).held := by
  unfold Tables.share at hb ⊢
  rcases h.report_cases r.operationId with he | ⟨u, -, hn, hu, -⟩
  · rw [he] at hb ⊢
    exact ⟨hb, le_refl _⟩
  · rw [hu] at hb ⊢
    rw [hn]
    exact ⟨breached_none _, FlynnAgents.share_le (hc.sound.reservations r hr) hb⟩

/-- The output that the rows take: spent or held. -/
def Tables.taken (t : Tables) (rows : List OutputReservationRow) : Int :=
  (rows.map fun r => (t.share r).spent + (t.share r).held).sum

theorem tally_taken (t : Tables) :
    t.tally.spent + t.tally.held = t.taken t.outputReservations.rows := by
  rw [tally_eq, Tables.taken, List.sum_map_add]

theorem taken_append (t : Tables) (rows new : List OutputReservationRow) :
    t.taken (rows ++ new) = t.taken rows + t.taken new := by
  simp [Tables.taken]

/-- A new reservation takes its tokens, and they fit. -/
theorem Capped.taken_new (hc : Capped limit t) (h : Change handle clock t call t')
    (hin : t.tally.spent + t.tally.held ≤ limit) :
    t'.taken call.reservesOutput ≤ limit - (t.tally.spent + t.tally.held) := by
  rcases reservesOutput_cases call with hnew | ⟨r, hnew⟩
  · simp only [hnew, Tables.taken, List.map_nil, List.sum_nil]
    omega
  · have hr : r ∈ call.reservesOutput := by simp [hnew]
    obtain ⟨hvalid, hmodel⟩ := hc.admitted h hr
    simp only [hnew, Tables.taken, List.map_cons, List.map_nil, List.sum_cons, List.sum_nil,
      add_zero, Tables.share, hc.new_report h hr, share_none hvalid]
    rcases kind_cases r.reservation.kind with hk | hk
    · obtain ⟨-, -, hle⟩ := hmodel hk
      omega
    · rw [scripted_tokens hvalid hk]
      omega

theorem Capped.within_change (hc : Capped limit t) (h : Change handle clock t call t')
    (hb : t'.tally.breached = 0) : t'.tally.spent + t'.tally.held ≤ limit := by
  rw [tally_breached_zero] at hb
  have hold : ∀ r ∈ t.outputReservations.rows, (t.share r).breached = 0 ∧
      (t'.share r).spent + (t'.share r).held ≤ (t.share r).spent + (t.share r).held :=
    fun r hr => hc.share_le h hr (hb r (by rw [h.reservesOutput]; simp [hr]))
  have hbefore := hc.within (tally_breached_zero.mpr fun r hr => (hold r hr).1)
  have hnew := hc.taken_new h hbefore
  have hle : t'.taken t.outputReservations.rows ≤ t.taken t.outputReservations.rows :=
    List.sum_le_sum fun r hr => (hold r hr).2
  rw [tally_taken] at hnew ⊢
  rw [h.reservesOutput, taken_append]
  linarith

theorem Capped.single_change (hc : Capped limit t) (h : Change handle clock t call t')
    {r q : OutputReservationRow} (hr : t'.Unsettled r) (hq : t'.Unsettled q) : r = q := by
  -- a new model reservation is admitted only when every other one is settled
  have hnew : ∀ {r}, r ∈ call.reservesOutput → r.reservation.kind = .model →
      ∀ q, ¬ t.Unsettled q := by
    intro r hr hk
    obtain ⟨hu, hb, -⟩ := (hc.admitted h hr).2 hk
    exact tally_settled hu hb
  rcases h.unsettled hr with hr | ⟨hr, hkr⟩ <;> rcases h.unsettled hq with hq | ⟨hq, hkq⟩
  · exact hc.single hr hq
  · exact absurd hr (hnew hq hkq r)
  · exact absurd hq (hnew hr hkr q)
  · rcases reservesOutput_cases call with hn | ⟨x, hn⟩
    · rw [hn] at hr
      cases hr
    · rw [hn, List.mem_singleton] at hr hq
      rw [hr, hq]

theorem Capped.change (hc : Capped limit t) (h : Change handle clock t call t') :
    Capped limit t' where
  sound := by
    refine ⟨by rw [h.limits]; exact hc.sound.limits, fun r hr => ?_, fun u hu => ?_⟩
    · rw [h.reservesOutput, List.mem_append] at hr
      exact hr.elim (hc.sound.reservations r) fun hr => (hc.admitted h hr).1
    · rcases h.reports with he | ⟨id, v, _, -, -, -, hi⟩
      · exact hc.sound.reports u (he ▸ hu)
      · rcases (Table.mem_insert hi).mp hu with hu | rfl
        · exact hc.sound.reports u hu
        · exact v.accepted
  limited := by rw [h.limits]; exact hc.limited
  reserved r hr := by
    rw [h.started_iff]
    rw [h.reservesOutput, List.mem_append] at hr
    refine hr.imp (hc.reserved r) fun hr => ?_
    obtain ⟨_, _, _, rfl, -⟩ := mem_reservesOutput hr
    simp [Call.reserves]
  reported u hu := by
    rw [h.started_iff]
    rcases h.reports with he | ⟨id, v, row, -, ho, -, hi⟩
    · exact .inl (hc.reported u (he ▸ hu))
    · rcases (Table.mem_insert hi).mp hu with hu | rfl
      · exact .inl (hc.reported u hu)
      · exact .inl (Option.isSome_of_eq_some ho)
  within := hc.within_change h
  single := hc.single_change h

theorem capped_fresh {now : ℚ} {id state : String} {limits : RunLimits}
    {observation : Option String} (hl : limits.outputTokens = some limit) :
    Capped limit (Tables.fresh (createdRow now id state limits observation)) where
  sound := ⟨limits.accepted, fun r hr => (by cases hr), fun u hu => (by cases hu)⟩
  limited := hl
  reserved r hr := by cases hr
  reported u hu := by cases hu
  within _ := by
    have h := limits.accepted
    unfold LimitFields.postInit at h
    rw [hl] at h
    split at h
    · cases h
    · split at h
      · cases h
      · rename_i hn
        have hn : 0 ≤ limit ∧ limit < 2 ^ 63 := by simpa [sqliteInteger] using hn
        simpa [Tables.tally, Tables.fresh] using hn.1
  single h := by cases h.1

theorem capped_after {self : SQLiteRun} (h : Capped limit self.db) (calls : List Timed) :
    Capped limit (self.after calls).db :=
  after_keeps (Capped limit) (fun _ _ _ _ _ hi hc => hi.change hc) h calls

/-! ## A reservation that stays open -/

/-- No report can settle the reservation any more: its operation has left
inference, or its report is in. -/
def Stuck (t : Tables) (r : OutputReservationRow) : Prop :=
  t.Unsettled r ∧ ((t.report r.operationId).isSome = true ∨
    ∃ row, t.operation? r.operationId = some row ∧ row.stage ≠ .inference)

theorem Moves.to_inference {id : String} {row row' : OperationRow} (h : Moves id call row row')
    (hs : row'.stage = .inference) : row.stage = .inference := by
  cases h with
  | failed =>
    revert hs
    cases row.stage <;> simp [Stage.afterFailure]
  | _ => cases hs

/-- An operation that left inference does not come back to it. -/
theorem Change.left_inference (h : Change handle clock t call t') {id : String} {row : OperationRow}
    (ho : t.operation? id = some row) (hs : row.stage ≠ .inference) :
    ∃ row', t'.operation? id = some row' ∧ row'.stage ≠ .inference := by
  rcases h.lookup id with ⟨-, he⟩ | ⟨hn, -⟩ | ⟨row₁, row', hr, hr', hm⟩
  · exact ⟨row, he.trans ho, hs⟩
  · rw [ho] at hn
    cases hn
  · rw [ho] at hr
    cases hr
    exact ⟨row', hr', fun hs' => hs (hm.to_inference hs')⟩

theorem Stuck.change {r : OutputReservationRow} (hs : Stuck t r)
    (h : Change handle clock t call t') : Stuck t' r := by
  obtain ⟨⟨hm, hk, hset⟩, hor⟩ := hs
  rcases h.report_cases r.operationId with he | ⟨_, -, hn, -, row, ho, hi⟩
  · refine ⟨⟨?_, hk, by rwa [he]⟩, ?_⟩
    · rw [h.reservesOutput]
      simp [hm]
    · rw [he]
      refine hor.imp_right ?_
      rintro ⟨row, ho, hi⟩
      exact h.left_inference ho hi
  · rcases hor with hsome | ⟨row', ho', hi'⟩
    · rw [hn] at hsome
      cases hsome
    · rw [ho] at ho'
      cases ho'
      exact absurd hi hi'

theorem unsettled_open {r : OutputReservationRow} (h : t.Unsettled r) :
    ¬ (t.tally.unresolved = 0 ∧ t.tally.breached = 0) := by
  rintro ⟨hu, hb⟩
  exact tally_settled hu hb r h

/-! ## What `start` asks for -/

/-- The checks of `start` that have nothing to do with the output budget. -/
structure Startable (self : SQLiteRun) (clock : Clock) (id : String) (request : InferenceRequest)
    (guards : List String) : Prop where
  live : ∃ handle, self.handle = some handle ∧ Timely handle clock self.db
  named : guards.any blank = false
  distinct : guards.Nodup
  ready : self.db.checkReady = .ok ()
  base : request.base = self.db.read
  nonempty : id ≠ ""
  fresh : self.db.operation? id = none
  room : 0 < self.db.remaining .inference
  written : request.unwritable = false

variable {self : SQLiteRun} {log : List Entry}

/-- A start that passes its checks and is admitted finds its rows free. -/
theorem start_succeeds (hr : Reserved log self.db) (hg : Guarded log self.db)
    (hc : Capped limit self.db) {id : String} {request : InferenceRequest}
    {output : Option (Dyn OutputReservation)} {guards : List String} {budget : OutputBudget}
    (hs : Startable self clock id request guards) (hb : self.db.outputBudget = .ok budget)
    (ha : admitOutput budget request output = .ok ()) :
    (exec ⟨clock, .start id request output (.typed guards)⟩ self).1.ok = true := by
  obtain ⟨⟨handle, hh, timely⟩, named, distinct, ready, base, nonempty, fresh, room, written⟩ := hs
  obtain ⟨ops, hops⟩ := Table.insert_of_fresh (t := self.db.operations)
    (r := { id, stage := .inference, request }) (Table.lookup_eq_none_iff.mp fresh)
  have hgone : ¬ (self.db.operation? id).isSome = true := by simp [fresh]
  obtain ⟨reqs, hreqs⟩ := Table.insertAll_of_fresh (t := self.db.guardRequirements)
    (l := requirementRows id guards)
    (by
      rw [requirementRows, List.map_map]
      exact distinct.map fun g g' he => congrArg Prod.snd he)
    (by
      rintro r hr ⟨q, hq, hk⟩
      obtain ⟨g, -, rfl⟩ := List.mem_map.mp hr
      have hid : q.operationId = id := congrArg Prod.fst hk
      exact hgone (hid ▸ hg.known q hq))
  obtain ⟨res, hres⟩ := Table.insert_of_fresh (t := self.db.reservations)
    (r := ⟨id, .inference⟩) (fun hh => hgone ((hr.inference id).mp hh))
  obtain ⟨outs, houts⟩ := Table.insertAll_of_fresh (t := self.db.outputReservations)
    (l := reservationRows id output)
    (by
      unfold reservationRows
      split <;> simp)
    (by
      rintro r hr ⟨q, hq, hk⟩
      have hid : r.operationId = id := by
        unfold reservationRows at hr
        split at hr
        · rw [List.mem_singleton.mp hr]
        · cases hr
      exact hgone (hk.trans hid ▸ hc.reserved q hq))
  have hcommits : Commits clock (.start id request output (.typed guards)) self
      { self with db := _ } := ⟨handle, _, hh,
    .start named distinct ready timely hb ha base nonempty hops hreqs room hres houts written, rfl⟩
  exact ok_of_commits rfl hcommits

theorem start_admitted {i : Timed} {id : String} {request : InferenceRequest}
    {output : Option (Dyn OutputReservation)} {guards : List String}
    (hi : i.call = .start id request output (.typed guards)) (hok : (exec i self).1.ok = true) :
    Startable self i.clock id request guards ∧ ∃ budget, self.db.outputBudget = .ok budget ∧
      admitOutput budget request output = .ok () := by
  obtain ⟨handle, t', hh, hc, -⟩ := commits_of_ok (i := i) (by rw [hi]; rfl) hok
  rw [hi] at hc
  have hfresh := hc.fresh
  cases hc with
  | start named distinct ready timely budgeted admitted base nonempty _ _ room _ _ written =>
    exact ⟨⟨⟨handle, hh, timely⟩, named, distinct, ready, base, nonempty, hfresh, room, written⟩,
      _, budgeted, admitted⟩

/-- A scripted reservation passes whatever the budget is. -/
theorem scripted_start_ok (hr : Reserved log self.db) (hg : Guarded log self.db)
    (hc : Capped limit self.db) {id : String} {request : InferenceRequest}
    {o : OutputReservation} {guards : List String} (hk : o.kind = .scripted) :
    (exec ⟨clock, .start id request (some (.typed o)) (.typed guards)⟩ self).1.ok = true ↔
      Startable self clock id request guards ∧ request.maxOutputTokens = some 0 := by
  have hzero : o.tokens = 0 := scripted_tokens o.accepted hk
  have hbudget := hc.sound.outputBudget hc.limited
  constructor
  · intro hok
    obtain ⟨hs, budget, hb, ha⟩ := start_admitted rfl hok
    rw [hbudget] at hb
    cases hb
    obtain ⟨o', he, hm, -⟩ := (admitOutput_ok rfl).mp ha
    cases he
    exact ⟨hs, by rw [hm, hzero]⟩
  · rintro ⟨hs, hm⟩
    refine start_succeeds hr hg hc hs hbudget ((admitOutput_ok rfl).mpr ⟨o, rfl, ?_, ?_⟩)
    · rw [hm, hzero]
    · intro hk'
      rw [hk] at hk'
      cases hk'

/-- A model reservation passes only within what is left, with nothing open. -/
theorem model_start_fits (hc : Capped limit self.db) {i : Timed} {id : String}
    {request : InferenceRequest} {o : OutputReservation} {guards : Dyn (List String)}
    (hi : i.call = .start id request (some (.typed o)) guards) (hk : o.kind = .model)
    (hok : (exec i self).1.ok = true) :
    self.db.tally.unresolved = 0 ∧ self.db.tally.breached = 0 ∧
      o.tokens ≤ max 0 (limit - self.db.tally.spent - self.db.tally.held) := by
  obtain ⟨handle, t', -, h, -⟩ := commits_of_ok (i := i) (by rw [hi]; rfl) hok
  have hr : ⟨id, o.toReservationFields⟩ ∈ i.call.reservesOutput := by
    simp [hi, Call.reservesOutput, reservationRows]
  exact (hc.admitted h hr).2 hk

theorem tally_nonneg (hs : Sound t) : 0 ≤ t.tally.held := by
  rw [tally_eq]
  refine List.sum_nonneg fun x hx => ?_
  obtain ⟨r, hr, rfl⟩ := List.mem_map.mp hx
  exact held_nonneg (tokens_nonneg (hs.reservations r hr)) _

theorem model_tokens_pos {r : ReservationFields} (h : r.postInit = none) (hk : r.kind = .model) :
    0 < r.tokens := by
  have hn := tokens_nonneg h
  unfold ReservationFields.postInit at h
  split at h
  · cases h
  · split at h
    · cases h
    · rename_i hne
      rw [ne_eq, not_not, hk] at hne
      have : r.tokens ≠ 0 := fun hz => nomatch hne.mpr hz
      omega

/-- For every sequence of calls of a run with an output limit: (a) while
nothing was breached, what is spent and held is within the limit; (b) at most
one model reservation is not settled; (c) one that can no longer be settled
stays so for ever and no model start succeeds after it, while a scripted
start depends on the other checks alone; (d) a model start reserves no more
than the limit leaves after what was spent. -/
theorem output_stays_within_the_cap {now : ℚ} {runId state : Dyn String} {limits : RunLimits}
    {observation : Option (Dyn String)}
    (h : SQLiteRun.create now clock runId state limits observation = .ok self)
    (hl : limits.outputTokens = some limit) (calls : List Timed) :
    (∃ b, (self.after calls).db.outputBudget = .ok b ∧ b.limit = some limit ∧
      (b.breached = 0 → b.spent + b.held ≤ limit ∧
        b.available = some (limit - b.spent - b.held))) ∧
    (∀ r q, (self.after calls).db.Unsettled r → (self.after calls).db.Unsettled q → r = q) ∧
    (∀ r, Stuck (self.after calls).db r → ∀ more, (self.after (calls ++ more)).db.Unsettled r ∧
      ∀ i id request o guards, i.call = .start id request (some (.typed o)) guards →
        o.kind = .model → (exec i (self.after (calls ++ more))).1.ok = false) ∧
    (∀ clock id request o guards, o.kind = .scripted →
      ((exec ⟨clock, .start id request (some (.typed o)) (.typed guards)⟩
          (self.after calls)).1.ok = true ↔
        Startable (self.after calls) clock id request guards ∧
          request.maxOutputTokens = some 0)) ∧
    (∀ i id request o guards b, i.call = .start id request (some (.typed o)) guards →
      o.kind = .model → (exec i (self.after calls)).1.ok = true →
      (self.after calls).db.outputBudget = .ok b → o.tokens ≤ limit - b.spent) := by
  obtain ⟨id, text, seen, hdb, -⟩ := create_ok h
  have hc : ∀ calls, Capped limit (self.after calls).db :=
    fun calls => capped_after (hdb ▸ capped_fresh hl) calls
  have hr : Reserved (self.log calls) (self.after calls).db :=
    reserved_after (hdb ▸ reserved_fresh) calls
  have hg : Guarded (self.log calls) (self.after calls).db :=
    guarded_after (hdb ▸ guarded_fresh _) calls
  have hbudget := (hc calls).sound.outputBudget (hc calls).limited
  refine ⟨⟨_, hbudget, rfl, fun hb => ?_⟩, fun r q => (hc calls).single, fun r hs more => ?_,
    fun clock id request o guards hk => scripted_start_ok hr hg (hc calls) hk,
    fun i id request o guards b hi hk hok hb => ?_⟩
  · have hle := (hc calls).within hb
    refine ⟨hle, ?_⟩
    rw [max_eq_right (by linarith)]
  · have hstuck : Stuck (self.after (calls ++ more)).db r := by
      simp only [SQLiteRun.after, Machines.after_append]
      exact after_keeps (fun t => Stuck t r) (fun _ _ _ _ _ hi hc => hi.change hc) hs more
    refine ⟨hstuck.1, fun i id request o guards hi hk => ?_⟩
    by_contra hok
    rw [Bool.not_eq_false] at hok
    obtain ⟨hu, hb, -⟩ := model_start_fits (hc (calls ++ more)) hi hk hok
    exact unsettled_open hstuck.1 ⟨hu, hb⟩
  · obtain ⟨-, -, hle⟩ := model_start_fits (hc calls) hi hk hok
    rw [hbudget] at hb
    cases hb
    have hheld := tally_nonneg (hc calls).sound
    have hpos := model_tokens_pos o.accepted hk
    simp only
    rcases le_max_iff.mp hle with hz | hz <;> omega

theorem cappedLimits_accepted : LimitFields.postInit ⟨3, 3, 3, none, some 10⟩ = none := by decide

theorem sampleOutput_accepted : ReservationFields.postInit ⟨.model, 6⟩ = none := by decide

theorem scriptedOutput_accepted : ReservationFields.postInit ⟨.scripted, 0⟩ = none := by decide

/-- A report of a model whose output stays unknown. -/
def unknownFields : UsageFields where
  kind := .model
  status := .unknown
  requestStarted := true
  provider := some "provider"
  model := some "model"

theorem unknownFields_accepted : unknownFields.postInit = none := by decide

/-- A run of ten output tokens. -/
abbrev cappedRun : SQLiteRun := sampleRun (sampleLimits none (some 10) cappedLimits_accepted)

/-- A start of a model that reserves six tokens. -/
def modelStart (id : String) : Call :=
  .start id { sampleRequest with maxOutputTokens := some 6 }
    (some (.typed ⟨⟨.model, 6⟩, sampleOutput_accepted⟩)) (.typed [])

/-- A model is asked, what it has put out stays unknown, and its operation is abandoned. -/
def unknownCalls : List Timed :=
  [⟨⟨0, 0⟩, modelStart "first"⟩,
    ⟨⟨1, 1⟩, .recordUsage "first" (.typed ⟨unknownFields, unknownFields_accepted⟩)⟩,
    ⟨⟨2, 2⟩, .abandonUndispatched "first"⟩]

/-- The reservation that stays open. -/
def unknownRow : OutputReservationRow := ⟨"first", ⟨.model, 6⟩⟩

theorem unknown_stuck : Stuck (cappedRun.after unknownCalls).db unknownRow := by
  have hrows : (cappedRun.after unknownCalls).db.outputReservations.rows = [unknownRow] := by
    decide +kernel
  have hreport : (cappedRun.after unknownCalls).db.report "first" = some unknownFields := by
    decide +kernel
  refine ⟨⟨hrows ▸ List.mem_singleton_self _, rfl, ?_⟩, .inl ?_⟩
  · change ¬ Settles _ ((cappedRun.after unknownCalls).db.report "first")
    rw [hreport]
    rintro ⟨-, n, hn, -⟩
    cases hn
  · change ((cappedRun.after unknownCalls).db.report "first").isSome = true
    rw [hreport]
    rfl

theorem output_stays_within_the_cap_sample :
    (∃ b, (cappedRun.after unknownCalls).db.outputBudget = .ok b ∧ b.spent + b.held ≤ 10 ∧
      b.available = some (10 - b.spent - b.held)) ∧
    (∀ q, (cappedRun.after unknownCalls).db.Unsettled q → unknownRow = q) ∧
    (exec ⟨⟨3, 3⟩, modelStart "second"⟩ (cappedRun.after unknownCalls)).1.ok = false ∧
    (exec ⟨⟨3, 3⟩, .start "second" { sampleRequest with maxOutputTokens := some 0 }
      (some (.typed ⟨⟨.scripted, 0⟩, scriptedOutput_accepted⟩)) (.typed [])⟩
        (cappedRun.after unknownCalls)).1.ok = true ∧
    ∀ b, (cappedRun.after []).db.outputBudget = .ok b → 6 ≤ 10 - b.spent := by
  have hfirst := output_stays_within_the_cap
    (create_sample (sampleLimits none (some 10) cappedLimits_accepted)) rfl []
  obtain ⟨⟨b, hb, -, hwithin⟩, hsingle, hstuck, hscripted, -⟩ := output_stays_within_the_cap
    (create_sample (sampleLimits none (some 10) cappedLimits_accepted)) rfl unknownCalls
  have hbreached : ((cappedRun.after unknownCalls).db.outputBudget.toOption.map
      OutputBudget.breached) = some 0 := by decide +kernel
  rw [hb] at hbreached
  obtain ⟨hle, havailable⟩ := hwithin (Option.some.inj hbreached)
  refine ⟨⟨b, hb, hle, havailable⟩, fun q hq => hsingle _ q unknown_stuck.1 hq, ?_, ?_, ?_⟩
  · exact (hstuck unknownRow unknown_stuck []).2 ⟨⟨3, 3⟩, modelStart "second"⟩ _ _ _ _ rfl rfl
  · refine (hscripted _ _ _ ⟨⟨.scripted, 0⟩, scriptedOutput_accepted⟩ [] rfl).mpr ⟨?_, rfl⟩
    have htimely : Timely ⟨none⟩ ⟨3, 3⟩ (cappedRun.after unknownCalls).db :=
      ⟨by decide +kernel, by decide +kernel, by simp [Handle.secondsRemaining]⟩
    exact ⟨⟨_, rfl, htimely⟩, rfl, List.nodup_nil, by decide +kernel, by decide +kernel, by decide,
      by decide +kernel, by decide +kernel, by decide +kernel⟩
  · intro b hb
    exact hfirst.2.2.2.2 ⟨⟨0, 0⟩, modelStart "first"⟩ _ _ ⟨⟨.model, 6⟩, sampleOutput_accepted⟩ _ b
      rfl rfl (by decide +kernel) hb

end FlynnAgents
