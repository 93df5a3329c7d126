-- The latest observation. The query takes the last operation in the order of
-- the starts; that this is the last output in the order of the calls rests on
-- operations never overlapping.
import FlynnAgents.Durability

namespace FlynnAgents

open Relational

variable {handle : Handle} {clock : Clock} {self : SQLiteRun} {t t' : Tables} {call : Call}
  {log : List Entry} {id : String}

/-! ## What the log says -/

/-- The entry is a dispatch of the operation with `observation=True`. -/
def Entry.dispatchesObservation (e : Entry) (id : String) : Bool :=
  e.ok && match e.call with
    | .dispatch i true _ => decide (i = id)
    | _ => false

/-- The operation was dispatched with `observation=True`. -/
def observed (log : List Entry) (id : String) : Bool := log.any fun e => e.dispatchesObservation id

/-- The operation and the output of a `returned` that succeeded. -/
def Entry.returns (e : Entry) : Option (String × String) :=
  match e.call with
  | .returned id (.typed output) => if e.ok then some (id, output) else none
  | _ => none

/-- The output of a `returned` that succeeded on an operation dispatched with
`observation=True`. -/
def Entry.observes (log : List Entry) (e : Entry) : Option String :=
  match e.returns with
  | some r => if observed log r.1 then some r.2 else none
  | none => none

/-- The last such output, in the order of the calls. -/
def lastObserved (log : List Entry) : Option String := (log.filterMap (Entry.observes log)).getLast?

/-- The observation that a run is created with. -/
def initialOf : Option (Dyn String) → Option String
  | some (.typed s) => some s
  | _ => none

/-! ## What the rows say -/

/-- The output of a row that the query looks at. -/
def OperationRow.shown (row : OperationRow) : Option String :=
  if row.observation then row.output else none

/-- The output of the last such row. -/
def Tables.lastShown (t : Tables) : Option String :=
  (t.operations.rows.filterMap OperationRow.shown).getLast?

theorem find_shown (rows : List OperationRow) :
    (rows.find? fun row => row.observation && row.output.isSome).bind OperationRow.output =
      (rows.filterMap OperationRow.shown).head? := by
  induction rows with
  | nil => rfl
  | cons row rows ih =>
    rcases ho : row.observation with _ | _
    · have hshown : row.shown = none := if_neg (by rw [ho]; decide)
      rw [List.filterMap_cons_none hshown, ← ih]
      simp [ho]
    · have hshown : row.shown = row.output := if_pos ho
      rcases hs : row.output with _ | s
      · rw [List.filterMap_cons_none (hshown.trans hs), ← ih]
        simp [hs]
      · rw [List.filterMap_cons_some (hshown.trans hs)]
        simp [ho, hs]

theorem latestObservation_eq (t : Tables) :
    t.latestObservation = t.lastShown.or t.run.initialObservation := by
  have hfind := find_shown t.operations.rows.reverse
  rw [List.filterMap_reverse, List.head?_reverse] at hfind
  unfold Tables.latestObservation Tables.lastShown
  rw [← hfind]
  split
  · rename_i row hrow
    have hseen : (row.observation && row.output.isSome) = true := by
      simpa using List.find?_some hrow
    obtain ⟨s, hs⟩ := Option.isSome_iff_exists.mp (Bool.and_eq_true_iff.mp hseen).2
    rw [hrow, Option.bind_some, hs]
    rfl
  · rename_i hrow
    rw [hrow]
    rfl

/-! ## One change of the rows -/

/-- An update writes the new row in the place of the old one. -/
theorem update_rows {f : OperationRow → OperationRow} {row row' : OperationRow}
    (ho : t.operation? id = some row)
    (hu : t'.operations.rows = t.operations.rows.map fun q => if q.id = id then f q else q)
    (hr : f row = row') :
    t'.operations.rows = t.operations.rows.map fun q => if q.id = id then row' else q := by
  obtain ⟨hm, hid⟩ := Table.lookup_some ho
  rw [hu, ← hr]
  refine List.map_congr_left fun q hq => ?_
  by_cases he : q.id = id
  · rw [if_pos he, if_pos he, Table.eq_of_key hq hm (he.trans hid.symm)]
  · rw [if_neg he, if_neg he]

/-- What a change does to the rows of the operations: nothing, a new row when
every other one is over, or a move of one row in its place. -/
theorem Change.rows (h : Change handle clock t call t') :
    (call.writes = none ∧ t'.operations.rows = t.operations.rows) ∨
    (∃ id request output guards, call = .start id request output guards ∧
      (∀ row ∈ t.operations.rows, row.stage.live = false) ∧
      t'.operations.rows = t.operations.rows ++ [{ id, stage := .inference, request }]) ∨
    ∃ id row row', t.operation? id = some row ∧ Moves id call row row' ∧
      t'.operations.rows = t.operations.rows.map fun q => if q.id = id then row' else q := by
  cases h with
  | start _ _ ready _ _ _ _ _ operations =>
    exact .inr (.inl ⟨_, _, _, _, rfl, (checkReady_ok.mp ready).2,
      (Table.insert_eq_some_iff.mp operations).2⟩)
  | recordGuard | recordEvent | recordUsage | finish => exact .inl ⟨rfl, rfl⟩
  | proposed _ operation stage =>
    exact .inr (.inr ⟨_, _, _, operation, .proposed stage, update_rows operation rfl rfl⟩)
  | dispatch _ operation stage =>
    exact .inr (.inr ⟨_, _, _, operation, .dispatched stage, update_rows operation rfl rfl⟩)
  | returned operation stage =>
    exact .inr (.inr ⟨_, _, _, operation, .returned stage, update_rows operation rfl rfl⟩)
  | complete _ operation stage _ checked =>
    have hid := congrArg Candidate.id (checkEvaluation_binds checked)
    rw [hid] at operation
    exact .inr (.inr ⟨_, _, _, operation, .completed hid stage, update_rows operation rfl rfl⟩)
  | failed operation =>
    exact .inr (.inr ⟨_, _, _, operation, .failed, update_rows operation rfl rfl⟩)
  | abandonUndispatched _ operation stage =>
    exact .inr (.inr ⟨_, _, _, operation, .abandoned stage, update_rows operation rfl rfl⟩)

/-- Only `returned` changes what the query sees of a row. -/
theorem Moves.shown {row row' : OperationRow} (h : Moves id call row row') (hu : row.Unset) :
    row'.shown = row.shown ∨ ∃ output, call = .returned id (.typed output) ∧
      row.stage = .dispatched ∧ row' = { row with stage := .returned, output := some output } := by
  cases h with
  | dispatched h =>
    have hnone : row.output = none := hu.returned (by simp [h]) (by simp [h])
    left
    unfold OperationRow.shown
    simp only [hnone, ite_self]
  | returned h => exact .inr ⟨_, rfl, h, rfl⟩
  | _ => exact .inl rfl

/-! ## One entry of the log -/

theorem observed_append (log : List Entry) (e : Entry) (id : String) :
    observed (log ++ [e]) id = (observed log id || e.dispatchesObservation id) := by
  simp [observed]

theorem dispatchesObservation_iff {e : Entry} :
    e.dispatchesObservation id = true ↔ e.ok = true ∧ ∃ externalAction,
      e.call = .dispatch id true externalAction := by
  unfold Entry.dispatchesObservation
  rw [Bool.and_eq_true]
  refine and_congr_right fun _ => ?_
  split
  · rename_i i externalAction hc
    rw [hc]
    simp
  · rename_i hc
    simp only [Bool.false_eq_true, false_iff, not_exists]
    exact fun externalAction he => hc _ _ he

theorem returns_some {e : Entry} {output : String} :
    e.returns = some (id, output) ↔ e.ok = true ∧ e.call = .returned id (.typed output) := by
  unfold Entry.returns
  split
  · rename_i i o hc
    rw [hc]
    by_cases hok : e.ok = true
    · simp [hok]
    · simp [hok]
  · rename_i hc
    simp only [reduceCtorEq, false_iff, not_and]
    exact fun _ he => hc _ _ he

/-- A new entry is the last one, or the last one is as before, as long as no
operation that answered is dispatched. -/
theorem lastObserved_append {e : Entry}
    (h : ∀ d ∈ log, ∀ id output, d.returns = some (id, output) →
      e.dispatchesObservation id = false) :
    lastObserved (log ++ [e]) = (e.observes (log ++ [e])).or (lastObserved log) := by
  have hold : log.filterMap (Entry.observes (log ++ [e])) = log.filterMap (Entry.observes log) := by
    refine List.filterMap_congr fun d hd => ?_
    unfold Entry.observes
    rcases hr : d.returns with _ | ⟨id, output⟩
    · rfl
    · simp only [observed_append, h d hd id output hr, Bool.or_false]
  unfold lastObserved
  rw [List.filterMap_append, hold, List.getLast?_append]
  congr 1
  rcases ho : e.observes (log ++ [e]) with _ | s
  · rw [List.filterMap_cons_none ho]
    rfl
  · rw [List.filterMap_cons_some ho]
    rfl

theorem observes_none {e : Entry} (h : e.returns = none) : e.observes log = none := by
  unfold Entry.observes
  rw [h]

/-! ## Every run -/

/-- What ties the rows to the log of a run. -/
structure Sees (log : List Entry) (t : Tables) : Prop where
  unset : Unset t
  before : ∀ row ∈ t.operations.rows.dropLast, row.stage.live = false
  flagged : ∀ id row, t.operation? id = some row → row.observation = observed log id
  known : ∀ id, observed log id = true → t.Spent id
  answered : ∀ e ∈ log, ∀ id output, e.returns = some (id, output) → t.Spent id
  shown : t.lastShown = lastObserved log

theorem sees_fresh (run : RunRow) : Sees [] (Tables.fresh run) where
  unset := unset_fresh run
  before row hr := by cases hr
  flagged id row ho := by cases ho
  known id ho := by cases ho
  answered e he := by cases he
  shown := rfl

/-- A call that wrote nothing is no entry that counts. -/
theorem Sees.refused (h : Sees log t) {e : Entry} (he : e.call.mutates = true → e.ok = false) :
    Sees (log ++ [e]) t := by
  have hd : ∀ id, e.dispatchesObservation id = false := by
    intro id
    by_contra hn
    obtain ⟨hok, x, hc⟩ := dispatchesObservation_iff.mp (Bool.not_eq_false _ ▸ hn)
    rw [he (by rw [hc]; rfl)] at hok
    cases hok
  have hr : e.returns = none := by
    by_contra hn
    obtain ⟨⟨id, output⟩, hs⟩ := Option.ne_none_iff_exists'.mp hn
    obtain ⟨hok, hc⟩ := returns_some.mp hs
    rw [he (by rw [hc]; rfl)] at hok
    cases hok
  have hobs : ∀ id, observed (log ++ [e]) id = observed log id := fun id => by
    rw [observed_append, hd, Bool.or_false]
  refine { h with flagged := ?_, known := ?_, answered := ?_, shown := ?_ }
  · intro id row ho
    rw [hobs]
    exact h.flagged id row ho
  · intro id ho
    rw [hobs] at ho
    exact h.known id ho
  · intro d hm id output hs
    rcases List.mem_append.mp hm with hm | hm
    · exact h.answered d hm id output hs
    · rw [List.mem_singleton.mp hm, hr] at hs
      cases hs
  · rw [lastObserved_append fun d _ id output _ => hd id, observes_none hr]
    exact h.shown

theorem Moves.observation {row row' : OperationRow} (h : Moves id call row row') :
    row'.observation = row.observation ∨ (row.stage = .proposed ∧
      ∃ externalAction, call = .dispatch id row'.observation externalAction) := by
  cases h with
  | dispatched h => exact .inr ⟨h, _, rfl⟩
  | _ => exact .inl rfl

/-- What a change leaves of the rows that are over. -/
theorem Sees.before_change (h : Sees log t) (hc : Change handle clock t call t') :
    ∀ row ∈ t'.operations.rows.dropLast, row.stage.live = false := by
  rcases hc.rows with ⟨-, hrows⟩ | ⟨_, _, _, _, -, hover, hrows⟩ | ⟨id, row, row', ho, hm, hrows⟩
  · rw [hrows]
    exact h.before
  · rw [hrows, List.dropLast_concat]
    exact hover
  · rw [hrows, ← List.map_dropLast]
    intro r hr
    obtain ⟨q, hq, rfl⟩ := List.mem_map.mp hr
    have hover := h.before q hq
    by_cases hid : q.id = id
    · obtain ⟨hrow, hk⟩ := Table.lookup_some ho
      rw [Table.eq_of_key (List.dropLast_subset _ hq) hrow (hid.trans hk.symm)] at hover
      simp only [hid, if_true]
      by_contra hlive
      rw [hm.live (Bool.not_eq_false _ ▸ hlive)] at hover
      cases hover
    · simp only [hid, if_false]
      exact hover

/-- A row that is under way stands last. -/
theorem Sees.last (h : Sees log t) {row : OperationRow} (ho : t.operation? id = some row)
    (hl : row.stage.live = true) : t.operations.rows.dropLast ++ [row] = t.operations.rows := by
  have hm := (Table.lookup_some ho).1
  have hne : t.operations.rows ≠ [] := List.ne_nil_of_mem hm
  have hsplit := List.dropLast_append_getLast hne
  rw [← hsplit, List.mem_append] at hm
  rcases hm with hm | hm
  · rw [h.before row hm] at hl
    cases hl
  · rw [List.mem_singleton.mp hm]
    exact hsplit

theorem shown_update {row row' : OperationRow} (ho : t.operation? id = some row)
    (hrows : t'.operations.rows = t.operations.rows.map fun q => if q.id = id then row' else q)
    (hs : row'.shown = row.shown) :
    t'.operations.rows.filterMap OperationRow.shown =
      t.operations.rows.filterMap OperationRow.shown := by
  obtain ⟨hrow, hk⟩ := Table.lookup_some ho
  rw [hrows, List.filterMap_map]
  refine List.filterMap_congr fun q hq => ?_
  by_cases hid : q.id = id
  · rw [Table.eq_of_key hq hrow (hid.trans hk.symm)]
    simp [hk, hs]
  · simp [hid]

/-- What the query finds after a change: what `returned` gave, or what it found before. -/
theorem Sees.shown_change (h : Sees log t) (hc : Change handle clock t call t') :
    t'.lastShown = t.lastShown ∧ (∀ id output, call = .returned id (.typed output) →
      observed log id = false) ∨
    ∃ id output, call = .returned id (.typed output) ∧ observed log id = true ∧
      t'.lastShown = some output := by
  unfold Tables.lastShown
  rcases hc.rows with ⟨hw, hrows⟩ | ⟨i, request, _, _, rfl, -, hrows⟩ |
    ⟨id, row, row', ho, hm, hrows⟩
  · refine .inl ⟨by rw [hrows], ?_⟩
    rintro id output rfl
    cases hw
  · refine .inl ⟨?_, fun id output he => by cases he⟩
    have hnone : OperationRow.shown { id := i, stage := .inference, request } = none := rfl
    rw [hrows, List.filterMap_append, List.filterMap_cons_none hnone]
    simp
  · obtain ⟨hrow, hk⟩ := Table.lookup_some ho
    have hsame := shown_update ho hrows
    rcases hm.shown (h.unset id row ho) with hs | ⟨output, rfl, hst, rfl⟩
    · by_cases hr : ∃ output, call = .returned id (.typed output)
      · obtain ⟨output, rfl⟩ := hr
        cases hm with
        | returned hst =>
          -- a result that the query does not see: the operation is no observation
          refine .inl ⟨by rw [hsame hs], fun i o he => ?_⟩
          cases he
          have hnone : row.output = none :=
            (h.unset id row ho).returned (by simp [hst]) (by simp [hst])
          rw [← h.flagged id row ho]
          unfold OperationRow.shown at hs
          rw [hnone, ite_self] at hs
          by_contra hobs
          rw [if_pos (Bool.not_eq_false _ ▸ hobs)] at hs
          cases hs
      · refine .inl ⟨by rw [hsame hs], ?_⟩
        rintro i o rfl
        cases hm
        exact absurd ⟨_, rfl⟩ hr
    · by_cases hobs : row.observation = true
      · refine .inr ⟨id, output, rfl, by rw [← h.flagged id row ho]; exact hobs, ?_⟩
        have hlast := h.last ho (by rw [hst]; rfl)
        have hshown : OperationRow.shown { row with stage := .returned, output := some output } =
            some output := if_pos hobs
        rw [hrows, ← hlast, List.map_append, List.map_singleton, if_pos hk, List.filterMap_append,
          List.filterMap_cons_some hshown]
        simp
      · refine .inl ⟨?_, fun i o he => ?_⟩
        · rw [hsame]
          unfold OperationRow.shown
          simp [hobs]
        · cases he
          rw [← h.flagged id row ho]
          exact Bool.eq_false_iff.mpr hobs

/-- An operation that is dispatched had neither been dispatched nor answered before. -/
theorem Change.unspent_dispatched {e : Entry} (hc : Change handle e.clock t e.call t')
    (hd : e.dispatchesObservation id = true) : ¬ t.Spent id := by
  rintro ⟨row, ho, hs⟩
  obtain ⟨-, x, hcall⟩ := dispatchesObservation_iff.mp hd
  rw [hcall] at hc
  cases hc with
  | dispatch _ operation stage =>
    rw [ho] at operation
    cases operation
    rw [stage] at hs
    cases hs

theorem Change.spent_dispatched {e : Entry} (hc : Change handle e.clock t e.call t')
    (hd : e.dispatchesObservation id = true) : t'.Spent id := by
  obtain ⟨-, x, hcall⟩ := dispatchesObservation_iff.mp hd
  refine (hc.spent_iff id).mpr (.inr ?_)
  rw [hcall]
  exact List.mem_cons_self

theorem Change.spent_kept (hc : Change handle clock t call t') (hs : t.Spent id) : t'.Spent id :=
  (hc.spent_iff id).mpr (.inl hs)

theorem dispatchesObservation_false {e : Entry} (h : ∀ x, e.call ≠ .dispatch id true x) :
    e.dispatchesObservation id = false := by
  by_contra hd
  obtain ⟨-, x, hcall⟩ := dispatchesObservation_iff.mp (Bool.not_eq_false _ ▸ hd)
  exact h x hcall

theorem Sees.unobserved (h : Sees log t) (hs : ¬ t.Spent id) : observed log id = false := by
  by_contra hobs
  exact hs (h.known id (Bool.not_eq_false _ ▸ hobs))

/-- After a change a row says of its dispatch what the log says. -/
theorem Sees.flagged_change (h : Sees log t) {e : Entry} (hc : Change handle e.clock t e.call t')
    (hok : (∀ id u, e.call ≠ .recordUsage id u) → e.ok = true) {row' : OperationRow}
    (ho : t'.operation? id = some row') : row'.observation = observed (log ++ [e]) id := by
  rw [observed_append]
  rcases hc.lookup id with ⟨hw, he⟩ | ⟨hn, _, _, _, hcall, he⟩ | ⟨row, row₂, hr, hr', hm⟩
  · have hd : e.dispatchesObservation id = false :=
      dispatchesObservation_false fun x hcall => by
        rw [hcall] at hw
        exact hw rfl
    rw [hd, Bool.or_false]
    exact h.flagged id row' (he ▸ ho)
  · have hd : e.dispatchesObservation id = false :=
      dispatchesObservation_false fun x hx => by
        rw [hcall] at hx
        cases hx
    have hobs : observed log id = false := h.unobserved fun ⟨row, hr, _⟩ => by
      rw [hn] at hr
      cases hr
    rw [he] at ho
    cases ho
    rw [hd, hobs]
    rfl
  · rw [ho] at hr'
    cases hr'
    rcases hm.observation with he | ⟨hst, x, hcall⟩
    · have hd : e.dispatchesObservation id = true → row.observation = true := by
        intro hd
        obtain ⟨-, x, hcall⟩ := dispatchesObservation_iff.mp hd
        rw [hcall] at hm
        cases hm
        exact he.symm
      rw [he, h.flagged id row hr] at *
      by_cases hd' : e.dispatchesObservation id = true
      · rw [hd hd']
        rfl
      · rw [Bool.eq_false_iff.mpr hd', Bool.or_false]
    · have hobs : observed log id = false := h.unobserved fun ⟨q, hq, hs⟩ => by
        rw [hr] at hq
        cases hq
        rw [hst] at hs
        cases hs
      have hret : e.ok = true := hok fun i u he => by rw [hcall] at he; cases he
      rw [hobs, Bool.false_or]
      unfold Entry.dispatchesObservation
      rw [hcall, hret]
      cases row'.observation <;> simp

theorem Sees.answered_change (h : Sees log t) {e : Entry} (hc : Change handle e.clock t e.call t')
    {d : Entry} (hm : d ∈ log ++ [e]) {output : String} (hs : d.returns = some (id, output)) :
    t'.Spent id := by
  rcases List.mem_append.mp hm with hm | hm
  · exact hc.spent_kept (h.answered d hm id output hs)
  · rw [List.mem_singleton.mp hm] at hs
    obtain ⟨-, hcall⟩ := returns_some.mp hs
    have hkeep : t.Spent id → t'.Spent id := hc.spent_kept
    rw [hcall] at hc
    cases hc with
    | returned operation stage => exact hkeep ⟨_, operation, by rw [stage]; rfl⟩

/-- What the query finds after a change is the last output of the log with its entry. -/
theorem Sees.logged_change (h : Sees log t) {e : Entry} (hc : Change handle e.clock t e.call t')
    (hok : (∀ id u, e.call ≠ .recordUsage id u) → e.ok = true) :
    t'.lastShown = lastObserved (log ++ [e]) := by
  have hfresh : ∀ d ∈ log, ∀ id output, d.returns = some (id, output) →
      e.dispatchesObservation id = false := by
    intro d hd id output hs
    by_contra hn
    exact hc.unspent_dispatched (Bool.not_eq_false _ ▸ hn) (h.answered d hd id output hs)
  rw [lastObserved_append hfresh]
  rcases h.shown_change hc with ⟨hsame, hno⟩ | ⟨id, output, hcall, hobs, hnew⟩
  · have hnone : e.observes (log ++ [e]) = none := by
      unfold Entry.observes
      rcases hr : e.returns with _ | ⟨id, output⟩
      · rfl
      · obtain ⟨-, hcall⟩ := returns_some.mp hr
        have hd : e.dispatchesObservation id = false :=
          dispatchesObservation_false fun x hx => by
            rw [hcall] at hx
            cases hx
        simp only [observed_append, hno id output hcall, hd, Bool.or_self, Bool.false_eq_true,
          if_false]
    rw [hnone, hsame]
    exact h.shown
  · have hret : e.ok = true := hok fun i u he => by rw [hcall] at he; cases he
    have hsome : e.observes (log ++ [e]) = some output := by
      unfold Entry.observes
      rw [returns_some.mpr ⟨hret, hcall⟩]
      simp only [observed_append, hobs, Bool.true_or, if_true]
    rw [hsome, hnew]
    rfl

/-- A change that returned is an entry that counts as the rows do. -/
theorem Sees.change (h : Sees log t) {e : Entry} (hc : Change handle e.clock t e.call t')
    (hok : (∀ id u, e.call ≠ .recordUsage id u) → e.ok = true) : Sees (log ++ [e]) t' where
  unset := h.unset.change hc
  before := h.before_change hc
  flagged _ _ ho := h.flagged_change hc hok ho
  known id ho := by
    rw [observed_append, Bool.or_eq_true] at ho
    exact ho.elim (fun ho => hc.spent_kept (h.known id ho)) hc.spent_dispatched
  answered _ hm _ _ hs := h.answered_change hc hm hs
  shown := h.logged_change hc hok

/-- A call that made its change returned, but for a report. -/
theorem ok_of_change {i : Timed} (hl : Ledger self.db)
    (h : Commits i.clock i.call self (exec i self).2) (hu : ∀ id u, i.call ≠ .recordUsage id u) :
    (exec i self).1.ok = true := by
  by_cases hlate : i.call.raisesLate = true
  · obtain ⟨clock, call⟩ := i
    cases call with
    | recordUsage id u => exact absurd rfl (hu id u)
    | returned id output =>
      obtain ⟨_, c, hans, -⟩ := returned_answers hl h
      exact congrArg Except.isOk hans
    | _ => cases hlate
  · exact ok_of_commits (Bool.eq_false_iff.mpr hlate) h

theorem sees_after (hl : Ledger self.db) (h : Sees [] self.db) (calls : List Timed) :
    Sees (self.log calls) (self.after calls).db := by
  refine (Machines.run_keeps exec (fun l s => Ledger s.db ∧ Sees l s.db) self ⟨hl, h⟩
    (fun l s i hs => ⟨hs.1.exec i, ?_⟩) calls).2
  rcases exec_cases i s with ⟨hcommits, -⟩ | ⟨he, hno⟩
  · obtain ⟨handle, t', -, hc, he⟩ := id hcommits
    have hok := ok_of_change hs.1 hcommits
    rw [he]
    exact hs.2.change (e := (exec i s).1) hc hok
  · rw [he]
    exact hs.2.refused hno

theorem create_observation {now : ℚ} {runId state : Dyn String} {limits : RunLimits}
    {observation : Option (Dyn String)}
    (h : SQLiteRun.create now clock runId state limits observation = .ok self) :
    self.db.run.initialObservation = initialOf observation := by
  unfold SQLiteRun.create at h
  split at h
  · cases h
  · rw [(create_start_ok h).1]
    rfl
  · rw [(create_start_ok h).1]
    rfl
  · split at h <;> cases h

theorem Change.initialObservation (h : Change handle clock t call t') :
    t'.run.initialObservation = t.run.initialObservation := by
  cases h <;> rfl

/-- For every sequence of calls, whatever they return or raise, and through
every close and open: the latest observation is the output that was given to
the last `returned` that succeeded on an operation dispatched with
`observation=True`, or the initial one. Any other call leaves it as it is. -/
theorem the_latest_observation_is_the_latest {now : ℚ} {runId state : Dyn String}
    {limits : RunLimits} {observation : Option (Dyn String)}
    (h : SQLiteRun.create now clock runId state limits observation = .ok self)
    (calls : List Timed) :
    (self.after calls).db.latestObservation =
        (lastObserved (self.log calls)).or (initialOf observation) ∧
    (∀ clock, (self.after calls).handle.isSome = true →
      Call.latestObservation.answer clock (self.after calls) =
        .ok ((lastObserved (self.log calls)).or (initialOf observation))) ∧
    ∀ i, (∀ id output, (exec i (self.after calls)).1.returns = some (id, output) →
        observed (self.log calls) id = false) →
      (self.after (calls ++ [i])).db.latestObservation =
        (self.after calls).db.latestObservation := by
  obtain ⟨_, _, _, hdb, -⟩ := create_ok h
  have hl : Ledger self.db := hdb ▸ ledger_fresh _
  have hs : Sees [] self.db := hdb ▸ sees_fresh _
  have hinitial : ∀ calls, (self.after calls).db.run.initialObservation = initialOf observation :=
    fun calls => after_keeps (fun t => t.run.initialObservation = initialOf observation)
      (fun _ _ _ _ _ hi hc => hc.initialObservation.trans hi) (create_observation h) calls
  have hlatest : ∀ calls, (self.after calls).db.latestObservation =
      (self.after calls).db.lastShown.or (initialOf observation) := fun calls => by
    rw [latestObservation_eq, hinitial]
  have hnow : (self.after calls).db.latestObservation =
      (lastObserved (self.log calls)).or (initialOf observation) := by
    rw [hlatest, (sees_after hl hs calls).shown]
  refine ⟨hnow, fun clock hlive => ?_, fun i hi => ?_⟩
  · obtain ⟨handle, hh⟩ := Option.isSome_iff_exists.mp hlive
    exact (congrArg Prod.fst (query_of_live hh)).trans (congrArg Except.ok hnow)
  · have hsees := sees_after hl hs calls
    have hledger : Ledger (self.after calls).db :=
      after_keeps Ledger (fun _ _ _ _ _ hi hc => hi.change hc) hl calls
    rw [hlatest, hlatest]
    congr 1
    simp only [SQLiteRun.after, Machines.after_append]
    change (exec i (self.after calls)).2.db.lastShown = (self.after calls).db.lastShown
    rcases exec_cases i (self.after calls) with ⟨hcommits, -⟩ | ⟨he, -⟩
    · obtain ⟨handle, t', -, hc, he⟩ := id hcommits
      rcases hsees.shown_change hc with ⟨hsame, -⟩ | ⟨id, output, hcall, hobs, -⟩
      · rw [he]
        exact hsame
      · have hok := ok_of_change hledger hcommits fun i u hu => by rw [hcall] at hu; cases hu
        rw [hi id output (returns_some.mpr ⟨hok, hcall⟩)] at hobs
        cases hobs
    · rw [he]

/-- An operation from its start to its commit, observed on the way. -/
theorem the_latest_observation_is_the_latest_sample :
    ((sampleRun (sampleLimits none none (by decide))).after sampleCalls).db.latestObservation =
      (lastObserved ((sampleRun (sampleLimits none none (by decide))).log sampleCalls)).or none :=
  (the_latest_observation_is_the_latest (create_sample (sampleLimits none none (by decide)))
    sampleCalls).1

end FlynnAgents
