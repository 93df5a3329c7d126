-- The life of an operation: the moves that a row can make, and what holds of
-- the operations of every run. At most one operation is under way.
import FlynnAgents.StoreSteps

namespace FlynnAgents

open Relational Transactional

variable {handle : Handle} {clock : Clock} {t t' : Tables} {call : Call}

/-- The tool of the operation was dispatched. -/
def Stage.spent : Stage → Bool
  | .dispatched | .returned | .completed => true
  | _ => false

/-- The operation whose row a call writes. -/
def Call.writes : Call → Option String
  | .start id .. | .proposed id _ | .dispatch id .. | .returned id _ | .failed id _
  | .abandonUndispatched id => some id
  | .complete (.typed evaluation) => some evaluation.candidate.id
  | _ => none

/-- The move of the row of an operation that a call makes. -/
inductive Moves (id : String) : Call → OperationRow → OperationRow → Prop where
  | proposed {row : OperationRow} {call : ToolCall} (h : row.stage = .inference) :
      Moves id (.proposed id (.typed call)) row { row with stage := .proposed, call := some call }
  | dispatched {row : OperationRow} {observation externalAction : Bool}
      (h : row.stage = .proposed) :
      Moves id (.dispatch id observation externalAction) row
        { row with stage := .dispatched, observation := observation }
  | returned {row : OperationRow} {output : String} (h : row.stage = .dispatched) :
      Moves id (.returned id (.typed output)) row
        { row with stage := .returned, output := some output }
  | completed {row : OperationRow} {evaluation : Evaluation} (hid : evaluation.candidate.id = id)
      (h : row.stage = .returned) :
      Moves id (.complete (.typed evaluation)) row { row with stage := .completed }
  | failed {row : OperationRow} {error : String} :
      Moves id (.failed id error) row
        { row with stage := row.stage.afterFailure, error := some error }
  | abandoned {row : OperationRow} (h : row.stage = .inference ∨ row.stage = .proposed) :
      Moves id (.abandonUndispatched id) row
        { row with stage := .failed, error := some "recovered before dispatch" }

variable {id : String} {row row' : OperationRow}

theorem Moves.request (h : Moves id call row row') : row'.request = row.request := by
  cases h <;> rfl

/-- An operation that is over stays over. -/
theorem Moves.live (h : Moves id call row row') (hl : row'.stage.live = true) :
    row.stage.live = true := by
  cases h with
  | proposed h | dispatched h | returned h | completed _ h => rw [h]; rfl
  | failed =>
    revert hl
    cases row.stage <;> simp [Stage.afterFailure, Stage.live]
  | abandoned => cases hl

/-- Only a dispatch spends the tool. -/
theorem Moves.spent (h : Moves id call row row') :
    row'.stage.spent = row.stage.spent ∨
      (row.stage = .proposed ∧ row'.stage = .dispatched ∧
        ∃ observation externalAction, call = .dispatch id observation externalAction) := by
  cases h with
  | proposed h | returned h | completed _ h => exact .inl (by rw [h]; rfl)
  | dispatched h => exact .inr ⟨h, rfl, _, _, rfl⟩
  | failed => cases row.stage <;> simp [Stage.afterFailure, Stage.spent]
  | abandoned h => rcases h with h | h <;> exact .inl (by rw [h]; rfl)

/-- A row has what its stage says it was given. -/
structure OperationRow.Good (row : OperationRow) : Prop where
  called : row.stage = .proposed ∨ row.stage.spent = true → row.call.isSome = true
  returned : row.stage = .returned ∨ row.stage = .completed → row.output.isSome = true

theorem OperationRow.good_started (id : String) (request : InferenceRequest) :
    OperationRow.Good { id, stage := .inference, request } where
  called h := by simp [Stage.spent] at h
  returned h := by simp at h

theorem Moves.good (h : Moves id call row row') (hg : row.Good) : row'.Good := by
  obtain ⟨hc, hr⟩ := hg
  cases h with
  | proposed => exact ⟨fun _ => rfl, by simp⟩
  | dispatched h => exact ⟨fun _ => hc (.inl h), by simp⟩
  | returned h => exact ⟨fun _ => hc (.inr (by rw [h]; rfl)), fun _ => rfl⟩
  | completed _ h => exact ⟨fun _ => hc (.inr (by rw [h]; rfl)), fun _ => hr (.inl h)⟩
  | abandoned => exact ⟨by simp [Stage.spent], by simp⟩
  | failed =>
    constructor
    · intro hs
      refine hc ?_
      revert hs
      cases row.stage <;> simp [Stage.afterFailure, Stage.spent]
    · intro hs
      refine hr ?_
      revert hs
      cases row.stage <;> simp [Stage.afterFailure]

/-! ## One change -/

theorem lookup_move {k : String} {f : OperationRow → OperationRow}
    {hf : ∀ row, (f row).id = row.id} {started : Prop} (hw : call.writes = some id)
    (h : t.operation? id = some row) (hm : Moves id call row (f row)) :
    (call.writes ≠ some k ∧
      Tables.operation? { t with operations := t.operations.update id f hf } k = t.operation? k) ∨
      started ∨ ∃ row row', t.operation? k = some row ∧
        Tables.operation? { t with operations := t.operations.update id f hf } k = some row' ∧
        Moves k call row row' := by
  rw [Tables.operation?, Table.lookup_update]
  by_cases hk : id = k
  · subst hk
    rw [if_pos rfl]
    rw [Tables.operation?] at h ⊢
    exact .inr (.inr ⟨row, f row, h, by rw [h]; rfl, hm⟩)
  · rw [if_neg hk]
    exact .inl ⟨by simpa [hw] using hk, rfl⟩

/-- What a change does to one operation: it leaves it alone, it starts it, or
it moves its row. -/
theorem Change.lookup (h : Change handle clock t call t') (k : String) :
    (call.writes ≠ some k ∧ t'.operation? k = t.operation? k) ∨
      (t.operation? k = none ∧ ∃ request output guards, call = .start k request output guards ∧
        t'.operation? k = some { id := k, stage := .inference, request }) ∨
      ∃ row row', t.operation? k = some row ∧ t'.operation? k = some row' ∧
        Moves k call row row' := by
  cases h with
  | @start id request output guards _ ops _ _ _ _ _ _ _ _ _ _ _ operations =>
    simp only [Tables.operation?, Table.lookup_insert operations]
    by_cases hk : id = k
    · subst hk
      rw [if_pos rfl]
      refine .inr (.inl ⟨?_, request, output, _, rfl, rfl⟩)
      exact Table.lookup_eq_none_iff.mpr (Table.insert_eq_some_iff.mp operations).1
    · rw [if_neg hk]
      exact .inl ⟨by simpa [Call.writes] using hk, rfl⟩
  | recordGuard | recordEvent | recordUsage | finish => exact .inl ⟨by simp [Call.writes], rfl⟩
  | proposed _ operation stage => exact lookup_move rfl operation (.proposed stage)
  | dispatch _ operation stage => exact lookup_move rfl operation (.dispatched stage)
  | returned operation stage => exact lookup_move rfl operation (.returned stage)
  | complete _ operation stage _ checked =>
    have hid := congrArg Candidate.id (checkEvaluation_binds checked)
    rw [hid] at operation
    exact lookup_move (congrArg some hid) operation (.completed hid stage)
  | failed operation => exact lookup_move rfl operation .failed
  | abandonUndispatched _ operation stage => exact lookup_move rfl operation (.abandoned stage)

/-- The operation is in the stage. -/
def Tables.At (t : Tables) (id : String) (stage : Stage) : Prop :=
  ∃ row, t.operation? id = some row ∧ row.stage = stage

theorem at_unique {id : String} {stage stage' : Stage} (h : t.At id stage) (h' : t.At id stage') :
    stage = stage' := by
  obtain ⟨row, hr, rfl⟩ := h
  obtain ⟨row', hr', rfl⟩ := h'
  rw [hr] at hr'
  cases hr'
  rfl

/-- A stage after the dispatch is left by one move only. -/
theorem Moves.stays (h : Moves id call row row') (hs : row.stage.spent = true) :
    row'.stage = row.stage ∨
    (row.stage = .dispatched ∧ ∃ output, call = .returned id (.typed output)) ∨
      (row.stage = .returned ∧ ∃ e, call = .complete (.typed e) ∧ e.candidate.id = id) := by
  cases h with
  | proposed h | dispatched h =>
    rw [h] at hs
    cases hs
  | returned h => exact .inr (.inl ⟨h, _, rfl⟩)
  | completed hid h => exact .inr (.inr ⟨h, _, rfl, hid⟩)
  | failed =>
    left
    revert hs
    cases row.stage <;> simp [Stage.afterFailure, Stage.spent]
  | abandoned h => rcases h with h | h <;> rw [h] at hs <;> cases hs

theorem Change.stays (h : Change handle clock t call t') {stage : Stage}
    (hs : stage.spent = true) (ha : t.At id stage) :
    t'.At id stage ∨ (stage = .dispatched ∧ ∃ output, call = .returned id (.typed output)) ∨
      (stage = .returned ∧ ∃ e, call = .complete (.typed e) ∧ e.candidate.id = id) := by
  obtain ⟨row, ho, rfl⟩ := ha
  rcases h.lookup id with ⟨-, he⟩ | ⟨hn, -⟩ | ⟨row₁, row', hr, hr', hm⟩
  · exact .inl ⟨row, he.trans ho, rfl⟩
  · rw [ho] at hn
    cases hn
  · rw [ho] at hr
    cases hr
    exact (hm.stays hs).imp_left fun he => ⟨row', hr', he⟩

/-! ## The reports -/

/-- The report of an operation. -/
def Tables.report (t : Tables) (id : String) : Option UsageFields :=
  (t.inferenceUsage.lookup id).map UsageRow.payload

/-- A report is written once, while its operation is in inference. -/
theorem Change.reports (h : Change handle clock t call t') :
    t'.inferenceUsage = t.inferenceUsage ∨
      ∃ id u row, call = .recordUsage id (.typed u) ∧ t.operation? id = some row ∧
        row.stage = .inference ∧
        t.inferenceUsage.insert ⟨id, u.toUsageFields⟩ = some t'.inferenceUsage := by
  cases h with
  | recordUsage _ operation stage reported =>
    exact .inr ⟨_, _, _, rfl, operation, stage, reported⟩
  | _ => exact .inl rfl

/-- A report that is there stays as it is. -/
theorem Change.report_stays (h : Change handle clock t call t') {id : String} {u : UsageFields}
    (hu : t.report id = some u) : t'.report id = some u := by
  rcases h.reports with he | ⟨i, v, _, -, -, -, hi⟩
  · rwa [Tables.report, he]
  · unfold Tables.report at hu ⊢
    obtain ⟨row, hr, rfl⟩ := Option.map_eq_some_iff.mp hu
    rw [Table.lookup_insert hi, if_neg, hr]
    · rfl
    · rintro rfl
      exact (Table.insert_eq_some_iff.mp hi).1 (Table.has_iff_lookup.mpr ⟨row, hr⟩)

/-- What a change does to one report: nothing, or it writes it while the
operation is in inference. -/
theorem Change.report_cases (h : Change handle clock t call t') (id : String) :
    t'.report id = t.report id ∨
      ∃ u, call = .recordUsage id (.typed u) ∧ t.report id = none ∧
        t'.report id = some u.toUsageFields ∧
        ∃ row, t.operation? id = some row ∧ row.stage = .inference := by
  rcases h.reports with he | ⟨i, v, row, hc, hr, hs, hi⟩
  · exact .inl (by rw [Tables.report, Tables.report, he])
  · by_cases hid : i = id
    · subst hid
      refine .inr ⟨v, hc, ?_, ?_, row, hr, hs⟩
      · rw [Tables.report, Table.lookup_eq_none_iff.mpr (Table.insert_eq_some_iff.mp hi).1]
        rfl
      · rw [Tables.report, Table.lookup_insert hi, if_pos rfl]
        rfl
    · refine .inl ?_
      rw [Tables.report, Table.lookup_insert hi, if_neg hid]
      rfl

/-! ## Every run -/

theorem pending_none : t.pending = .ok none ↔
    ∀ row ∈ t.operations.rows, row.stage.live = false := by
  unfold Tables.pending
  split
  · rename_i h
    simpa using h
  · rename_i row h
    have hm := List.mem_of_find?_eq_some h
    have hl : row.stage.live = true := by simpa using List.find?_some h
    have hne : ¬ ∀ q ∈ t.operations.rows, q.stage.live = false := fun hq => by
      rw [hq row hm] at hl
      cases hl
    simp only [hne, iff_false]
    split
    · rcases row.candidate with _ | c <;> simp [bind, Except.bind, pure, Except.pure]
    · simp

theorem checkReady_ok :
    t.checkReady = .ok () ↔
      t.run.outcome = none ∧ ∀ row ∈ t.operations.rows, row.stage.live = false := by
  unfold Tables.checkReady
  split
  · simp [*]
  · rename_i ho
    simp only [not_not.mp ho, true_and, ← pending_none]
    rcases t.pending with e | _ | p
    · simp [bind, Except.bind]
    · simp [bind, Except.bind, pure, Except.pure]
    · simp only [bind, Except.bind, Except.ok.injEq, reduceCtorEq, iff_false]
      split <;> simp

/-- What holds of the operations of every run. -/
structure Good (t : Tables) : Prop where
  single : ∀ {i j : String} {p q : OperationRow}, t.operation? i = some p →
    t.operation? j = some q → p.stage.live = true → q.stage.live = true → i = j
  rows : ∀ {i : String} {row : OperationRow}, t.operation? i = some row → row.Good

theorem good_fresh (run : RunRow) : Good (Tables.fresh run) where
  single h := by cases h
  rows h := by cases h

/-- An operation starts only when no other is under way. -/
theorem Change.quiet {id : String} {request : InferenceRequest}
    {output : Option (Dyn OutputReservation)} {guards : Dyn (List String)}
    (h : Change handle clock t (.start id request output guards) t') {k : String}
    {row : OperationRow} (ho : t.operation? k = some row) : row.stage.live = false := by
  cases h with
  | start _ _ ready => exact (checkReady_ok.mp ready).2 row (Table.lookup_some ho).1

/-- An operation starts under a new identity. -/
theorem Change.fresh {request : InferenceRequest} {output : Option (Dyn OutputReservation)}
    {guards : Dyn (List String)}
    (h : Change handle clock t (.start id request output guards) t') : t.operation? id = none := by
  cases h with
  | start _ _ _ _ _ _ _ _ operations =>
    exact Table.lookup_eq_none_iff.mpr (Table.insert_eq_some_iff.mp operations).1

/-- An operation that is under way after a change was under way before it, or
was just started. -/
theorem Change.live (h : Change handle clock t call t') {k : String} {row' : OperationRow}
    (ho : t'.operation? k = some row') (hl : row'.stage.live = true) :
    (∃ row, t.operation? k = some row ∧ row.stage.live = true) ∨
      ∃ request output guards, call = .start k request output guards := by
  rcases h.lookup k with ⟨-, he⟩ | ⟨-, request, output, guards, hc, -⟩ | ⟨row, row₂, hr, hr', hm⟩
  · exact .inl ⟨row', he ▸ ho, hl⟩
  · exact .inr ⟨request, output, guards, hc⟩
  · rw [ho] at hr'
    cases hr'
    exact .inl ⟨row, hr, hm.live hl⟩

theorem Good.change (hg : Good t) (h : Change handle clock t call t') : Good t' where
  single := by
    intro i j p q hi hj hp hq
    rcases h.live hi hp with ⟨p₀, hi₀, hp₀⟩ | ⟨_, _, _, hci⟩ <;>
      rcases h.live hj hq with ⟨q₀, hj₀, hq₀⟩ | ⟨_, _, _, hcj⟩
    · exact hg.single hi₀ hj₀ hp₀ hq₀
    · subst hcj
      rw [h.quiet hi₀] at hp₀
      cases hp₀
    · subst hci
      rw [h.quiet hj₀] at hq₀
      cases hq₀
    · rw [hci] at hcj
      cases hcj
      rfl
  rows := by
    intro i row' ho
    rcases h.lookup i with ⟨-, he⟩ | ⟨-, _, _, _, -, hn⟩ | ⟨row, row₂, hr, hr', hm⟩
    · exact hg.rows (he ▸ ho)
    · rw [ho] at hn
      cases hn
      exact OperationRow.good_started _ _
    · rw [ho] at hr'
      cases hr'
      exact hm.good (hg.rows hr)

theorem good_after {self : SQLiteRun} (h : Good self.db) (calls : List Timed) :
    Good (self.after calls).db :=
  after_keeps Good (fun _ _ _ _ _ hg hc => hg.change hc) h calls

end FlynnAgents
