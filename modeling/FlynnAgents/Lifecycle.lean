-- The lifecycle of an operation as its events tell it. Every event stands for
-- a durable boundary, and a boundary that was crossed stays so.
import FlynnAgents.Durability

namespace FlynnAgents

open Relational

variable {handle : Handle} {clock : Clock} {self : SQLiteRun} {t t' : Tables} {call : Call}
  {o : String}

/-! ## The events of an operation -/

/-- The events of a step. -/
inductive Mark where
  | started
  | inferenceReturned
  | guardAllowed (guardId : String)
  | guardDenied (guardId : String)
  | toolDispatched (name : String)
  | toolReturned (name : String)
  | committed
  | observed
  | failed (label : String)
  | effectUnknown (label : String)
  deriving DecidableEq

/-- The stage and the detail of an event. -/
def Mark.event : Mark → String × String
  | .started => ("started", "")
  | .inferenceReturned => ("inference_returned", "")
  | .guardAllowed guardId => ("guard_allowed", guardId)
  | .guardDenied guardId => ("guard_denied", guardId)
  | .toolDispatched name => ("tool_dispatched", name)
  | .toolReturned name => ("tool_returned", name)
  | .committed => ("committed", "")
  | .observed => ("observed", "")
  | .failed label => ("failed", label)
  | .effectUnknown label => ("effect_unknown", label)

/-- The events of an operation, in the order of the file. -/
def Tables.events (t : Tables) (o : String) : List (String × String) :=
  (t.lifecycleEvents.filter fun e => decide (e.operationId = o)).map fun e => (e.stage, e.detail)

/-- The durable boundary that an event stands for. -/
def Boundary (t : Tables) (o : String) : Mark → Prop
  | .started => (t.operation? o).isSome = true
  | .inferenceReturned => ∃ row, t.operation? o = some row ∧ row.call.isSome = true
  | .guardAllowed guardId =>
    ∃ d, t.guardDecisions.lookup (o, guardId) = some d ∧ d.payload.allowed = true
  | .guardDenied guardId =>
    ∃ d, t.guardDecisions.lookup (o, guardId) = some d ∧ d.payload.allowed = false
  | .toolDispatched _ => t.Spent o ∧ t.reservations.Has (o, .tool)
  | .toolReturned _ => ∃ row, t.operation? o = some row ∧ row.output.isSome = true
  | .committed => t.evaluations.Has o ∧ ∃ c ∈ t.commits.rows, c.operationId = o
  | .observed => t.evaluations.Has o ∧ ∀ c ∈ t.commits.rows, c.operationId ≠ o
  | .failed _ => (t.operation? o).isSome = true
  | .effectUnknown _ => t.Spent o

theorem has_stays {ρ κ : Type} {key : ρ → κ} {t u : Table key} {k : κ}
    (h : t.rows <+: u.rows) (hk : t.Has k) : u.Has k := by
  obtain ⟨r, hr, he⟩ := hk
  exact ⟨r, h.subset hr, he⟩

/-- An operation that was evaluated gets no commit later. -/
theorem Change.uncommitted (h : Change handle clock t call t') (he : t.evaluations.Has o)
    (hc : ∀ c ∈ t.commits.rows, c.operationId ≠ o) : ∀ c ∈ t'.commits.rows, c.operationId ≠ o := by
  cases h with
  | complete _ _ _ _ _ _ evaluated _ _ committed =>
    intro c hm
    rcases (Table.mem_insertAll committed).mp hm with hm | hm
    · exact hc c hm
    · rw [commitRows_operationId hm]
      rintro rfl
      exact (Table.insert_eq_some_iff.mp evaluated).1 he
  | _ => exact hc

/-- A boundary that was crossed stays crossed. -/
theorem Boundary.change {m : Mark} (hb : Boundary t o m) (hu : Unset t)
    (h : Change handle clock t call t') : Boundary t' o m := by
  have hgrows := h.grows hu
  have hrow : ∀ {row}, t.operation? o = some row → ∃ row', t'.operation? o = some row' ∧
      Evolves Stage.Advances row row' := hgrows.operations
  cases m with
  | started | failed =>
    obtain ⟨row, hr⟩ := Option.isSome_iff_exists.mp hb
    obtain ⟨row', hr', -⟩ := hrow hr
    exact Option.isSome_of_eq_some hr'
  | inferenceReturned =>
    obtain ⟨row, hr, hc⟩ := hb
    obtain ⟨c, hc⟩ := Option.isSome_iff_exists.mp hc
    obtain ⟨row', hr', he⟩ := hrow hr
    exact ⟨row', hr', Option.isSome_of_eq_some (he.call c hc)⟩
  | guardAllowed | guardDenied =>
    obtain ⟨d, hd, ha⟩ := hb
    exact ⟨d, lookup_stays hgrows.guardDecisions hd, ha⟩
  | toolDispatched =>
    exact ⟨(h.spent_iff o).mpr (.inl hb.1), has_stays hgrows.reservations hb.2⟩
  | effectUnknown => exact (h.spent_iff o).mpr (.inl hb)
  | toolReturned =>
    obtain ⟨row, hr, ho⟩ := hb
    obtain ⟨s, hs⟩ := Option.isSome_iff_exists.mp ho
    obtain ⟨row', hr', he⟩ := hrow hr
    exact ⟨row', hr', Option.isSome_of_eq_some (he.output s hs)⟩
  | committed =>
    obtain ⟨he, c, hc, ho⟩ := hb
    exact ⟨has_stays hgrows.evaluations he, c, hgrows.commits.subset hc, ho⟩
  | observed => exact ⟨has_stays hgrows.evaluations hb.1, h.uncommitted hb.1 hb.2⟩

/-! ## One change -/

/-- The event that a call records for an operation. -/
def Call.records? (o : String) : Call → List (String × String)
  | .recordEvent (.typed event) => if event.stepId = o then [(event.stage, event.detail)] else []
  | _ => []

theorem Change.events (h : Change handle clock t call t') (o : String) :
    t'.events o = t.events o ++ call.records? o := by
  cases h with
  | @recordEvent event =>
    simp only [Tables.events, List.filter_append, List.map_append, Call.records?]
    by_cases ho : event.stepId = o <;> simp [ho]
  | _ => exact (List.append_nil _).symm

/-- An update of a row that does not undo its completion counts its new stage. -/
theorem completed_update {u : Tables} {id : String} {row : OperationRow}
    {f : OperationRow → OperationRow} (hf : ∀ row, (f row).id = row.id)
    (hu : u.operations = t.operations.update id f hf) (hr : t.operation? id = some row)
    (hs : row.stage = .completed → (f row).stage = .completed) {n : Nat}
    (hn : n = if row.stage ≠ .completed ∧ (f row).stage = .completed then 1 else 0) :
    u.completedOperations = t.completedOperations + n := by
  have h := @Table.countP_update _ _ _ _ _ _ _ hf _ hr fun row => decide (row.stage = .completed)
  simp only [decide_eq_true_eq] at h
  unfold Tables.completedOperations
  rw [hu, hn]
  by_cases hc : row.stage = .completed
  · simp only [hc, hs hc, if_true, ne_eq, not_true_eq_false, false_and, if_false] at h ⊢
    omega
  · simp only [hc, ne_eq, not_false_eq_true, true_and, if_false] at h ⊢
    omega

/-- The call completes an operation. -/
def Call.completes : Call → Bool
  | .complete (.typed _) => true
  | _ => false

/-- Only `complete` completes an operation, and it completes one. -/
theorem Change.completedOperations (h : Change handle clock t call t') :
    t'.completedOperations = t.completedOperations + (if call.completes then 1 else 0) := by
  cases h with
  | start _ _ _ _ _ _ _ _ operations =>
    simp [Tables.completedOperations, Call.completes, (Table.insert_eq_some_iff.mp operations).2]
  | recordGuard | recordEvent | recordUsage | finish => rfl
  | proposed _ operation stage | dispatch _ operation stage | returned operation stage =>
    refine completed_update (t := t) ?_ rfl operation ?_ ?_ <;> simp [stage, Call.completes]
  | complete _ operation stage _ checked =>
    rw [congrArg Candidate.id (checkEvaluation_binds checked)] at operation
    refine completed_update (t := t) ?_ rfl operation ?_ ?_ <;> simp [stage, Call.completes]
  | @failed _ _ row operation =>
    refine completed_update ?_ rfl operation ?_ ?_ <;>
      cases hs : row.stage <;> simp [Stage.afterFailure, Call.completes]
  | abandonUndispatched _ operation stage =>
    rcases stage with stage | stage <;>
      refine completed_update ?_ rfl operation ?_ ?_ <;> simp [stage, Call.completes]

end FlynnAgents
