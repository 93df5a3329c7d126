-- What a call that returned has left in the file, and why it stays there
-- whatever is called later.
import FlynnAgents.History
import FlynnAgents.BreachLaws
import FlynnAgents.PhaseFits

namespace FlynnAgents

open Relational

variable {handle : Handle} {clock : Clock} {self : SQLiteRun} {t t' before : Tables}
  {call : Call} {id : String}

/-- What a call that returned leaves in the tables. `before` are the tables
that it met. -/
def Leaves (t before : Tables) : Call → Prop
  | .start o request _ _ => ∃ row, t.operation? o = some row ∧ row.request = request ∧
      request.base = before.read
  | .proposed o call => ∃ c row, call = .typed c ∧ t.operation? o = some row ∧ row.call = some c
  | .recordUsage o usage => ∃ u row, usage = .typed u ∧ t.operation? o = some row ∧
      t.report o = some u.toUsageFields ∧ ¬ t.Breached o
  | .recordGuard o g decision => ∃ d, decision = .typed d ∧
      t.guardDecisions.lookup (o, g) = some ⟨o, g, d.toDecisionFields⟩
  | _ => True

/-! ## What stays -/

theorem lookup_stays {ρ κ : Type} {key : ρ → κ} [DecidableEq κ] {t u : Table key} {k : κ} {r : ρ}
    (h : t.rows <+: u.rows) (hr : t.lookup k = some r) : u.lookup k = some r := by
  obtain ⟨hm, hk⟩ := Table.lookup_some hr
  exact Table.lookup_eq_some_iff.mpr ⟨h.subset hm, hk⟩

/-- No later call breaches the report of an operation. -/
theorem Change.unbreached (h : Change handle clock t call t') {u : UsageFields}
    (hu : t.report id = some u) (hb : t'.Breached id)
    (ho : (t.operation? id).isSome = true) : t.Breached id := by
  obtain ⟨usage, reserved, hused, hr, hbr⟩ := hb
  refine ⟨usage, reserved, ?_, ?_, hbr⟩
  · obtain ⟨row, hrow, -⟩ := Option.map_eq_some_iff.mp hu
    rcases h.reports with he | ⟨i, v, row', -, -, -, hi⟩
    · rwa [← he]
    · have hstays := lookup_stays (insert_adds hi) hrow
      rw [hused] at hstays
      cases hstays
      exact hrow
  · obtain ⟨hm, hid⟩ := Table.lookup_some hr
    rw [h.reservesOutput, List.mem_append] at hm
    rcases hm with hm | hm
    · rw [← hid]
      exact Table.lookup_of_mem hm
    · obtain ⟨_, _, _, hc, -⟩ := mem_reservesOutput hm
      rw [hid] at hc
      subst hc
      rw [h.fresh] at ho
      cases ho

theorem Leaves.change (hl : Leaves t before call) (hu : Unset t) {later : Call}
    (h : Change handle clock t later t') : Leaves t' before call := by
  have hrow : ∀ {o row}, t.operation? o = some row → ∃ row', t'.operation? o = some row' ∧
      Evolves Stage.Advances row row' := (h.grows hu).operations
  cases call with
  | start o request =>
    obtain ⟨row, hr, hq, hb⟩ := hl
    obtain ⟨row', hr', he⟩ := hrow hr
    exact ⟨row', hr', he.request.trans hq, hb⟩
  | proposed o c =>
    obtain ⟨c, row, hc, hr, hcall⟩ := hl
    obtain ⟨row', hr', he⟩ := hrow hr
    exact ⟨c, row', hc, hr', he.call c hcall⟩
  | recordUsage o usage =>
    obtain ⟨u, row, husage, hr, hreport, hb⟩ := hl
    obtain ⟨row', hr', -⟩ := hrow hr
    refine ⟨u, row', husage, hr', h.report_stays hreport, fun hb' => hb ?_⟩
    exact h.unbreached hreport hb' (Option.isSome_of_eq_some hr)
  | recordGuard o g decision =>
    obtain ⟨d, hd, hdec⟩ := hl
    exact ⟨d, hd, lookup_stays h.extends.guardDecisions hdec⟩
  | _ => trivial

/-! ## What is left -/

/-- A call that returned leaves what it was given. -/
theorem leaves_of_ok {x : call.Result} (h : call.answer clock self = .ok x) :
    Leaves (exec ⟨clock, call⟩ self).2.db self.db call := by
  have hok := ok_of_answer h
  cases call with
  | start o request output guards =>
    obtain ⟨handle, t', -, hc, he⟩ := commits_of_ok rfl hok
    rw [he]
    cases hc with
    | start _ _ _ _ _ _ base _ operations =>
      exact ⟨_, (Table.lookup_insert operations o).trans (if_pos rfl), rfl, base⟩
  | proposed o c =>
    obtain ⟨handle, t', -, hc, he⟩ := commits_of_ok rfl hok
    rw [he]
    cases hc with
    | @proposed _ c row _ operation =>
      refine ⟨c, { row with stage := .proposed, call := some c }, rfl, ?_, rfl⟩
      rw [Tables.operation?] at operation
      rw [Tables.operation?, Table.lookup_update, if_pos rfl, operation]
      rfl
  | recordUsage o usage =>
    have hcommits := commits_of_ok (i := ⟨clock, .recordUsage o usage⟩) rfl hok
    have hunbreached := (recordUsage_run hcommits).2.mp h
    obtain ⟨handle, t', -, hc, he⟩ := hcommits
    rw [he] at hunbreached ⊢
    cases hc with
    | recordUsage _ operation _ reported =>
      refine ⟨_, _, rfl, operation, ?_, hunbreached⟩
      rw [Tables.report, Table.lookup_insert reported, if_pos rfl]
      rfl
  | recordGuard o g decision =>
    obtain ⟨handle, t', -, hc, he⟩ := commits_of_ok rfl hok
    rw [he]
    cases hc with
    | recordGuard _ _ _ _ decided =>
      exact ⟨_, rfl, by rw [Table.lookup_insert decided]; exact if_pos rfl⟩
  | _ => trivial

end FlynnAgents
