-- The two accounts of a limited run agree: the output budget, a fold over the
-- reservations, and the usage summary, a sum over the reports.
import FlynnAgents.OutputCap

namespace FlynnAgents

open Relational

variable {handle : Handle} {clock : Clock} {self : SQLiteRun} {t t' : Tables} {call : Call}
  {limit : Int}

/-! ## The summary -/

/-- Reports of distinct operations that exist are all collected. -/
theorem foldlM_collectReport {operations : List String} {rows : List UsageRow}
    (hvalid : ∀ u ∈ rows, u.payload.postInit = none)
    (hknown : ∀ u ∈ rows, u.operationId ∈ operations) (reports : List (String × UsageFields))
    (hnew : (reports.map Prod.fst ++ rows.map UsageRow.operationId).Nodup) :
    rows.foldlM (collectReport operations) reports =
      .ok (reports ++ rows.map fun u => (u.operationId, u.payload)) := by
  induction rows generalizing reports with
  | nil => exact congrArg Except.ok (List.append_nil _).symm
  | cons u rows ih =>
    rw [List.map_cons, List.append_cons] at hnew
    have hfresh : u.operationId ∉ reports.map Prod.fst := by
      intro hm
      have := (List.nodup_append.mp (List.nodup_append.mp hnew).1).2.2
      exact this _ hm _ (by simp) rfl
    have hone : collectReport operations reports u =
        .ok (reports ++ [(u.operationId, u.payload)]) := by
      unfold collectReport
      rw [if_neg (by simp only [not_or, not_not]; exact ⟨hknown u (by simp), hfresh⟩),
        hvalid u (by simp)]
      rfl
    rw [List.foldlM_cons, hone]
    refine (ih (fun v hv => hvalid v (by simp [hv])) (fun v hv => hknown v (by simp [hv])) _
      (by rw [List.map_append]; exact hnew)).trans ?_
    simp

/-- The operations that have no report. -/
def Tables.unreported (t : Tables) : List String :=
  (t.operations.rows.map OperationRow.id).filter fun id => decide (¬ t.inferenceUsage.Has id)

/-- The records of the reports. -/
def Tables.usages (t : Tables) : List UsageFields := t.inferenceUsage.rows.map UsageRow.payload

/-- What `usage_summary` returns, of a run with a limit. -/
theorem Capped.usageSummary (hc : Capped limit t) : t.usageSummary = .ok
    { invocations := t.operations.rows.length
      modelRequests := t.usages.countP (fun u => u.requestStarted)
      scriptedInvocations := t.usages.countP (fun u => decide (u.kind = .scripted))
      unknownUsageInvocations := t.usages.countP (fun u => decide (u.status = .unknown))
      unreportedInvocations := t.unreported.length
      knownInputTokens := (t.usages.map (fun u => u.inputTokens.getD 0)).sum
      knownOutputTokens := (t.usages.map (fun u => u.outputTokens.getD 0)).sum
      usageComplete := t.usages.countP (fun u => decide (u.status = .unknown)) == 0 &&
        t.unreported.length == 0 } := by
  have hdedup : (t.operations.rows.map OperationRow.id).dedup =
      t.operations.rows.map OperationRow.id := t.operations.keysNodup.dedup
  have hknown : ∀ u ∈ t.inferenceUsage.rows,
      u.operationId ∈ t.operations.rows.map OperationRow.id := by
    intro u hu
    obtain ⟨row, hr⟩ := Option.isSome_iff_exists.mp (hc.reported u hu)
    exact List.mem_map.mpr ⟨row, Table.lookup_some hr⟩
  have hcollect := foldlM_collectReport hc.sound.reports hknown [] t.inferenceUsage.keysNodup
  have hhas : ∀ id, id ∈ t.inferenceUsage.rows.map UsageRow.operationId ↔
      t.inferenceUsage.Has id := fun id => List.mem_map
  unfold Tables.usageSummary summarizeUsage
  simp only [hdedup, hcollect, bind, Except.bind, pure, Except.pure, List.nil_append, List.map_map,
    Function.comp_def, hhas, List.length_map, Tables.usages, Tables.unreported]

/-- Each operation is reported once or not at all. -/
theorem Capped.reports_length (hc : Capped limit t) :
    t.unreported.length + t.inferenceUsage.rows.length = t.operations.rows.length := by
  have hreported : ((t.operations.rows.map OperationRow.id).filter fun id =>
      decide (t.inferenceUsage.Has id)).length = t.inferenceUsage.rows.length := by
    refine Table.length_eq_of_same_values (f := id) (g := UsageRow.operationId) ?_
      t.inferenceUsage.keysNodup fun k => ?_
    · rw [List.map_id]
      exact t.operations.keysNodup.filter _
    · rw [List.map_id, List.mem_filter, decide_eq_true_eq]
      constructor
      · rintro ⟨-, u, hu, he⟩
        exact List.mem_map.mpr ⟨u, hu, he⟩
      · intro hk
        obtain ⟨u, hu, rfl⟩ := List.mem_map.mp hk
        obtain ⟨row, hr⟩ := Option.isSome_iff_exists.mp (hc.reported u hu)
        exact ⟨List.mem_map.mpr ⟨row, Table.lookup_some hr⟩, u, hu, rfl⟩
  have hsplit := List.length_eq_length_filter_add (l := t.operations.rows.map OperationRow.id)
    fun id => decide (t.inferenceUsage.Has id)
  rw [List.length_map, hreported] at hsplit
  simp only [Tables.unreported, decide_not]
  omega

/-! ## Every operation has a reservation -/

/-- Every operation has reserved its output. -/
def Covered (t : Tables) : Prop :=
  ∀ id, (t.operation? id).isSome = true → t.outputReservations.Has id

theorem Covered.change (hv : Covered t) (hc : Capped limit t) (h : Change handle clock t call t') :
    Covered t' := by
  intro id hid
  rw [Table.Has, h.reservesOutput]
  rcases (h.started_iff id).mp hid with hold | hnew
  · obtain ⟨r, hr, he⟩ := hv id hold
    exact ⟨r, List.mem_append_left _ hr, he⟩
  · obtain ⟨request, output, guards, rfl⟩ := mem_reserves_inference hnew
    cases h with
    | start _ _ _ _ budgeted admitted =>
      -- a run with a limit admits no start without a reservation
      rw [hc.sound.outputBudget hc.limited] at budgeted
      cases budgeted
      obtain ⟨o, rfl, -⟩ := (admitOutput_ok rfl).mp admitted
      exact ⟨⟨id, o.toReservationFields⟩, List.mem_append_right _ (List.mem_singleton.mpr rfl), rfl⟩

theorem covered_after (hc : Capped limit self.db) (hv : Covered self.db) (calls : List Timed) :
    Covered (self.after calls).db :=
  (after_keeps (fun t => Capped limit t ∧ Covered t)
    (fun _ _ _ _ _ hi hc => ⟨hi.1.change hc, hi.2.change hi.1 hc⟩) ⟨hc, hv⟩ calls).2

/-! ## The two accounts -/

/-- A scripted report knows no tokens. -/
theorem scripted_unknown {u : UsageFields} (hu : u.postInit = none) (hk : u.kind = .scripted) :
    u.outputTokens = none := by
  unfold UsageFields.postInit at hu
  simp only [hk] at hu
  split at hu
  · cases hu
  · split at hu
    · cases hu
    · split at hu
      · cases hu
      · split at hu
        · cases hu
        · rename_i hnone
          simp only [List.any_cons, List.any_nil, Bool.or_false, Bool.or_eq_true, not_or] at hnone
          simpa using hnone.2.2.2.2

/-- A model report whose status is not unknown knows its output. -/
theorem model_known {u : UsageFields} (hu : u.postInit = none) (hk : u.kind = .model)
    (hs : u.status ≠ .unknown) : u.outputTokens.isSome = true := by
  unfold UsageFields.postInit at hu
  simp only [hk] at hu
  split at hu
  · cases hu
  · split at hu
    · cases hu
    · split at hu
      · cases hu
      · split at hu
        · cases hu
        · split at hu
          · cases hu
          · rename_i hstatus
            rw [not_or, ne_eq, not_not] at hstatus
            cases hst : u.status with
            | known => exact (hstatus.2.mp hst).2
            | unknown => exact absurd hst hs
            | notApplicable => exact absurd hst hstatus.1

/-- What a reservation adds to the spent output: what its report knows. -/
theorem share_spent {r : ReservationFields} {u : UsageFields} (hu : u.postInit = none) :
    (share r (some u)).spent = u.outputTokens.getD 0 := by
  unfold share Tally.add
  by_cases hk : u.kind = r.kind
  · by_cases hs : r.kind = .scripted
    · simp [hk, hs, scripted_unknown hu (hk.trans hs)]
    · rcases ho : u.outputTokens with _ | n <;> simp [hk, hs, ho]
  · simp [hk]

theorem share_spent_none (r : ReservationFields) : (share r none).spent = 0 := by
  unfold share Tally.add
  by_cases hs : r.kind = .scripted <;> simp [hs]

/-- The spent output is what the reports know, since each of them belongs to a
reservation. -/
theorem Capped.spent (hc : Capped limit t) (hv : Covered t) :
    t.tally.spent = (t.usages.map (fun u => u.outputTokens.getD 0)).sum := by
  have hrow : ∀ r ∈ t.outputReservations.rows, (t.share r).spent =
      (t.inferenceUsage.lookup r.operationId).elim 0 (fun u => u.payload.outputTokens.getD 0) := by
    intro r _
    unfold Tables.share Tables.report
    rcases hl : t.inferenceUsage.lookup r.operationId with _ | u
    · exact share_spent_none _
    · exact share_spent (hc.sound.reports u (Table.lookup_some hl).1)
  rw [tally_eq]
  calc (t.outputReservations.rows.map fun r => (t.share r).spent).sum
      = (t.outputReservations.rows.map fun r => (t.inferenceUsage.lookup r.operationId).elim 0
          fun u => u.payload.outputTokens.getD 0).sum :=
        congrArg List.sum (List.map_congr_left hrow)
    _ = (t.inferenceUsage.rows.map fun u => u.payload.outputTokens.getD 0).sum :=
        Table.sum_lookup _ _ _ fun u hu => hv _ (hc.reported u hu)
    _ = (t.usages.map fun u => u.outputTokens.getD 0).sum := by
        rw [Tables.usages, List.map_map]
        rfl

/-- Nothing is unresolved once every operation is reported and no report is unknown. -/
theorem Capped.resolved (hc : Capped limit t) (hreported : t.unreported = [])
    (hunknown : ∀ u ∈ t.usages, u.status ≠ .unknown) : t.tally.unresolved = 0 := by
  rw [tally_eq]
  refine List.sum_eq_zero_iff.mpr fun n hn => ?_
  obtain ⟨r, hr, rfl⟩ := List.mem_map.mp hn
  obtain ⟨row, hrow⟩ := Option.isSome_iff_exists.mp (hc.reserved r hr)
  have hhas : t.inferenceUsage.Has r.operationId := by
    by_contra hno
    have hmem : r.operationId ∈ t.unreported := by
      unfold Tables.unreported
      rw [List.mem_filter, decide_eq_true_eq]
      exact ⟨List.mem_map.mpr ⟨row, Table.lookup_some hrow⟩, hno⟩
    rw [hreported] at hmem
    cases hmem
  obtain ⟨u, hl⟩ := Table.has_iff_lookup.mp hhas
  have hu := (Table.lookup_some hl).1
  have hstatus := hunknown u.payload (List.mem_map_of_mem hu)
  unfold Tables.share Tables.report FlynnAgents.share Tally.add
  rw [hl]
  by_cases hk : u.payload.kind = r.reservation.kind
  · by_cases hs : r.reservation.kind = .scripted
    · simp [hk, hs]
    · have hmodel := (kind_cases r.reservation.kind).resolve_right hs
      obtain ⟨n, ho⟩ := Option.isSome_iff_exists.mp
        (model_known (hc.sound.reports u hu) (hk.trans hmodel) hstatus)
      simp [hk, hs, ho]
  · simp [hk]

/-- For every sequence of calls of a run with an output limit: `output_budget`
and `usage_summary` both return (also as methods, while the run is open), they
agree on the output that was spent, an invocation is counted for each inference
reservation, an unreported one for each that has no report, and nothing is
unresolved once the usage is complete. -/
theorem the_accounts_agree {now : ℚ} {runId state : Dyn String} {limits : RunLimits}
    {observation : Option (Dyn String)}
    (h : SQLiteRun.create now clock runId state limits observation = .ok self)
    (hl : limits.outputTokens = some limit) (calls : List Timed) :
    ∃ b s, (self.after calls).db.outputBudget = .ok b ∧
      (self.after calls).db.usageSummary = .ok s ∧
      (∀ clock, (self.after calls).handle.isSome = true →
        Call.outputBudget.answer clock (self.after calls) = .ok b ∧
        Call.usageSummary.answer clock (self.after calls) = .ok s) ∧
      b.spent = s.knownOutputTokens ∧
      s.invocations = (self.after calls).db.used .inference ∧
      (s.unreportedInvocations : Int) =
        s.invocations - (self.after calls).db.inferenceUsage.rows.length ∧
      (s.usageComplete = true → b.unresolved = 0) := by
  obtain ⟨id, text, seen, hdb, -⟩ := create_ok h
  have hfresh : Capped limit self.db := hdb ▸ capped_fresh hl
  have hc : Capped limit (self.after calls).db := capped_after hfresh calls
  have hv : Covered (self.after calls).db :=
    covered_after hfresh (hdb ▸ fun id hid => by simp [Tables.fresh, Tables.operation?] at hid)
      calls
  have hr : Reserved (self.log calls) (self.after calls).db :=
    reserved_after (hdb ▸ reserved_fresh) calls
  have hbudget := hc.sound.outputBudget hc.limited
  have hsummary := hc.usageSummary
  refine ⟨_, _, hbudget, hsummary, fun clock hlive => ?_, hc.spent hv, ?_, ?_, fun hcomplete => ?_⟩
  · obtain ⟨handle, hh⟩ := Option.isSome_iff_exists.mp hlive
    exact ⟨(congrArg Prod.fst (query_of_live hh)).trans hbudget,
      (congrArg Prod.fst (query_of_live hh)).trans hsummary⟩
  · rw [hr.used]
    exact (List.countP_eq_length.mpr fun _ _ => rfl).symm
  · have hlength := hc.reports_length
    simp only
    omega
  · simp only [Bool.and_eq_true, beq_iff_eq, List.countP_eq_zero, decide_eq_true_eq] at hcomplete
    exact hc.resolved (List.eq_nil_of_length_eq_zero hcomplete.2) hcomplete.1

theorem knownUsage_accepted : UsageFields.postInit ⟨.model, .known, true, some "provider",
    some "model", none, none, some 2, some 4, none, none⟩ = none := by decide

/-- Two models are asked: one has put out four tokens, of the other nothing is known yet. -/
def unreportedCalls : List Timed :=
  [⟨⟨0, 0⟩, modelStart "first"⟩,
    ⟨⟨1, 1⟩, .recordUsage "first" (.typed ⟨_, knownUsage_accepted⟩)⟩,
    ⟨⟨2, 2⟩, .abandonUndispatched "first"⟩,
    ⟨⟨3, 3⟩, modelStart "second"⟩]

theorem the_accounts_agree_sample :
    ∃ b s, (cappedRun.after unreportedCalls).db.outputBudget = .ok b ∧
      (cappedRun.after unreportedCalls).db.usageSummary = .ok s ∧
      b.spent = 4 ∧ s.knownOutputTokens = 4 ∧ s.invocations = 2 ∧ s.unreportedInvocations = 1 ∧
      s.usageComplete = false := by
  obtain ⟨b, s, hb, hs, -, hspent, hinvocations, hunreported, hcomplete⟩ := the_accounts_agree
    (create_sample (sampleLimits none (some 10) cappedLimits_accepted)) rfl unreportedCalls
  have hvalues : ((cappedRun.after unreportedCalls).db.outputBudget.toOption.map fun b =>
      (b.spent, b.unresolved)) = some (4, 1) := by decide +kernel
  have hused : (cappedRun.after unreportedCalls).db.used .inference = 2 := by decide +kernel
  have hreports : (cappedRun.after unreportedCalls).db.inferenceUsage.rows.length = 1 := by
    decide +kernel
  rw [hb] at hvalues
  obtain ⟨hfour, hone⟩ := Prod.mk.inj (Option.some.inj hvalues)
  rw [hused] at hinvocations
  rw [hinvocations, hreports] at hunreported
  refine ⟨b, s, hb, hs, hfour, hspent ▸ hfour, hinvocations, by omega, ?_⟩
  by_contra hn
  rw [hcomplete (by simpa using hn)] at hone
  cases hone

end FlynnAgents
