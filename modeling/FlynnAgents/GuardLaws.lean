-- The guards of an operation: they are fixed at its start, and its tool is
-- dispatched only when each of them has allowed it.
import FlynnAgents.Reservations

namespace FlynnAgents

open Relational Transactional

variable {handle : Handle} {clock : Clock} {t t' : Tables} {call : Call} {log : List Entry}

/-- A dispatch passes its guards when each has a decision, and allows it. -/
theorem checkGuards_ok {decisions : Table GuardDecisionRow.key} {rows : List GuardRequirementRow} :
    checkGuards decisions rows = .ok () ↔
      ∀ r ∈ rows, ∃ d, decisions.lookup r.key = some d ∧ d.payload.postInit = none ∧
        d.payload.allowed = true := by
  induction rows with
  | nil => simp [checkGuards]
  | cons r rest ih =>
    rw [List.forall_mem_cons, ← ih, checkGuards]
    rcases decisions.lookup r.key with _ | d
    · simp
    · rcases hp : d.payload.postInit with _ | m
      · cases ha : d.payload.allowed <;> simp [refusal, bind, Except.bind, hp, ha]
      · simp [refusal, bind, Except.bind, hp]

/-! ## One change -/

theorem requirements_map (id : String) (guards : List String) :
    (requirementRows id guards).map GuardRequirementRow.guardId = guards := by
  rw [requirementRows, List.map_map]
  exact List.map_id guards

/-- The requirements that a call writes. -/
def Call.requires : Call → List GuardRequirementRow
  | .start id _ _ (.typed guards) => requirementRows id guards
  | _ => []

theorem Change.requires (h : Change handle clock t call t') :
    t'.guardRequirements.rows = t.guardRequirements.rows ++ call.requires := by
  cases h with
  | start _ _ _ _ _ _ _ _ _ requirements => exact Table.insertAll_rows requirements
  | _ => simp [Call.requires, Tables.tick]

theorem mem_requires {r : GuardRequirementRow} (h : r ∈ call.requires) :
    ⟨r.operationId, .inference⟩ ∈ call.reserves := by
  unfold Call.requires at h
  split at h
  · obtain ⟨g, -, rfl⟩ := List.mem_map.mp h
    simp [Call.reserves]
  · cases h

/-- The requirements of an operation that is there do not change. -/
theorem Change.requirements_eq (h : Change handle clock t call t') {id : String}
    (ho : (t.operation? id).isSome = true) : t'.requirements id = t.requirements id := by
  rw [Tables.requirements, h.requires, List.filter_append]
  have hn : call.requires.filter (fun r => decide (r.operationId = id)) = [] := by
    rw [List.filter_eq_nil_iff]
    intro r hr hid
    obtain ⟨_, _, _, rfl⟩ := mem_reserves_inference (mem_requires hr)
    rw [decide_eq_true_eq] at hid
    rw [← hid, h.fresh] at ho
    cases ho
  rw [hn, List.append_nil]
  rfl

/-- A decision is recorded only for a guard that the operation requires, and
only while it is proposed. -/
theorem Change.decisions (h : Change handle clock t call t') :
    t'.guardDecisions = t.guardDecisions ∨
      ∃ d, t.guardDecisions.insert d = some t'.guardDecisions ∧ t.guardRequirements.Has d.key := by
  cases h with
  | recordGuard _ _ _ required decided => exact .inr ⟨_, decided, required⟩
  | _ => exact .inl rfl

/-- A recorded decision stays. -/
theorem Change.decided (h : Change handle clock t call t') {k : String × String}
    {d : GuardDecisionRow} (hd : t.guardDecisions.lookup k = some d) :
    t'.guardDecisions.lookup k = some d := by
  rcases h.decisions with he | ⟨d', hi, -⟩
  · rw [he, hd]
  · rw [Table.lookup_insert hi, if_neg, hd]
    rintro rfl
    exact (Table.insert_eq_some_iff.mp hi).1 (Table.has_iff_lookup.mpr ⟨d, hd⟩)

/-! ## Every run -/

/-- The entry is a start of the operation with these guards. -/
def Entry.starts (e : Entry) (id : String) (guards : List String) : Prop :=
  e.ok = true ∧ ∃ request output, e.call = .start id request output (.typed guards)

/-- Every required guard of the operation has allowed it. -/
def Tables.Allowed (t : Tables) (id : String) : Prop :=
  ∀ r ∈ t.requirements id, ∃ d, t.guardDecisions.lookup r.key = some d ∧ d.payload.allowed = true

/-- What holds of the guards of every run. -/
structure Guarded (log : List Entry) (t : Tables) : Prop where
  decided : ∀ d ∈ t.guardDecisions.rows, t.guardRequirements.Has d.key
  known : ∀ r ∈ t.guardRequirements.rows, (t.operation? r.operationId).isSome = true
  started : ∀ id, (t.operation? id).isSome = true → ∃ e ∈ log, ∃ guards, e.starts id guards
  fixed : ∀ e ∈ log, ∀ id guards, e.starts id guards →
    (t.operation? id).isSome = true ∧ t.requirements id = requirementRows id guards
  allowed : ∀ id, t.Spent id → t.Allowed id

theorem guarded_fresh (run : RunRow) : Guarded [] (Tables.fresh run) where
  decided _ h := by cases h
  known _ h := by cases h
  started _ h := by cases h
  fixed _ h := by cases h
  allowed id h := by
    obtain ⟨_, h, -⟩ := h
    cases h

theorem Guarded.refused (h : Guarded log t) {e : Entry}
    (he : e.call.mutates = true → e.ok = false) : Guarded (log ++ [e]) t where
  decided := h.decided
  known := h.known
  started id ho := by
    obtain ⟨e', hm, hs⟩ := h.started id ho
    exact ⟨e', by simp [hm], hs⟩
  fixed e' hm id guards hs := by
    rcases List.mem_append.mp hm with hm | hm
    · exact h.fixed e' hm id guards hs
    · rw [List.mem_singleton.mp hm] at hs
      obtain ⟨hok, _, _, hc⟩ := hs
      rw [he (by rw [hc]; rfl)] at hok
      cases hok
  allowed := h.allowed

theorem Guarded.change (h : Guarded log t) {e : Entry} (hc : Change handle e.clock t e.call t')
    (he : e.call.raisesLate = false → e.ok = true) : Guarded (log ++ [e]) t' where
  decided d hd := by
    have hold : ∀ {k}, t.guardRequirements.Has k → t'.guardRequirements.Has k := by
      rintro k ⟨r, hr, hk⟩
      exact ⟨r, by rw [hc.requires]; simp [hr], hk⟩
    rcases hc.decisions with hs | ⟨d', hi, hreq⟩
    · exact hold (h.decided d (hs ▸ hd))
    · rcases (Table.mem_insert hi).mp hd with hd | rfl
      · exact hold (h.decided d hd)
      · exact hold hreq
  known r hr := by
    rw [hc.started_iff]
    rw [hc.requires, List.mem_append] at hr
    exact hr.imp (h.known r) mem_requires
  started id ho := by
    rcases (hc.started_iff id).mp ho with ho | hm
    · obtain ⟨e', hm, hs⟩ := h.started id ho
      exact ⟨e', by simp [hm], hs⟩
    · obtain ⟨request, output, guards, hcall⟩ := mem_reserves_inference hm
      refine ⟨e, by simp, ?_⟩
      rw [hcall] at hc
      cases hc with
      | start => exact ⟨_, he (by rw [hcall]; rfl), request, output, hcall⟩
  fixed e' hm id guards hs := by
    rcases List.mem_append.mp hm with hm | hm
    · obtain ⟨ho, hr⟩ := h.fixed e' hm id guards hs
      exact ⟨(hc.started_iff id).mpr (.inl ho), (hc.requirements_eq ho).trans hr⟩
    · rw [List.mem_singleton.mp hm] at hs
      obtain ⟨-, request, output, hcall⟩ := hs
      have hnew := hc
      rw [hcall] at hnew
      refine ⟨(hc.started_iff id).mpr (.inr (by simp [hcall, Call.reserves])), ?_⟩
      have hnone : t.guardRequirements.rows.filter (fun r => decide (r.operationId = id)) = [] := by
        rw [List.filter_eq_nil_iff]
        intro r hr hid
        have ho := h.known r hr
        rw [decide_eq_true_eq] at hid
        rw [hid, hnew.fresh] at ho
        cases ho
      rw [Tables.requirements, hc.requires, hcall, List.filter_append, hnone, List.nil_append]
      refine List.filter_eq_self.mpr fun r hr => ?_
      obtain ⟨g, -, rfl⟩ := List.mem_map.mp hr
      simp
  allowed id hs := by
    rcases (hc.spent_iff id).mp hs with hs | hm
    · intro r hr
      have hspent := hs
      obtain ⟨row, ho, -⟩ := hspent
      rw [hc.requirements_eq (Option.isSome_of_eq_some ho)] at hr
      obtain ⟨d, hd, ha⟩ := h.allowed id hs r hr
      exact ⟨d, hc.decided hd, ha⟩
    · obtain ⟨observation, externalAction, hcall⟩ := mem_reserves_tool hm
      rw [hcall] at hc
      cases hc with
      | dispatch _ _ _ allowed =>
        intro r hr
        obtain ⟨d, hd, -, ha⟩ := checkGuards_ok.mp allowed r hr
        exact ⟨d, hd, ha⟩

theorem guarded_after {self : SQLiteRun} (h : Guarded [] self.db) (calls : List Timed) :
    Guarded (self.log calls) (self.after calls).db :=
  after_log_keeps Guarded (fun _ _ _ h he => h.refused he)
    (fun _ _ _ _ _ h hc he => h.change hc he) h calls

/-- The guards of an operation and what they decided, in the file. -/
structure Authorized (log : List Entry) (t : Tables) (id : String) : Prop where
  fixed : ∃ guards, (∃ e ∈ log, e.starts id guards) ∧
    (∀ e ∈ log, ∀ other, e.starts id other → other = guards) ∧
    (t.requirements id).map GuardRequirementRow.guardId = guards
  decided : t.Spent id → ∀ r ∈ t.requirements id,
    ∃ d ∈ t.guardDecisions.rows, d.operationId = id ∧ d.guardId = r.guardId
  allowed : t.Spent id → ∀ d ∈ t.guardDecisions.rows, d.operationId = id →
    d.payload.allowed = true
  missing : (∃ r ∈ t.requirements id, ¬ t.guardDecisions.Has r.key) →
    ¬ t.reservations.Has (id, .tool) ∧ ¬ t.reservations.Has (id, .external)
  denied : (∃ d ∈ t.guardDecisions.rows, d.operationId = id ∧ d.payload.allowed = false) →
    ¬ t.reservations.Has (id, .tool) ∧ ¬ t.reservations.Has (id, .external)

theorem requirement_key {id : String} {r : GuardRequirementRow} (hr : r ∈ t.requirements id) :
    r.operationId = id := by
  simpa using (List.mem_filter.mp hr).2

theorem Guarded.all_allowed (h : Guarded log t) {id : String} (hs : t.Spent id)
    {d : GuardDecisionRow} (hd : d ∈ t.guardDecisions.rows) (hid : d.operationId = id) :
    d.payload.allowed = true := by
  obtain ⟨r, hr, hk⟩ := h.decided d hd
  have hop : r.operationId = id := (congrArg Prod.fst hk).trans hid
  obtain ⟨d', hl, ha⟩ := h.allowed id hs r (List.mem_filter.mpr ⟨hr, by simpa using hop⟩)
  obtain ⟨hm, hk'⟩ := Table.lookup_some hl
  rw [Table.eq_of_key hd hm (hk.symm.trans hk'.symm)]
  exact ha

theorem Reserved.none (h : Reserved log t) {id : String} (hs : ¬ t.Spent id) :
    ¬ t.reservations.Has (id, .tool) ∧ ¬ t.reservations.Has (id, .external) := by
  rw [h.tool, h.external]
  exact ⟨hs, fun hd => hs (h.spent id hd)⟩

theorem Guarded.authorized (h : Guarded log t) (hr : Reserved log t) {id : String}
    (ho : (t.operation? id).isSome = true) : Authorized log t id where
  fixed := by
    obtain ⟨e, hm, guards, hs⟩ := h.started id ho
    obtain ⟨-, hreq⟩ := h.fixed e hm id guards hs
    refine ⟨guards, ⟨e, hm, hs⟩, fun e' hm' other hs' => ?_, by rw [hreq, requirements_map]⟩
    obtain ⟨-, hreq'⟩ := h.fixed e' hm' id other hs'
    rw [← requirements_map id other, ← hreq', hreq, requirements_map]
  decided hs r hreq := by
    obtain ⟨d, hd, -⟩ := h.allowed id hs r hreq
    obtain ⟨hm, hk⟩ := Table.lookup_some hd
    exact ⟨d, hm, (congrArg Prod.fst hk).trans (requirement_key hreq), congrArg Prod.snd hk⟩
  allowed hs d hd hid := h.all_allowed hs hd hid
  missing := by
    rintro ⟨r, hreq, hn⟩
    refine hr.none fun hs => hn ?_
    obtain ⟨d, hd, -⟩ := h.allowed id hs r hreq
    exact Table.has_iff_lookup.mpr ⟨d, hd⟩
  denied := by
    rintro ⟨d, hd, hid, ha⟩
    refine hr.none fun hs => ?_
    rw [h.all_allowed hs hd hid] at ha
    cases ha

/-- For every sequence of calls, whatever they return or raise: an operation
requires exactly the guards that it was started with, ever after. Once its
tool was dispatched, each of them has a decision and every decision allows
it. With a decision missing or denied it holds no tool and no external
reservation. -/
theorem no_tool_is_dispatched_past_its_guards {now : ℚ} {runId state : Dyn String}
    {limits : RunLimits} {observation : Option (Dyn String)} {self : SQLiteRun}
    (h : SQLiteRun.create now clock runId state limits observation = .ok self)
    (calls : List Timed) (id : String)
    (ho : ((self.after calls).db.operation? id).isSome = true) :
    Authorized (self.log calls) (self.after calls).db id ∧
      ∀ more, (self.after (calls ++ more)).db.requirements id =
        (self.after calls).db.requirements id := by
  obtain ⟨runName, text, seen, hdb, -⟩ := create_ok h
  have hg : Guarded (self.log calls) (self.after calls).db :=
    guarded_after (hdb ▸ guarded_fresh _) calls
  have hr : Reserved (self.log calls) (self.after calls).db :=
    reserved_after (hdb ▸ reserved_fresh) calls
  refine ⟨hg.authorized hr ho, fun more => ?_⟩
  simp only [SQLiteRun.after, Machines.after_append]
  have := after_keeps (fun t => (t.operation? id).isSome = true ∧
      t.requirements id = (self.after calls).db.requirements id)
    (fun _ _ _ _ _ hi hc => ⟨(hc.started_iff id).mpr (.inl hi.1),
      (hc.requirements_eq hi.1).trans hi.2⟩) ⟨ho, rfl⟩ more
  exact this.2

theorem no_tool_is_dispatched_past_its_guards_sample :
    Authorized ((sampleRun (sampleLimits none none (by decide))).log sampleCalls)
      ((sampleRun (sampleLimits none none (by decide))).after sampleCalls).db "op" :=
  (no_tool_is_dispatched_past_its_guards (create_sample (sampleLimits none none (by decide)))
    sampleCalls "op" (by decide +kernel)).1

end FlynnAgents
