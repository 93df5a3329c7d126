-- A breached reservation. `record_usage` keeps the report and raises, but
-- nothing after it looks at the breach again: a caller that goes on can
-- dispatch the operation. When a run keeps the cap, and when it does not.
import FlynnAgents.OutputCap

namespace FlynnAgents

open Relational Transactional

variable {handle : Handle} {clock : Clock} {t t' : Tables} {call : Call} {log : List Entry}
  {self : SQLiteRun}

/-- Some decision on the operation denies it. -/
def Tables.Denied (t : Tables) (id : String) : Prop :=
  ∃ d ∈ t.guardDecisions.rows, d.operationId = id ∧ d.payload.allowed = false

/-- A breached or denied operation was not dispatched, and holds no tool. -/
def Enforced (t : Tables) : Prop :=
  ∀ id, t.Breached id ∨ t.Denied id → ¬ t.Spent id ∧
    ¬ t.reservations.Has (id, .tool) ∧ ¬ t.reservations.Has (id, .external)

/-- The dispatch would pass the checks that `dispatch` makes. -/
structure Dispatchable (self : SQLiteRun) (clock : Clock) (id : String) (externalAction : Bool) :
    Prop where
  live : ∃ handle, self.handle = some handle ∧ Timely handle clock self.db
  operation : ∃ row, self.db.operation? id = some row ∧ row.stage = .proposed
  allowed : checkGuards self.db.guardDecisions (self.db.requirements id) = .ok ()
  room : 0 < self.db.remaining .tool
  externalRoom : externalAction = true → 0 < self.db.remaining .external

/-- The call dispatches an operation although its report breaches. -/
def DispatchesBreached (i : Timed) (self : SQLiteRun) : Prop :=
  ∃ id observation externalAction, i.call = .dispatch id observation externalAction ∧
    self.db.Breached id ∧ Dispatchable self i.clock id externalAction

/-! ## One call -/

/-- A dispatch that passes its checks finds its reservations free. -/
theorem dispatch_succeeds (observation : Bool) (hr : Reserved log self.db) {id : String}
    {externalAction : Bool} (h : Dispatchable self clock id externalAction) :
    ∃ self', Commits clock (.dispatch id observation externalAction) self self' := by
  obtain ⟨⟨handle, hh, timely⟩, ⟨row, operation, stage⟩, allowed, room, externalRoom⟩ := h
  have hspent : ¬ self.db.Spent id := by
    rintro ⟨q, hq, hs⟩
    rw [operation] at hq
    cases hq
    rw [stage] at hs
    cases hs
  obtain ⟨htool, hexternal⟩ := hr.none hspent
  obtain ⟨tool, reserved⟩ := Table.insert_of_fresh (t := self.db.reservations) (r := ⟨id, .tool⟩)
    htool
  obtain ⟨res, externalReserved⟩ := Table.insertAll_of_fresh (t := tool)
    (l := externalRows id externalAction)
    (by unfold externalRows; split <;> simp)
    (by
      intro r hr
      unfold externalRows at hr
      split at hr
      · rw [List.mem_singleton.mp hr, Table.has_insert reserved]
        rintro (he | he)
        · cases he
        · exact hexternal he
      · cases hr)
  exact ⟨_, handle, _, hh, .dispatch timely operation stage allowed room reserved externalRoom
    externalReserved, rfl⟩

/-- A breach that a change brings is of an operation that is in inference. -/
theorem Change.breached (h : Change handle clock t call t') {id : String} (hb : t'.Breached id)
    (hs : t.Spent id) : t.Breached id := by
  obtain ⟨row, ho, hspent⟩ := hs
  obtain ⟨usage, reserved, hu, hr, hbr⟩ := hb
  refine ⟨usage, reserved, ?_, ?_, hbr⟩
  · rcases h.reports with he | ⟨i, v, row', -, ho', hs', hi⟩
    · rwa [← he]
    · rw [Table.lookup_insert hi] at hu
      split at hu
      · rename_i hid
        subst hid
        rw [ho] at ho'
        cases ho'
        rw [hs'] at hspent
        cases hspent
      · exact hu
  · obtain ⟨hm, hid⟩ := Table.lookup_some hr
    rw [h.reservesOutput, List.mem_append] at hm
    rcases hm with hm | hm
    · rw [← hid]
      exact Table.lookup_of_mem hm
    · obtain ⟨_, _, _, hc, -⟩ := mem_reservesOutput hm
      rw [hid] at hc
      subst hc
      rw [h.fresh] at ho
      cases ho

/-- A call that does not dispatch a breached operation keeps breached
operations undispatched. -/
theorem exec_unspent {i : Timed} (hd : ¬ DispatchesBreached i self)
    (h : ∀ id, self.db.Breached id → ¬ self.db.Spent id) {id : String}
    (hb : (exec i self).2.db.Breached id) : ¬ (exec i self).2.db.Spent id := by
  intro hs
  rcases exec_cases i self with ⟨⟨handle, t', hh, hc, he⟩, -⟩ | ⟨he, -⟩
  · rw [he] at hb hs
    rcases (hc.spent_iff id).mp hs with hs | hm
    · exact h id (hc.breached hb hs) hs
    · obtain ⟨observation, externalAction, hcall⟩ := mem_reserves_tool hm
      refine hd ⟨id, observation, externalAction, hcall, ?_⟩
      rw [hcall] at hc
      cases hc with
      | dispatch timely operation stage allowed room _ externalRoom =>
        exact ⟨hb, ⟨handle, hh, timely⟩, ⟨_, operation, stage⟩, allowed, room, externalRoom⟩
  · rw [he] at hb hs
    exact h id hb hs

/-- A dispatch of a breached operation that passes its checks goes through. -/
theorem exec_spent {i : Timed} (hr : Reserved log self.db) (hd : DispatchesBreached i self) :
    ∃ id, (exec i self).2.db.Breached id ∧ (exec i self).2.db.Spent id := by
  obtain ⟨id, observation, externalAction, hcall, hb, hpass⟩ := hd
  obtain ⟨self', hc⟩ := dispatch_succeeds observation hr hpass
  rw [← hcall] at hc
  rw [exec_of_commits hc]
  obtain ⟨handle, t', hh, hchange, rfl⟩ := hc
  refine ⟨id, ?_, (hchange.spent_iff id).mpr (.inr (by rw [hcall]; simp [Call.reserves]))⟩
  rw [hcall] at hchange
  cases hchange
  exact hb

/-! ## Every run -/

/-- With every breached operation undispatched, the rest of the promise holds. -/
theorem enforced_iff (hr : Reserved log t) (hg : Guarded log t) :
    Enforced t ↔ ∀ id, t.Breached id → ¬ t.Spent id := by
  refine ⟨fun h id hb => (h id (.inl hb)).1, fun h id hor => ?_⟩
  have hs : ¬ t.Spent id := by
    rcases hor with hb | ⟨d, hd, hid, ha⟩
    · exact h id hb
    · intro hs
      rw [hg.all_allowed hs hd hid] at ha
      cases ha
  exact ⟨hs, hr.none hs⟩

/-- Five tokens of a model. -/
def sampleReservation : OutputReservation := ⟨⟨.model, 5⟩, by decide⟩

/-- A report of nine tokens. -/
def sampleOverrun : InferenceUsage :=
  { kind := .model, status := .known, requestStarted := true, provider := some "provider"
    model := some "model", inputTokens := some 1, outputTokens := some 9, accepted := by decide }

/-- A caller that reserves five tokens, is told of nine, and goes on. -/
def goesOn : List Timed :=
  [⟨⟨0, 0⟩, .start "op" { sampleRequest with maxOutputTokens := some 5 }
      (some (.typed sampleReservation)) (.typed [])⟩,
    ⟨⟨0, 0⟩, .recordUsage "op" (.typed sampleOverrun)⟩,
    ⟨⟨0, 0⟩, .proposed "op" (.typed ⟨"act", "\x7b\x7d"⟩)⟩,
    ⟨⟨0, 0⟩, .dispatch "op" false true⟩]

/-- The caller that goes on gets its operation dispatched, and both of its
reservations. -/
theorem a_breached_operation_is_dispatched :
    ¬ ∀ (now : ℚ) (clock : Clock) (runId state : Dyn String) (limits : RunLimits)
      (observation : Option (Dyn String)) (self : SQLiteRun),
      SQLiteRun.create now clock runId state limits observation = .ok self →
      ∀ calls : List Timed, Enforced (self.after calls).db := by
  intro h
  have henf := h 0 ⟨0, 0⟩ _ _ (sampleLimits none (some 10) (by decide)) none _ (create_sample _)
    goesOn "op" (.inl ⟨⟨"op", sampleOverrun.toUsageFields⟩,
      ⟨"op", sampleReservation.toReservationFields⟩, by decide, by decide, by decide⟩)
  exact henf.2.1 (by decide)

/-- A run keeps breached operations undispatched, in every state that it
reaches, exactly when no step of it is a dispatch of a breached operation
that passes the checks of `dispatch`. -/
theorem a_breach_is_enforced_iff_no_caller_goes_on {now : ℚ} {runId state : Dyn String}
    {limits : RunLimits} {observation : Option (Dyn String)}
    (h : SQLiteRun.create now clock runId state limits observation = .ok self)
    (calls : List Timed) :
    (∀ before after, calls = before ++ after → Enforced (self.after before).db) ↔
      ∀ before i after, calls = before ++ i :: after →
        ¬ DispatchesBreached i (self.after before) := by
  obtain ⟨id, text, seen, hdb, -⟩ := create_ok h
  have hr : ∀ calls, Reserved (self.log calls) (self.after calls).db :=
    fun calls => reserved_after (hdb ▸ reserved_fresh) calls
  have hg : ∀ calls, Guarded (self.log calls) (self.after calls).db :=
    fun calls => guarded_after (hdb ▸ guarded_fresh _) calls
  have hstep : ∀ before i, self.after (before ++ [i]) = (exec i (self.after before)).2 := by
    intro before i
    simp [SQLiteRun.after, Machines.after_append]
  constructor
  · intro hall before i after hcalls hd
    have henf := hall (before ++ [i]) after (by simp [hcalls])
    rw [enforced_iff (hr _) (hg _), hstep] at henf
    obtain ⟨id, hb, hs⟩ := exec_spent (hr before) hd
    exact henf id hb hs
  · intro hall before
    induction before using List.reverseRecOn with
    | nil =>
      intro after _
      rw [enforced_iff (hr _) (hg _)]
      intro id _ hs
      obtain ⟨row, ho, -⟩ := hs
      rw [show self.after [] = self from rfl, hdb] at ho
      cases ho
    | append_singleton before i ih =>
      intro after hcalls
      have hbefore := ih (i :: after) (by simp [hcalls])
      rw [enforced_iff (hr _) (hg _)] at hbefore
      rw [enforced_iff (hr _) (hg _), hstep]
      intro id
      exact exec_unspent (hall before i after (by simp [hcalls])) hbefore

/-- A caller that stops at the breach. -/
theorem a_breach_is_enforced_iff_no_caller_goes_on_sample :
    (∀ before after, goesOn.take 2 = before ++ after → Enforced ((sampleRun
        (sampleLimits none (some 10) (by decide))).after before).db) ↔
      ∀ before i after, goesOn.take 2 = before ++ i :: after →
        ¬ DispatchesBreached i
          ((sampleRun (sampleLimits none (some 10) (by decide))).after before) :=
  a_breach_is_enforced_iff_no_caller_goes_on
    (create_sample (sampleLimits none (some 10) (by decide))) (goesOn.take 2)

end FlynnAgents
