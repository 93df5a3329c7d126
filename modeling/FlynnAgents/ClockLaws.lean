-- Time. A run is given a wall-clock deadline, and the live owner watches the
-- same deadline on the monotonic clock, bound when it opened the file. What
-- follows for late calls, and that closing and opening again changes nothing.
import FlynnAgents.Operations

namespace FlynnAgents

open Relational Transactional

variable {handle : Handle} {clock : Clock} {t t' : Tables} {call : Call} {self : SQLiteRun}

/-! ## Readings -/

/-- Neither clock goes back. -/
def Clock.Le (c d : Clock) : Prop := c.time ≤ d.time ∧ c.monotonic ≤ d.monotonic

/-- The readings of a list of calls, none before the one in front of it. -/
def Advancing : Clock → List Timed → Prop
  | _, [] => True
  | c, i :: is => c.Le i.clock ∧ Advancing i.clock is

/-- The reading of the last call. -/
def lastReading (c : Clock) (calls : List Timed) : Clock :=
  calls.foldl (fun _ i => i.clock) c

theorem advancing_append {c : Clock} {is js : List Timed} :
    Advancing c (is ++ js) ↔ Advancing c is ∧ Advancing (lastReading c is) js := by
  induction is generalizing c with
  | nil => simp [Advancing, lastReading]
  | cons i is ih => simp [Advancing, ih, lastReading, and_assoc]

/-! ## The deadline -/

/-- The deadline on the monotonic clock, bound at a reading. -/
def Clock.bound (b : Clock) (deadline : ℚ) : ℚ := b.monotonic + max 0 (deadline - b.time)

theorem bindClock_ok :
    bindClock t clock = .ok handle ↔
      t.run.lastClock ≤ clock.time ∧ handle = ⟨t.run.deadline.map clock.bound⟩ := by
  unfold bindClock
  split
  · simp [*]
  · rename_i h
    simp only [not_lt.mp h, true_and, Except.ok.injEq, eq_comm]
    rfl

/-- No change moves the deadline. -/
theorem Change.deadline (h : Change handle clock t call t') : t'.run.deadline = t.run.deadline := by
  cases h <;> rfl

/-- The reading at which the owner last bound its clock: at `create`, and then
at each `open` that returned. -/
def boundAt (created : Clock) (log : List Entry) : Clock :=
  log.foldl (fun b e => if e.call = .openRun ∧ e.ok = true then e.clock else b) created

/-- The owner holds the deadline that it bound at `b`. -/
def BoundAt (b : Clock) (deadline : Option ℚ) (self : SQLiteRun) : Prop :=
  self.db.run.deadline = deadline ∧ self.held.monotonicDeadline = deadline.map b.bound

theorem openRun_cases (clock : Clock) (self : SQLiteRun) :
    (∃ e, (SQLiteRun.openRun clock).run self = (.error e, self)) ∨
      ∃ handle, self.handle = none ∧ bindClock self.db clock = .ok handle ∧
        (SQLiteRun.openRun clock).run self =
          (.ok (), { self with held := handle, closed := false }) := by
  change (∃ e, SQLiteRun.openRun clock self = _) ∨
    ∃ handle, _ ∧ _ ∧ SQLiteRun.openRun clock self = _
  unfold SQLiteRun.openRun
  rcases hh : self.handle with _ | handle
  · simp only
    split
    · exact .inl ⟨_, rfl⟩
    · rcases hb : bindClock self.db clock with e | handle
      · exact .inl ⟨e, rfl⟩
      · exact .inr ⟨handle, trivial, rfl, rfl⟩
  · exact .inl ⟨_, rfl⟩

theorem exec_deadline (i : Timed) (self : SQLiteRun) :
    (exec i self).2.db.run.deadline = self.db.run.deadline := by
  rcases exec_cases i self with ⟨⟨handle, t', -, hc, he⟩, -⟩ | ⟨he, -⟩
  · rw [he]
    exact hc.deadline
  · rw [he]

theorem exec_boundAt {b : Clock} {deadline : Option ℚ} (h : BoundAt b deadline self) (i : Timed) :
    BoundAt (boundAt b [(exec i self).1]) deadline (exec i self).2 := by
  obtain ⟨hd, hb⟩ := h
  refine ⟨(exec_deadline i self).trans hd, ?_⟩
  simp only [boundAt, List.foldl_cons, List.foldl_nil]
  obtain ⟨clock, call⟩ := i
  by_cases ho : call = .openRun
  · subst ho
    rcases openRun_cases clock self with ⟨e, hr⟩ | ⟨handle, -, hbind, hr⟩
    · simp only [exec_run, Call.method, hr, Entry.ok, Except.isOk, Except.toBool,
        Bool.false_eq_true, and_false, if_false]
      exact hb
    · simp only [exec_run, Call.method, hr, Entry.ok, Except.isOk, Except.toBool, and_self, if_true]
      rw [(bindClock_ok.mp hbind).2, hd]
  · rw [exec_held ho]
    simp only [exec_run, ho, false_and, if_false]
    exact hb

theorem boundAt_append (c : Clock) (log more : List Entry) :
    boundAt c (log ++ more) = boundAt (boundAt c log) more := by
  simp [boundAt]

theorem boundAt_after {c : Clock} {deadline : Option ℚ} (h : BoundAt c deadline self)
    (calls : List Timed) :
    BoundAt (boundAt c (self.log calls)) deadline (self.after calls) := by
  refine Machines.run_keeps exec (fun l s => BoundAt (boundAt c l) deadline s) self h
    (fun l s i hs => ?_) calls
  rw [boundAt_append]
  exact exec_boundAt hs i

theorem Clock.Le.refl (c : Clock) : c.Le c := ⟨le_refl _, le_refl _⟩

theorem Clock.Le.trans {b c d : Clock} (h : b.Le c) (h' : c.Le d) : b.Le d :=
  ⟨h.1.trans h'.1, h.2.trans h'.2⟩

/-- The clock is bound at a reading of the past. -/
theorem boundAt_le {b c : Clock} {self : SQLiteRun} {calls : List Timed} (hb : b.Le c)
    (h : Advancing c calls) : (boundAt b (self.log calls)).Le (lastReading c calls) := by
  induction calls generalizing b c self with
  | nil => exact hb
  | cons i is ih =>
    obtain ⟨hi, his⟩ := h
    have hnext : (boundAt b [(exec i self).1]).Le i.clock := by
      simp only [boundAt, List.foldl_cons, List.foldl_nil]
      split
      · exact .refl _
      · exact hb.trans hi
    exact ih hnext his

/-- The calls that the wall-time budget authorizes. -/
def Call.authorized : Call → Bool
  | .start .. | .dispatch .. | .complete .. => true
  | _ => false

theorem timely_of_ok {i : Timed} (ha : i.call.authorized = true) (h : (exec i self).1.ok = true) :
    ∃ handle, self.handle = some handle ∧ Timely handle i.clock self.db := by
  have hm : i.call.mutates = true := by
    revert ha
    cases i.call <;> simp [Call.authorized, Call.mutates]
  obtain ⟨handle, t', hh, hc, -⟩ := commits_of_ok hm h
  refine ⟨handle, hh, ?_⟩
  obtain ⟨clock, call⟩ := i
  cases hc with
  | start _ _ _ timely => exact timely
  | dispatch timely => exact timely
  | complete timely => exact timely
  | _ => cases ha

theorem create_boundAt {now : ℚ} {runId state : Dyn String} {limits : RunLimits}
    {observation : Option (Dyn String)}
    (h : SQLiteRun.create now clock runId state limits observation = .ok self) :
    BoundAt clock (limits.wallTimeSeconds.map fun seconds => now + seconds) self := by
  obtain ⟨id, text, seen, hdb, -, handle, hb, hh⟩ := create_ok h
  have hd : self.db.run.deadline = limits.wallTimeSeconds.map fun seconds => now + seconds := by
    rw [hdb]
    rfl
  refine ⟨hd, ?_⟩
  rw [(SQLiteRun.handle_some hh).1, (bindClock_ok.mp hb).2, hd]

/-! ## No late authorization -/

theorem before_bound {seconds : Option ℚ} (h : handle.monotonicDeadline = seconds)
    (ht : Timely handle clock t) {d : ℚ} (hd : seconds = some d) : clock.monotonic < d := by
  by_contra hn
  refine ht.beforeDeadline ?_
  rw [Handle.secondsRemaining, h, hd, Option.map_some, Option.some.injEq, max_eq_left]
  linarith

/-- The wall clock may pass the deadline while the monotonic clock stands: a
run of ten seconds, and a start at second twenty. -/
theorem a_suspended_owner_starts_late :
    ¬ ∀ (now seconds : ℚ) (clock : Clock) (runId state : Dyn String) (limits : RunLimits)
      (observation : Option (Dyn String)) (self : SQLiteRun),
      SQLiteRun.create now clock runId state limits observation = .ok self →
      limits.wallTimeSeconds = some seconds →
      ∀ (before : List Timed) (i : Timed), Advancing clock (before ++ [i]) →
        i.call.authorized = true → (exec i (self.after before)).1.ok = true →
          i.clock.time < now + seconds := by
  intro h
  have hlate := h 0 10 ⟨0, 0⟩ _ _ (sampleLimits (some 10) none (by decide +kernel)) none _
    (create_sample _) rfl [] ⟨⟨20, 1⟩, .start "op" sampleRequest none (.typed [])⟩
    ⟨⟨by norm_num, by norm_num⟩, trivial⟩ rfl (by decide +kernel)
  norm_num at hlate

/-- Every `start`, `dispatch` and `complete` that succeeds does so on the
monotonic clock before the deadline that the owner bound when it last opened
the run. So it is before the deadline on the wall clock too, unless the wall
clock has gone further than the monotonic one since then. -/
theorem no_late_authorization {now seconds : ℚ} {runId state : Dyn String} {limits : RunLimits}
    {observation : Option (Dyn String)}
    (h : SQLiteRun.create now clock runId state limits observation = .ok self)
    (hlimit : limits.wallTimeSeconds = some seconds) (before : List Timed) (i : Timed)
    (hclock : Advancing clock (before ++ [i])) (ha : i.call.authorized = true)
    (hok : (exec i (self.after before)).1.ok = true) :
    (self.after before).db.run.deadline = some (now + seconds) ∧
      i.clock.monotonic < (boundAt clock (self.log before)).bound (now + seconds) ∧
      (i.clock.time - (boundAt clock (self.log before)).time ≤
          i.clock.monotonic - (boundAt clock (self.log before)).monotonic →
        i.clock.time < now + seconds) := by
  have hb := boundAt_after (create_boundAt h) before
  rw [hlimit, Option.map_some] at hb
  obtain ⟨handle, hh, ht⟩ := timely_of_ok ha hok
  have hlt := before_bound (by rw [← (SQLiteRun.handle_some hh).1]; exact hb.2) ht rfl
  obtain ⟨hbefore, hi, -⟩ := advancing_append.mp hclock
  have hle : (boundAt clock (self.log before)).Le i.clock :=
    (boundAt_le (.refl clock) hbefore).trans hi
  refine ⟨hb.1, hlt, fun hstep => ?_⟩
  have hmono := hle.2
  unfold Clock.bound at hlt
  rcases max_cases 0 (now + seconds - (boundAt clock (self.log before)).time) with
    ⟨hm, -⟩ | ⟨hm, -⟩ <;> rw [hm] at hlt <;> linarith

/-- A start at second three of a run of ten. -/
theorem no_late_authorization_sample :
    (1 : ℚ) < Clock.bound ⟨0, 0⟩ (0 + 10) ∧ (3 - 0 ≤ (1 : ℚ) - 0 → (3 : ℚ) < 0 + 10) :=
  (no_late_authorization (create_sample (sampleLimits (some 10) none (by decide +kernel))) rfl []
    ⟨⟨3, 1⟩, .start "op" sampleRequest none (.typed [])⟩
    ⟨⟨by norm_num, by norm_num⟩, trivial⟩ rfl (by decide +kernel)).2

end FlynnAgents
