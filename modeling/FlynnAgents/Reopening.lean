-- Closing a run and opening it again changes nothing while the two clocks go
-- in step: every call answers as it would have, and the file ends the same.
import FlynnAgents.ClockLaws

namespace FlynnAgents

open Relational Transactional

variable {clock : Clock} {self : SQLiteRun} {h h' : Handle}

/-! ## Two owners of one file -/

/-- Two owners of the same file. -/
def Twin (h h' : Handle) (s s' : SQLiteRun) : Prop :=
  s.db = s'.db ∧ s.handle = some h ∧ s'.handle = some h'

theorem transaction_respects {α : Type} {body : Handle → Body α} (hb : body h = body h') :
    (transaction body).Respects (Twin h h') := by
  rintro s s' ⟨hdb, hh, hh'⟩
  rw [transaction_run, transaction_run]
  simp only [hh, hh', ← hdb, hb]
  rcases (body h').run s.db with e | ⟨a, db⟩
  · exact ⟨rfl, hdb, hh, hh'⟩
  · exact ⟨rfl, rfl, hh, hh'⟩

theorem query_respects {α : Type} (f : Tables → Except Exn α) :
    (query f).Respects (Twin h h') := by
  rintro s s' ⟨hdb, hh, hh'⟩
  rw [query_of_live hh, query_of_live hh', hdb]
  exact ⟨rfl, hdb, hh, hh'⟩

theorem requireTime_congr (hs : h.secondsRemaining clock = h'.secondsRemaining clock) :
    requireTime h clock = requireTime h' clock := by
  unfold requireTime
  rw [hs]

/-- Two owners with the same time left get the same answer from every call,
and write the same. -/
theorem method_respects (hs : h.secondsRemaining clock = h'.secondsRemaining clock) {call : Call}
    (hc : call ≠ .close) (ho : call ≠ .openRun) :
    (call.method clock).Respects (Twin h h') := by
  cases call with
  | start id request output guards =>
    cases guards with
    | typed guards =>
      refine Method.respects_ite (Method.respects_raise _) (transaction_respects ?_)
      simp only [requireTime_congr hs]
    | other => exact Method.respects_raise _
  | recordGuard id guardId decision =>
    cases decision with
    | typed d => exact transaction_respects rfl
    | other => exact Method.respects_raise _
  | recordEvent event =>
    cases event with
    | typed event => exact Method.respects_ite (Method.respects_raise _) (transaction_respects rfl)
    | other => exact Method.respects_raise _
  | recordUsage id usage =>
    cases usage with
    | typed usage =>
      refine Method.respects_bind (transaction_respects rfl) fun _ =>
        Method.respects_bind (query_respects _) fun reserved => ?_
      cases reserved with
      | none => exact Method.respects_pure ()
      | some reserved => exact Method.respects_raiseIf _ _
    | other => exact Method.respects_raise _
  | proposed id call =>
    cases call with
    | typed c => exact transaction_respects rfl
    | other => exact Method.respects_raise _
  | dispatch id observation externalAction =>
    refine transaction_respects ?_
    simp only [requireTime_congr hs]
  | returned id output =>
    cases output with
    | typed output =>
      exact Method.respects_bind (transaction_respects rfl) fun _ => query_respects _
    | other => exact Method.respects_raise _
  | complete evaluation =>
    refine transaction_respects ?_
    simp only [requireTime_congr hs]
  | failed => exact transaction_respects rfl
  | abandonUndispatched => exact transaction_respects rfl
  | finish outcome =>
    cases outcome with
    | typed text => exact Method.respects_ite (Method.respects_raise _) (transaction_respects rfl)
    | other => exact Method.respects_raise _
  | close => exact absurd rfl hc
  | openRun => exact absurd rfl ho
  | secondsRemaining =>
    rintro s s' ⟨hdb, hh, hh'⟩
    have hleft : s.held.secondsRemaining clock = s'.held.secondsRemaining clock := by
      rw [(SQLiteRun.handle_some hh).1, (SQLiteRun.handle_some hh').1, hs]
    exact ⟨congrArg Except.ok hleft, hdb, hh, hh'⟩
  | _ => exact query_respects _

/-! ## Clocks in step -/

/-- The two clocks are `offset` apart. -/
def InStep (offset : ℚ) (c : Clock) : Prop := c.time - c.monotonic = offset

/-- The owner sees the time that is left on the wall clock, at every reading
from `c` on. -/
def Faithful (offset : ℚ) (c : Clock) (deadline : Option ℚ) (handle : Handle) : Prop :=
  ∀ d : Clock, InStep offset d → c.time ≤ d.time →
    handle.secondsRemaining d = deadline.map fun limit => max 0 (limit - d.time)

theorem faithful_bound {offset : ℚ} {b : Clock} (hb : InStep offset b) (deadline : Option ℚ) :
    Faithful offset b deadline ⟨deadline.map b.bound⟩ := by
  intro d hd hle
  simp only [Handle.secondsRemaining, Option.map_map]
  refine congrArg (fun f => Option.map f deadline) (funext fun limit => ?_)
  simp only [Function.comp_apply, Clock.bound]
  unfold InStep at hb hd
  rcases le_total limit b.time with hl | hl
  · rw [max_eq_left (by linarith : limit - b.time ≤ 0), max_eq_left (by linarith),
      max_eq_left (by linarith)]
  · rw [max_eq_right (by linarith : 0 ≤ limit - b.time)]
    congr 1
    linarith

theorem Faithful.later {offset : ℚ} {c d : Clock} {deadline : Option ℚ} {handle : Handle}
    (hf : Faithful offset c deadline handle) (hle : c.time ≤ d.time) :
    Faithful offset d deadline handle :=
  fun e he hde => hf e he (hle.trans hde)

/-! ## Every run -/

/-- The file can be opened at any reading from `c` on. -/
structure Openable (c : Clock) (deadline : Option ℚ) (t : Tables) : Prop where
  application : t.applicationId = APPLICATION_ID
  version : t.userVersion = SCHEMA_VERSION
  deadline : t.run.deadline = deadline
  clock : t.run.lastClock ≤ c.time

theorem Openable.change {c : Clock} {deadline : Option ℚ} {t t' : Tables} {call : Call}
    (ho : Openable c deadline t) (hle : c.time ≤ clock.time)
    (hc : Change h clock t call t') : Openable clock deadline t' := by
  obtain ⟨ha, hv, hd, hl⟩ := ho
  cases hc with
  | start | dispatch | complete => exact ⟨ha, hv, hd, le_refl _⟩
  | _ => exact ⟨ha, hv, hd, hl.trans hle⟩

theorem Openable.exec {c : Clock} {deadline : Option ℚ} {i : Timed}
    (ho : Openable c deadline self.db) (hle : c.time ≤ i.clock.time) :
    Openable i.clock deadline (exec i self).2.db := by
  rcases exec_cases i self with ⟨⟨handle, t', -, hc, he⟩, -⟩ | ⟨he, -⟩
  · rw [he]
    exact ho.change hle hc
  · rw [he]
    exact ⟨ho.application, ho.version, ho.deadline, ho.clock.trans hle⟩

theorem openRun_ok {c : Clock} {deadline : Option ℚ} (ho : Openable c deadline self.db)
    (hle : c.time ≤ clock.time) (hh : self.handle = none) :
    (SQLiteRun.openRun clock).run self =
      (.ok (), { self with held := ⟨deadline.map clock.bound⟩, closed := false }) := by
  have hb : bindClock self.db clock = .ok ⟨deadline.map clock.bound⟩ :=
    bindClock_ok.mpr ⟨ho.clock.trans hle, by rw [ho.deadline]⟩
  change SQLiteRun.openRun clock self = _
  unfold SQLiteRun.openRun
  simp only [hh, ho.application, ho.version, ne_eq, not_true_eq_false, or_self, if_false, hb]

/-- The calls of a run, and the same calls with the run closed and opened
again in between. -/
inductive Reopened : List Timed → List Timed → Prop where
  | nil : Reopened [] []
  | call {i : Timed} {is js : List Timed} (hc : i.call ≠ .close) (ho : i.call ≠ .openRun)
      (rest : Reopened is js) : Reopened (i :: is) (i :: js)
  | reopen {is js : List Timed} (closed opened : Clock) (rest : Reopened is js) :
      Reopened is (⟨closed, .close⟩ :: ⟨opened, .openRun⟩ :: js)

/-- The entry is neither a close nor an open. -/
def Entry.isWork (e : Entry) : Bool := decide (e.call ≠ .close ∧ e.call ≠ .openRun)

/-- A run that was never closed, and the same run with reopenings, after the
same calls. -/
structure Alike (offset : ℚ) (c : Clock) (deadline : Option ℚ) (s s' : SQLiteRun) : Prop where
  twin : ∃ h h', Twin h h' s s' ∧ Faithful offset c deadline h ∧ Faithful offset c deadline h'
  openable : Openable c deadline s.db

theorem Alike.later {offset : ℚ} {c d : Clock} {deadline : Option ℚ} {s s' : SQLiteRun}
    (ha : Alike offset c deadline s s') (hle : c.time ≤ d.time) :
    Alike offset d deadline s s' := by
  obtain ⟨⟨h, h', ht, hf, hf'⟩, ho⟩ := ha
  exact ⟨⟨h, h', ht, hf.later hle, hf'.later hle⟩,
    ho.application, ho.version, ho.deadline, ho.clock.trans hle⟩

/-- The same call on both gives the same entry. -/
theorem Alike.call {offset : ℚ} {c : Clock} {deadline : Option ℚ} {s s' : SQLiteRun} {i : Timed}
    (ha : Alike offset c deadline s s') (hle : c.time ≤ i.clock.time)
    (hi : InStep offset i.clock) (hc : i.call ≠ .close) (ho : i.call ≠ .openRun) :
    (exec i s).1 = (exec i s').1 ∧ Alike offset i.clock deadline (exec i s).2 (exec i s').2 := by
  obtain ⟨⟨h, h', ht, hf, hf'⟩, hopen⟩ := ha
  have hsec : h.secondsRemaining i.clock = h'.secondsRemaining i.clock := by
    rw [hf _ hi hle, hf' _ hi hle]
  obtain ⟨he, ht'⟩ := method_respects hsec hc ho s s' ht
  refine ⟨?_, ⟨h, h', ht', hf.later hle, hf'.later hle⟩, hopen.exec hle⟩
  rw [exec_run, exec_run]
  exact congrArg (Entry.mk i.clock i.call) he

/-- A close and an open give back an owner that is alike. -/
theorem Alike.reopen {offset : ℚ} {c closed opened : Clock} {deadline : Option ℚ}
    {s s' : SQLiteRun} (ha : Alike offset c deadline s s') (hle : c.time ≤ closed.time)
    (hle' : closed.time ≤ opened.time) (hi : InStep offset opened) :
    (exec ⟨opened, .openRun⟩ (exec ⟨closed, .close⟩ s').2).1.ok = true ∧
      Alike offset opened deadline s (exec ⟨opened, .openRun⟩ (exec ⟨closed, .close⟩ s').2).2 := by
  obtain ⟨⟨h, h', ⟨hdb, hh, hh'⟩, hf, hf'⟩, hopen⟩ := ha
  have hclosed : (exec ⟨closed, .close⟩ s').2 = { s' with closed := true } := rfl
  have hr : (SQLiteRun.openRun opened).run { s' with closed := true } =
      (.ok (), { s' with held := ⟨deadline.map opened.bound⟩, closed := false }) :=
    openRun_ok (hdb ▸ hopen) (hle.trans hle') rfl
  rw [hclosed, exec_run]
  simp only [Call.method, hr, Entry.ok]
  have hle'' := hle.trans hle'
  exact ⟨rfl, ⟨h, _, ⟨hdb, hh, rfl⟩, hf.later hle'', faithful_bound hi deadline⟩,
    hopen.application, hopen.version, hopen.deadline, hopen.clock.trans hle''⟩

theorem alike_after {offset : ℚ} {c : Clock} {deadline : Option ℚ} {s s' : SQLiteRun}
    {calls reopened : List Timed} (ha : Alike offset c deadline s s')
    (hr : Reopened calls reopened) (hstep : ∀ i ∈ reopened, InStep offset i.clock)
    (hadv : Advancing c reopened) :
    (s'.log reopened).filter Entry.isWork = s.log calls ∧
      (∀ e ∈ s'.log reopened, e.call = .openRun → e.ok = true) ∧
      Alike offset (lastReading c reopened) deadline (s.after calls) (s'.after reopened) := by
  induction hr generalizing c s s' with
  | nil => exact ⟨rfl, by simp, ha⟩
  | @call i is js hc ho rest ih =>
    obtain ⟨hle, hadv⟩ := hadv
    obtain ⟨he, ha'⟩ := ha.call hle.1 (hstep i (by simp)) hc ho
    obtain ⟨hlog, hopen, hend⟩ := ih ha' (fun j hj => hstep j (by simp [hj])) hadv
    have hwork : (exec i s').1.isWork = true := by
      simp [Entry.isWork, exec_run, hc, ho]
    refine ⟨?_, ?_, hend⟩
    · simp only [SQLiteRun.log, Machines.log_cons, List.filter_cons_of_pos hwork]
      rw [he]
      exact congrArg _ hlog
    · intro e hm hcall
      rcases List.mem_cons.mp hm with rfl | hm
      · exact absurd hcall ho
      · exact hopen e hm hcall
  | @reopen is js closed opened rest ih =>
    obtain ⟨hle, hle', hadv⟩ := hadv
    obtain ⟨hok, ha'⟩ := ha.reopen hle.1 hle'.1 (hstep ⟨opened, .openRun⟩ (by simp))
    obtain ⟨hlog, hopen, hend⟩ := ih ha' (fun j hj => hstep j (by simp [hj])) hadv
    refine ⟨?_, ?_, hend⟩
    · simp only [SQLiteRun.log, Machines.log_cons]
      rw [List.filter_cons_of_neg (by simp [Entry.isWork, exec_run]),
        List.filter_cons_of_neg (by simp [Entry.isWork, exec_run])]
      exact hlog
    · intro e hm hcall
      rcases List.mem_cons.mp hm with rfl | hm
      · cases hcall
      · rcases List.mem_cons.mp hm with rfl | hm
        · exact hok
        · exact hopen e hm hcall

theorem create_alike {now : ℚ} {runId state : Dyn String} {limits : RunLimits}
    {observation : Option (Dyn String)}
    (h : SQLiteRun.create now clock runId state limits observation = .ok self) :
    Alike (clock.time - clock.monotonic) clock self.db.run.deadline self self := by
  obtain ⟨id, text, seen, hdb, -, handle, hb, hh⟩ := create_ok h
  obtain ⟨hl, rfl⟩ := bindClock_ok.mp hb
  have hf : Faithful (clock.time - clock.monotonic) clock self.db.run.deadline
      ⟨self.db.run.deadline.map clock.bound⟩ := faithful_bound rfl _
  exact ⟨⟨_, _, ⟨rfl, hh, hh⟩, hf, hf⟩, by rw [hdb]; rfl, by rw [hdb]; rfl, rfl, hl⟩

/-- While the two clocks go in step and never back, a run that is closed and
opened again any number of times answers every call as if it had never been
closed, ends with the same file, and has the same time left at any later
reading. -/
theorem reopening_changes_nothing {now : ℚ} {runId state : Dyn String} {limits : RunLimits}
    {observation : Option (Dyn String)}
    (h : SQLiteRun.create now clock runId state limits observation = .ok self)
    {calls reopened : List Timed} (hr : Reopened calls reopened)
    (hstep : ∀ i ∈ reopened, InStep (clock.time - clock.monotonic) i.clock)
    (hadv : Advancing clock reopened) :
    (self.log reopened).filter Entry.isWork = self.log calls ∧
      (∀ e ∈ self.log reopened, e.call = .openRun → e.ok = true) ∧
      (self.after reopened).db = (self.after calls).db ∧
      ∀ d : Clock, InStep (clock.time - clock.monotonic) d →
        (lastReading clock reopened).time ≤ d.time →
        (exec ⟨d, .secondsRemaining⟩ (self.after reopened)).1 =
          (exec ⟨d, .secondsRemaining⟩ (self.after calls)).1 := by
  obtain ⟨hlog, hopen, hend⟩ := alike_after (create_alike h) hr hstep hadv
  obtain ⟨⟨_, _, ⟨hdb, -⟩, -⟩, -⟩ := id hend
  refine ⟨hlog, hopen, hdb.symm, fun d hd hle => ?_⟩
  exact (hend.call hle hd (by simp) (by simp)).1.symm

/-- A run of ten seconds, closed after a start and opened again. -/
theorem reopening_changes_nothing_sample :
    ((sampleRun (sampleLimits (some 10) none (by decide +kernel))).after
        [⟨⟨1, 1⟩, .start "op" sampleRequest none (.typed [])⟩, ⟨⟨2, 2⟩, .close⟩,
          ⟨⟨3, 3⟩, .openRun⟩, ⟨⟨4, 4⟩, .proposed "op" (.typed ⟨"act", "\x7b\x7d"⟩)⟩]).db =
      ((sampleRun (sampleLimits (some 10) none (by decide +kernel))).after
        [⟨⟨1, 1⟩, .start "op" sampleRequest none (.typed [])⟩,
          ⟨⟨4, 4⟩, .proposed "op" (.typed ⟨"act", "\x7b\x7d"⟩)⟩]).db :=
  (reopening_changes_nothing (create_sample (sampleLimits (some 10) none (by decide +kernel)))
    (.call (by simp) (by simp) (.reopen ⟨2, 2⟩ ⟨3, 3⟩ (.call (by simp) (by simp) .nil)))
    (by simp [InStep]) (by norm_num [Advancing, Clock.Le])).2.2.1

end FlynnAgents
