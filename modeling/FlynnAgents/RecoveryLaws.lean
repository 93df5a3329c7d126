-- Recovery. A process opens the file that another left in the middle of a
-- step, and closes the operation that it finds: an undispatched one has
-- failed, a dispatched one stays, and an output that was kept is evaluated
-- and published as the step would have done it.
import FlynnAgents.Recovery
import FlynnAgents.Reopening

namespace FlynnAgents

open Relational Programs

variable {handle : Handle} {clock : Clock} {self : SQLiteRun} {t t' : Tables} {call : Call}
  {o : String} {c : Candidate} {evaluator : Candidate → Evaluation} {world : Nat → Moment}
  {ε α : Type} {Q : Except Exn α → SQLiteRun → Prop}

/-! ## The requests of a recovery -/

/-- What a process gets in its world, as far as its store shows it. -/
abbrev Gets (world : Nat → Moment) (x : Flow ε α) (self : SQLiteRun)
    (Q : Except ε α → SQLiteRun → Prop) : Prop :=
  Prog.Meets (Trace.answer world) Trace.store x self Q

theorem gets_store {Q : Except Exn call.Result → SQLiteRun → Prop}
    (h : ∀ n, Q (call.answer (world n).clock self) (exec ⟨(world n).clock, call⟩ self).2) :
    Gets world (store call) self Q := by
  refine Prog.meets_ask ?_
  rintro tr rfl
  exact Prog.meets_ret (h tr.requests)

/-- A read leaves the store. -/
theorem gets_read {Q : Except Exn call.Result → SQLiteRun → Prop} (hm : call.mutates = false)
    (hc : call ≠ .close) (ho : call ≠ .openRun)
    (h : ∀ n, Q (call.answer (world n).clock self) self) : Gets world (store call) self Q := by
  refine gets_store fun n => ?_
  have hsame : (exec ⟨(world n).clock, call⟩ self).2 = self := (read_run hm).2 hc ho
  rw [hsame]
  exact h n

theorem gets_release {Q : Except Exn Unit → SQLiteRun → Prop} (h : Q (.ok ()) self) :
    Gets world release self Q := by
  refine Prog.meets_ask ?_
  rintro tr rfl
  exact Prog.meets_ret h

/-- A process that gets its lock. -/
theorem gets_locked {x : Flow Exn α} (hacquire : ∀ n, (world n).reply .acquire = .ok ())
    (h : Gets world x self Q) : Gets world (locked x) self Q := by
  unfold locked
  refine Prog.meets_bind (Prog.meets_ask ?_)
  rintro tr rfl
  simp only [Trace.answer, hacquire]
  refine Prog.meets_ret ?_
  refine Prog.meets_bind (Prog.meets_catching (Prog.meets_mono h ?_))
  rintro (e | a) self' hq
  · exact Prog.meets_bind (gets_release (Prog.meets_ret hq))
  · exact Prog.meets_bind (gets_release (Prog.meets_ret hq))

theorem gets_secondsRemaining {Q : Except Exn (Option ℚ) → SQLiteRun → Prop}
    (hh : self.handle = some handle)
    (h : ∀ n, Q (.ok (handle.secondsRemaining (world n).clock)) self) :
    Gets world (store .secondsRemaining) self Q := by
  refine gets_read rfl (by simp) (by simp) fun n => ?_
  have ha : Call.answer .secondsRemaining (world n).clock self =
      .ok (handle.secondsRemaining (world n).clock) := by
    rw [← (SQLiteRun.handle_some hh).1]
    rfl
  rw [ha]
  exact h n

/-- A time limit changes nothing but the raise. -/
theorem gets_timeout {x : Flow Exn α} (hh : self.handle = some handle)
    (hQ : ∀ e e' self', Q (.error e) self' → Q (.error e') self') (h : Gets world x self Q) :
    Gets world (timeout x) self Q := by
  unfold timeout
  refine Prog.meets_bind (gets_secondsRemaining hh fun n => ?_)
  refine Prog.meets_catching (Prog.meets_mono h ?_)
  rintro (e | a) self' hq
  · dsimp only
    split
    · refine Prog.meets_bind (Prog.meets_ask ?_)
      rintro tr rfl
      refine Prog.meets_ret ?_
      dsimp only
      split
      · exact Prog.meets_ret (hQ _ _ _ hq)
      · exact Prog.meets_ret hq
    · exact Prog.meets_ret hq
  · exact hq

/-- A process that is in time. -/
theorem gets_checkDeadline {Q : Except Exn Unit → SQLiteRun → Prop}
    (hh : self.handle = some handle)
    (htime : ∀ n, handle.secondsRemaining (world n).clock ≠ some 0) (h : Q (.ok ()) self) :
    Gets world checkDeadline self Q := by
  unfold checkDeadline
  refine Prog.meets_bind (gets_secondsRemaining hh fun n => Prog.meets_raiseIf ?_)
  rw [if_neg (htime n)]
  exact h

/-- A recovery of an open run reads what is pending, and goes on with it. -/
theorem gets_pending {f : Option PendingOperation → Flow Exn α} {e : Exn}
    {pending : Option PendingOperation} (hh : self.handle = some handle)
    (hopen : self.db.run.outcome = none) (hp : self.db.pending = .ok pending)
    (h : Gets world (f pending) self Q) :
    Gets world (do
      let outcome ← store .outcome
      Prog.raiseIf (outcome ≠ none) e
      let pending ← store .pending
      f pending) self Q := by
  refine Prog.meets_bind (gets_read rfl (by simp) (by simp) fun n => ?_)
  have houtcome : Call.answer .outcome (world n).clock self = .ok none :=
    (congrArg Prod.fst (query_of_live hh)).trans (congrArg Except.ok hopen)
  rw [houtcome]
  refine Prog.meets_bind (Prog.meets_raiseIf ?_)
  rw [if_neg (by simp)]
  refine Prog.meets_bind (gets_read rfl (by simp) (by simp) fun n => ?_)
  have hpending : Call.answer .pending (world n).clock self = .ok pending :=
    (congrArg Prod.fst (query_of_live hh)).trans hp
  rw [hpending]
  exact h

/-! ## The four ends of a recovery -/

theorem recover_nothing (hacquire : ∀ n, (world n).reply .acquire = .ok ())
    (hh : self.handle = some handle) (hopen : self.db.run.outcome = none)
    (hp : self.db.pending = .ok none) :
    Gets world Runtime.recover self fun r self' => r = .ok none ∧ self' = self := by
  refine gets_locked hacquire (gets_pending hh hopen hp ?_)
  exact Prog.meets_ret ⟨rfl, rfl⟩

theorem recover_unresolved (hacquire : ∀ n, (world n).reply .acquire = .ok ())
    (hh : self.handle = some handle) (hopen : self.db.run.outcome = none)
    (hp : self.db.pending = .ok (some ⟨o, .dispatched, none⟩)) :
    Gets world Runtime.recover self fun r self' =>
      (∃ e, r = .error e ∧ e.isinstance .unresolvedEffect = true) ∧ self' = self := by
  refine gets_locked hacquire (gets_pending hh hopen hp ?_)
  refine Prog.meets_bind (Prog.meets_raiseIf ?_)
  rw [if_pos rfl]
  exact ⟨⟨_, rfl, rfl⟩, rfl⟩

theorem recover_abandons (hacquire : ∀ n, (world n).reply .acquire = .ok ())
    (hh : self.handle = some handle) (hopen : self.db.run.outcome = none) (hg : Good self.db)
    {row : OperationRow} (hr : self.db.operation? o = some row)
    (hs : row.stage = .inference ∨ row.stage = .proposed) :
    Gets world Runtime.recover self fun r self' =>
      r = .ok none ∧ ∃ clock, Commits clock (.abandonUndispatched o) self self' := by
  have hp : self.db.pending = .ok (some ⟨o, row.stage, none⟩) := by
    rw [pending_of_live hg hr (by rcases hs with hs | hs <;> rw [hs] <;> rfl)]
    rcases hs with hs | hs <;> rw [hs] <;> rfl
  refine gets_locked hacquire (gets_pending hh hopen hp ?_)
  refine Prog.meets_bind (Prog.meets_raiseIf ?_)
  rw [if_neg (by rcases hs with hs | hs <;> rw [hs] <;> exact nofun)]
  refine Prog.meets_bind (gets_store fun n => ?_)
  have hc : ∃ self', Commits (world n).clock (.abandonUndispatched o) self self' :=
    ⟨_, handle, _, hh, .abandonUndispatched hopen hr hs, rfl⟩
  obtain ⟨self', hc⟩ := hc
  have hrun := abandonUndispatched_ok.mpr hc
  have ha : Call.answer (.abandonUndispatched o) (world n).clock self = .ok () :=
    congrArg Prod.fst hrun
  rw [ha, exec_of_commits (i := ⟨(world n).clock, .abandonUndispatched o⟩) hc]
  exact Prog.meets_ret ⟨rfl, _, hc⟩

/-- An output that is kept can be completed with every evaluation that passes
its check. -/
theorem completes (hp : Published t) (ht : Timely handle clock t) (hk : t.Kept o c) {e : Evaluation}
    (hc : checkEvaluation c e = .ok ()) :
    ∃ t', Change handle clock t (.complete (.typed e)) t' := by
  obtain ⟨row, hr, hs, hcand⟩ := hk
  have hbind := checkEvaluation_binds hc
  have hid : c.id = o := by
    obtain ⟨call, -, rfl⟩ := candidate_ok.mp hcand
    exact (Table.lookup_some hr).2
  have hbase : t.read = c.base := by
    obtain ⟨call, -, rfl⟩ := candidate_ok.mp hcand
    exact (hp.base hr (by rw [hs]; rfl)).symm
  have hfresh : ¬ t.evaluations.Has c.id := by
    intro hh
    obtain ⟨row', hr', hs'⟩ := (hp.completed _).mp hh
    rw [hid, hr] at hr'
    cases hr'
    rw [hs] at hs'
    cases hs'
  have hrevision : t.read.revision = t.commits.rows.length := by
    rw [read_eq hp.numbered]
    exact stateOf_revision hp.numbered
  have hnew : ∀ r ∈ commitRows t.read c e, r.revision = t.commits.rows.length + 1 := by
    intro r hm
    obtain ⟨value, -, rfl⟩ := mem_commitRows.mp hm
    simp only [hrevision]
  obtain ⟨evals, evaluated⟩ := Table.insert_of_fresh
    (r := (⟨c.id, e, e.digest⟩ : EvaluationRow)) hfresh
  obtain ⟨commits, committed⟩ : ∃ commits,
      t.commits.insertAll (commitRows t.read c e) = some commits := by
    refine Table.insertAll_of_fresh ?_ ?_
    · unfold commitRows
      split <;> simp
    · rintro r hm ⟨q, hq, hqr⟩
      obtain ⟨i, hi⟩ := List.mem_iff_getElem?.mp hq
      obtain ⟨hlt, -⟩ := List.getElem?_eq_some_iff.mp hi
      have hqi := (hp.numbered i q hi).1
      rw [hnew r hm] at hqr
      omega
  refine ⟨_, .complete ht (by rw [hbind, hid]; exact hr) hs hcand hc hbase evaluated ?_ ?_
    committed⟩
  · intro r hm
    rw [hnew r hm]
    omega
  · intro r hm q hq hqr
    obtain ⟨i, hi⟩ := List.mem_iff_getElem?.mp hq
    obtain ⟨row', hrow', -⟩ := (hp.committed i q hi).evaluation
    rw [hqr, commitRows_operationId hm] at hrow'
    exact hfresh (Table.has_iff_lookup.mpr ⟨row', hrow'⟩)

/-- An evaluation that fails its check is refused, and nothing changes. -/
theorem refuses (clock : Clock) (hg : Good self.db) (hk : self.db.Kept o c) {e : Evaluation}
    (hc : checkEvaluation c e ≠ .ok ()) :
    ∃ err, Call.answer (.complete (.typed e)) clock self = .error err ∧
      (exec ⟨clock, .complete (.typed e)⟩ self).2 = self := by
  have hn : ∀ self', ¬ Commits clock (.complete (.typed e)) self self' := by
    rintro self' ⟨handle, t', -, h, -⟩
    have hw : Waiting self.db o c self.db := ⟨hk, rfl, rfl, rfl, rfl⟩
    exact hc (hw.complete hg h).checked
  rcases settled clock (.complete (.typed e)) self rfl with hs | ⟨-, hr, he⟩
  · exact absurd ((hs _).mpr rfl) (hn _)
  · rcases ha : Call.answer (.complete (.typed e)) clock self with err | r
    · exact ⟨err, rfl, he⟩
    · have hok : (Call.answer (.complete (.typed e)) clock self).isOk = false := hr
      rw [ha] at hok
      cases hok

/-- How a recovery ends that found an output: it publishes the evaluation, or
refuses it. -/
def Republished (self : SQLiteRun) (c : Candidate) (e : Evaluation)
    (r : Except Exn (Option StepResult)) (self' : SQLiteRun) : Prop :=
  ((∃ clock, Commits clock (.complete (.typed e)) self self') ∧
      r = .ok (some (e.result self.db.read))) ∨
    (checkEvaluation c e ≠ .ok () ∧ (∃ err, r = .error err) ∧ self' = self)

/-- The last call of a recovery. -/
theorem gets_complete (hh : self.handle = some handle) (hg : Good self.db)
    (hp : Published self.db) (hk : self.db.Kept o c)
    (htimely : ∀ n, Timely handle (world n).clock self.db) (e : Evaluation) :
    Gets world (do
      let result ← store (.complete (.typed e))
      return some result) self (Republished self c e) := by
  refine Prog.meets_bind (gets_store fun n => ?_)
  by_cases hc : checkEvaluation c e = .ok ()
  · obtain ⟨t', hchange⟩ := completes hp (htimely n) hk hc
    have hcommits : Commits (world n).clock (.complete (.typed e)) self { self with db := t' } :=
      ⟨handle, t', hh, hchange, rfl⟩
    have ha : Call.answer (.complete (.typed e)) (world n).clock self =
        .ok (e.result self.db.read) := congrArg Prod.fst (complete_ok.mpr ⟨hcommits, rfl⟩)
    rw [ha, exec_of_commits (i := ⟨(world n).clock, .complete (.typed e)⟩) hcommits]
    exact Prog.meets_ret (.inl ⟨⟨_, hcommits⟩, rfl⟩)
  · obtain ⟨err, ha, hsame⟩ := refuses (world n).clock hg hk hc
    rw [ha, hsame]
    exact .inr ⟨hc, ⟨err, rfl⟩, rfl⟩

theorem recover_publishes (hacquire : ∀ n, (world n).reply .acquire = .ok ())
    (hworld : ∀ n c, (world n).reply (.evaluate c) = .ok (.typed (evaluator c)))
    (hh : self.handle = some handle) (hg : Good self.db) (hp : Published self.db)
    (hk : self.db.Kept o c) (htimely : ∀ n, Timely handle (world n).clock self.db) :
    Gets world Runtime.recover self (Republished self c (evaluator c)) := by
  have hopen := (htimely 0).isOpen
  have htime : ∀ n, handle.secondsRemaining (world n).clock ≠ some 0 :=
    fun n => (htimely n).beforeDeadline
  have hpending : self.db.pending = .ok (some ⟨o, .returned, some c⟩) := by
    obtain ⟨row, hr, hs, hcand⟩ := hk
    rw [pending_of_live hg hr (by rw [hs]; rfl), if_pos hs, hcand, hs]
    rfl
  have hraise : ∀ e e' self', Republished self c (evaluator c) (.error e) self' →
      Republished self c (evaluator c) (.error e') self' := by
    rintro e e' self' (⟨-, hr⟩ | ⟨hc, -, hsame⟩)
    · cases hr
    · exact .inr ⟨hc, ⟨e', rfl⟩, hsame⟩
  refine gets_locked hacquire (gets_pending hh hopen hpending ?_)
  refine Prog.meets_bind (Prog.meets_raiseIf ?_)
  rw [if_neg (by exact nofun)]
  refine Prog.meets_bind (gets_checkDeadline hh htime ?_)
  refine gets_timeout hh hraise (Prog.meets_bind (Prog.meets_ask ?_))
  rintro tr rfl
  simp only [Trace.answer, hworld]
  refine Prog.meets_ret (Prog.meets_bind (gets_checkDeadline hh htime ?_))
  exact gets_complete hh hg hp hk htimely (evaluator c)

/-! ## What a recovery asks -/

/-- The asks that make an effect: an inference or a tool. -/
def Ask.repeats : Ask → Bool
  | .generate .. | .execute .. => true
  | _ => false

/-- A program that makes no effect. -/
def modest : Protocol Req Req.Answer Unit where
  allowed
    | _, .ask a => a.repeats = false
    | _, _ => True
  possible _ _ _ := True
  next _ _ _ := ()

/-- The program makes no effect, whatever it is answered. -/
def Modest (x : Flow ε α) : Prop := modest.wp x () fun _ _ => True

theorem modest_store (call : Call) : Modest (store call) := ⟨trivial, fun _ _ => trivial⟩

theorem modest_raiseIf (p : Prop) [Decidable p] (e : Exn) :
    Modest (Prog.raiseIf p e : Flow Exn Unit) := by
  unfold Modest
  rw [Protocol.wp_raiseIf]
  split <;> trivial

theorem modest_then {β : Type} {x : Flow ε α} {f : α → Flow ε β} (hx : Modest x)
    (hf : ∀ a, Modest (f a)) : Modest (x >>= f) := by
  refine Protocol.wp_bind.mpr (Protocol.wp_mono hx ?_)
  rintro (e | a) p -
  · trivial
  · exact hf a

theorem modest_handled {ε' : Type} {x : Flow ε α} {f : ε → Flow ε' α} (hx : Modest x)
    (hf : ∀ e, Modest (f e)) : Modest (x.catching f) := by
  refine Protocol.wp_catching.mpr (Protocol.wp_mono hx ?_)
  rintro (e | a) p -
  · exact hf e
  · trivial

theorem modest_locked {x : Flow Exn α} (hx : Modest x) : Modest (locked x) := by
  have hrelease : Modest release := ⟨rfl, fun _ _ => trivial⟩
  refine modest_then ⟨rfl, fun _ _ => trivial⟩ fun _ => ?_
  refine modest_then (modest_handled hx fun e => ?_) fun a => ?_
  · exact modest_then hrelease fun _ => trivial
  · exact modest_then hrelease fun _ => trivial

theorem modest_timeout {x : Flow Exn α} (hx : Modest x) : Modest (timeout x) := by
  refine modest_then (modest_store _) fun limit => modest_handled hx fun e => ?_
  split
  · refine modest_then ⟨rfl, fun _ _ => trivial⟩ fun b => ?_
    split <;> trivial
  · trivial

theorem modest_checkDeadline : Modest checkDeadline :=
  modest_then (modest_store _) fun _ => modest_raiseIf _ _

/-- A recovery never asks for an inference or a tool. -/
theorem modest_recover : Modest Runtime.recover := by
  refine modest_locked (modest_then (modest_store _) fun outcome => ?_)
  refine modest_then (modest_raiseIf _ _) fun _ => ?_
  refine modest_then (modest_store _) fun pending => ?_
  rcases pending with _ | ⟨id, stage, candidate⟩
  · trivial
  refine modest_then (modest_raiseIf _ _) fun _ => ?_
  rcases candidate with _ | candidate
  · exact modest_then (modest_store _) fun _ => trivial
  refine modest_then modest_checkDeadline fun _ => modest_timeout ?_
  refine modest_then ⟨rfl, fun _ _ => trivial⟩ fun evaluation => ?_
  refine modest_then modest_checkDeadline fun _ => ?_
  exact modest_then (modest_store _) fun _ => trivial

theorem Modest.run {x : Flow ε α} (hx : Modest x) {tr : Trace}
    (h : ∀ a ∈ tr.asked, a.repeats = false) :
    ∀ a ∈ (x.run (Trace.answer world) tr).2.asked, a.repeats = false := by
  have hkeeps : ∀ p q (tr : Trace), modest.allowed p q → (∀ a ∈ tr.asked, a.repeats = false) →
      modest.possible p q (Trace.answer world q tr).1 ∧
        ∀ a ∈ (Trace.answer world q tr).2.asked, a.repeats = false := by
    rintro p (call | a) tr hq h
    · exact ⟨trivial, h⟩
    · refine ⟨trivial, fun b hb => ?_⟩
      rcases List.mem_append.mp hb with hb | hb
      · exact h b hb
      · rw [List.mem_singleton.mp hb]
        exact hq
  obtain ⟨_, -, hend⟩ := Protocol.wp_run (Trace.answer world)
    (fun _ tr => ∀ a ∈ tr.asked, a.repeats = false) hkeeps hx h
  exact hend

/-! ## The next process -/

/-- The store of the next process, which opens the file. -/
def Trace.reopened (tr : Trace) (opened : Clock) : SQLiteRun :=
  (exec ⟨opened, .openRun⟩ { tr.store with closed := true }).2

/-- The next process is in time: it opens the file at `opened`, its wall clock
has not gone back, and the deadline that it bound has not come. -/
structure InTime (t : Tables) (opened : Clock) (world : Nat → Moment) : Prop where
  opens : t.run.lastClock ≤ opened.time
  forward : ∀ n, t.run.lastClock ≤ (world n).clock.time
  beforeDeadline : ∀ n d, t.run.deadline = some d → (world n).clock.monotonic < opened.bound d

/-- The file has the format that `open` accepts. -/
def Tables.Formatted (t : Tables) : Prop :=
  t.applicationId = APPLICATION_ID ∧ t.userVersion = SCHEMA_VERSION

theorem Change.formatted (hc : Change handle clock t call t') (h : t.Formatted) : t'.Formatted := by
  cases hc <;> exact h

theorem reopened_eq {tr : Trace} {opened : Clock} (hf : tr.store.db.Formatted)
    (ht : InTime tr.store.db opened world) :
    tr.reopened opened =
      ⟨tr.store.db, ⟨tr.store.db.run.deadline.map opened.bound⟩, false⟩ := by
  have ho : Openable opened tr.store.db.run.deadline tr.store.db := ⟨hf.1, hf.2, rfl, ht.opens⟩
  have hopen : (SQLiteRun.openRun opened).run { tr.store with closed := true } =
      (.ok (), ⟨tr.store.db, ⟨tr.store.db.run.deadline.map opened.bound⟩, false⟩) :=
    openRun_ok ho (le_refl _) rfl
  exact congrArg Prod.snd hopen

/-- The time checks of the next process pass. -/
theorem InTime.timely {opened : Clock} (ht : InTime t opened world) (hopen : t.run.outcome = none)
    (n : Nat) : Timely ⟨t.run.deadline.map opened.bound⟩ (world n).clock t where
  isOpen := hopen
  forward := ht.forward n
  beforeDeadline := by
    rcases hd : t.run.deadline with _ | d
    · exact nofun
    · have hlt := ht.beforeDeadline n d hd
      intro hz
      have hz : max 0 (opened.bound d - (world n).clock.monotonic) = 0 := Option.some.inj hz
      have := max_eq_left_iff.mp hz
      linarith

/-- The next process may start an operation. -/
def SQLiteRun.Ready (self : SQLiteRun) : Prop :=
  ∀ clock, Call.answer .checkReady clock self = .ok ()

/-- Once its operation is over, nothing is under way. -/
theorem Alone.quiet {old : Tables} {stage : Stage} (hone : Alone old o t) (hat : t.At o stage)
    (hs : stage.live = false) : ∀ row ∈ t.operations.rows, row.stage.live = false := by
  intro row hm
  by_contra hl
  rw [Bool.not_eq_false] at hl
  have hid := hone.live (Table.lookup_of_mem hm) hl
  obtain ⟨row', hr, rfl⟩ := hat
  have hr' : t.operation? o = some row := hid ▸ Table.lookup_of_mem hm
  rw [hr] at hr'
  cases hr'
  rw [hl] at hs
  cases hs

theorem Alone.ready {old : Tables} {stage : Stage} (hone : Alone old o self.db)
    (hh : self.handle = some handle) (hat : self.db.At o stage) (hs : stage.live = false) :
    self.Ready := by
  intro clock
  have hready : self.db.checkReady = .ok () := checkReady_ok.mpr ⟨hone.isOpen, hone.quiet hat hs⟩
  exact (congrArg Prod.fst (query_of_live hh)).trans hready

/-- An operation that is abandoned has failed, and keeps what it reserved. -/
theorem abandoned {old : Tables} {self' : SQLiteRun} (hone : Alone old o self.db)
    (hc : Commits clock (.abandonUndispatched o) self self') :
    self'.db.At o .failed ∧ self'.db.reservations = self.db.reservations ∧ self'.Ready := by
  obtain ⟨handle, t', hh, h, rfl⟩ := hc
  have hone' : Alone old o t' := hone.change h (by simp) (by simp)
  have hat : t'.At o .failed := by
    rcases h.lookup o with ⟨hw, -⟩ | ⟨-, _, _, _, hcall, -⟩ | ⟨row, row', -, hr', hm⟩
    · exact absurd rfl hw
    · cases hcall
    · cases hm
      exact ⟨_, hr', rfl⟩
  have hsame : t'.reservations = self.db.reservations :=
    (Option.some.inj h.reserves).symm
  exact ⟨hat, hsame, hone'.ready hh hat rfl⟩

/-! ## A death and its recovery -/

/-- What is left of a process that dies after `n` requests of its step. -/
def Runtime.died (rt : Runtime) (objective : String) (grants : Option (List String))
    (world : Nat → Moment) (self : SQLiteRun) (n : Nat) : Trace :=
  ((rt.step objective grants).drive (Trace.answer world) n ⟨self, 0, []⟩).2

/-- The same step without the death. -/
def Runtime.uninterrupted (rt : Runtime) (objective : String) (grants : Option (List String))
    (world : Nat → Moment) (self : SQLiteRun) : Except Exn StepResult × Trace :=
  (rt.step objective grants).run (Trace.answer world) ⟨self, 0, []⟩

/-- The recovery by the next process. -/
def recovered (world : Nat → Moment) (self : SQLiteRun) : Except Exn (Option StepResult) × Trace :=
  Runtime.recover.run (Trace.answer world) ⟨self, 0, []⟩

/-- The same accepted state, with the same evidence and the same spending. -/
structure SameRecord (t t' : Tables) : Prop where
  state : t.read = t'.read
  evaluations : t.evaluations = t'.evaluations
  commits : t.commits = t'.commits
  reservations : t.reservations = t'.reservations

/-- A recovery that found the output of the operation agrees with the step. -/
structure Republishes (o : String) (c : Candidate) (e : Evaluation) (dead : SQLiteRun)
    (whole : Except Exn StepResult × Trace) (again : Except Exn (Option StepResult) × Trace) :
    Prop where
  accepts : checkEvaluation c e = .ok () →
    again.1 = .ok (some (e.result dead.db.read)) ∧ again.2.store.db.At o .completed ∧
      again.2.store.Ready
  refuses : checkEvaluation c e ≠ .ok () →
    (∃ err, again.1 = .error err) ∧ again.2.store.db = dead.db ∧ ∀ r, whole.1 ≠ .ok r
  result : ∀ r, whole.1 = .ok r →
    again.1 = .ok (some r) ∧ whole.2.store.db.At o .completed
  record : whole.2.store.db.At o .completed → SameRecord again.2.store.db whole.2.store.db

/-- A recovery agrees with the step of the operation, wherever it died. -/
structure Agrees (evaluator : Candidate → Evaluation) (o : String) (dead : Trace)
    (whole : Except Exn StepResult × Trace) (again : Except Exn (Option StepResult) × Trace) :
    Prop where
  modest : ∀ a ∈ again.2.asked, a.repeats = false
  undispatched : ¬ dead.store.db.Spent o →
    again.1 = .ok none ∧ again.2.store.db.At o .failed ∧
      (∀ i tool arguments, .execute i tool arguments ∉ dead.asked) ∧
      again.2.store.db.reservations = dead.store.db.reservations ∧ again.2.store.Ready
  dispatched : dead.store.db.At o .dispatched →
    (∃ e, again.1 = .error e ∧ e.isinstance .unresolvedEffect = true) ∧
      again.2.store.db = dead.store.db
  returned : dead.store.db.At o .returned → ∃ c, dead.store.db.Kept o c ∧
    Republishes o c (evaluator c) dead.store whole again
  completed : dead.store.db.At o .completed →
    again.1 = .ok none ∧ again.2.store.db = dead.store.db ∧ again.2.store.Ready

theorem Done.record {old : Tables} {e : Evaluation} {r r' : StepResult}
    (h : Done old o c e r t) (h' : Done old o c e r' t') : SameRecord t t' := by
  have hcommits : t.commits = t'.commits := Option.some.inj (h.committed.symm.trans h'.committed)
  refine ⟨?_, Option.some.inj (h.evaluated.symm.trans h'.evaluated), hcommits,
    h.reservations.trans h'.reservations.symm⟩
  simp only [Tables.read, hcommits, h.initialState, h'.initialState]

/-- An output in the file makes a candidate. -/
theorem kept_of_at (hg : Good t) (ha : t.At o .returned) : ∃ c, t.Kept o c := by
  obtain ⟨row, hr, hs⟩ := ha
  obtain ⟨call, hcall⟩ := Option.isSome_iff_exists.mp ((hg.rows hr).called (.inr (by rw [hs]; rfl)))
  exact ⟨_, row, hr, hs, candidate_ok.mpr ⟨call, hcall, rfl⟩⟩

/-- What the step, had it gone on, has in common with its recovery. -/
theorem Republished.agrees {dead : SQLiteRun} {whole : Except Exn StepResult × Trace}
    {again : Except Exn (Option StepResult) × Trace} {old : Tables} {p : Phase}
    (hagain : Republished self c (evaluator c) again.1 again.2.store)
    (hself : self = { dead with held := handle, closed := false }) (hg : Good dead.db)
    (hk : dead.db.Kept o c) (hone : Alone old o dead.db)
    (hends : Ends (fun result p => p = .finished result) whole.1 p)
    (htail : Tail evaluator dead.db o c whole.2.store.db p) :
    Republishes o c (evaluator c) dead whole again := by
  subst hself
  have hdone : ∀ {r}, whole.1 = .ok r → Done dead.db o c (evaluator c) r whole.2.store.db := by
    intro r hr
    obtain rfl := hends.2 r hr
    exact htail
  have hreturned : ∀ {t}, Waiting dead.db o c t → ¬ t.At o .completed := by
    rintro t ⟨⟨row, hr, hs, -⟩, -⟩ hat
    cases at_unique ⟨row, hr, hs⟩ hat
  rcases hagain with ⟨⟨clock, hcommits⟩, hr⟩ | ⟨hc, he, hsame⟩
  · obtain ⟨handle', t', hh, hchange, hstore⟩ := hcommits
    have hw : Waiting dead.db o c dead.db := ⟨hk, rfl, rfl, rfl, rfl⟩
    have hd := hw.complete hg hchange
    have hone' : Alone old o t' := hone.change hchange (by simp) (by simp)
    have hready : again.2.store.Ready := by
      rw [hstore]
      exact hone'.ready rfl hd.completed rfl
    refine ⟨fun _ => ⟨hr, hstore ▸ hd.completed, hready⟩, fun hc => absurd hd.checked hc,
      fun r hwhole => ?_, fun hat => ?_⟩
    · have hd' := hdone hwhole
      refine ⟨?_, hd'.completed⟩
      rw [hr, hd'.result]
    · cases p with
      | returned => exact absurd hat (hreturned htail.2)
      | evaluated => exact absurd hat (hreturned htail.2.2)
      | finished r =>
        rw [hstore]
        exact hd.record htail
      | _ => exact htail.elim
  · refine ⟨fun hok => absurd hok hc, fun _ => ⟨he, by rw [hsame], fun r hwhole => ?_⟩,
      fun r hwhole => ?_, fun hat => ?_⟩
    · exact hc (hdone hwhole).checked
    · exact absurd (hdone hwhole).checked hc
    · cases p with
      | returned => exact absurd hat (hreturned htail.2)
      | evaluated => exact absurd hat (hreturned htail.2.2)
      | finished r => exact absurd (Done.checked htail) hc
      | _ => exact htail.elim

theorem ledger_after (hl : Ledger self.db) (calls : List Timed) : Ledger (self.after calls).db :=
  after_keeps Ledger (fun _ _ _ _ _ h hc => h.change hc) hl calls

/-- What holds of the file that a process leaves. -/
structure Left (t : Tables) : Prop where
  good : Good t
  published : Published t
  formatted : t.Formatted

theorem left_after {now : ℚ} {runId state : Dyn String} {limits : RunLimits}
    {observation : Option (Dyn String)}
    (h : SQLiteRun.create now clock runId state limits observation = .ok self)
    (calls : List Timed) : Left (self.after calls).db := by
  obtain ⟨id, text, seen, hdb, -⟩ := create_ok h
  have hg : Good self.db := hdb ▸ good_fresh _
  have hf : self.db.Formatted := by
    rw [hdb]
    exact ⟨rfl, rfl⟩
  exact ⟨good_after hg calls, published_after hg (hdb ▸ published_fresh _) calls,
    after_keeps Tables.Formatted (fun _ _ _ _ _ h hc => hc.formatted h) hf calls⟩

/-- A recovery of a file with the one operation of a step. -/
theorem recovered_agrees {dead : Trace} {old : Tables} {opened : Clock}
    {whole : Except Exn StepResult × Trace} (hleft : Left dead.store.db)
    (hone : Alone old o dead.store.db)
    (hasked : ∀ i tool arguments, .execute i tool arguments ∈ dead.asked →
      i = o ∧ dead.store.db.Spent o)
    (hstarted : (dead.store.db.operation? o).isSome = true)
    (hends : ∀ c, dead.store.db.Kept o c → ∃ p',
      Ends (fun result p => p = .finished result) whole.1 p' ∧
        Tail evaluator dead.store.db o c whole.2.store.db p')
    (hworld : ∀ n c, (world n).reply (.evaluate c) = .ok (.typed (evaluator c)))
    (hacquire : ∀ n, (world n).reply .acquire = .ok ())
    (ht : InTime dead.store.db opened world) :
    Agrees evaluator o dead whole (recovered world (dead.reopened opened)) := by
  have hstore := reopened_eq hleft.formatted ht
  set handle : Handle := ⟨dead.store.db.run.deadline.map opened.bound⟩
  have hopen := hone.isOpen
  have hends' : ∀ {Q : Except Exn (Option StepResult) → SQLiteRun → Prop},
      Gets world Runtime.recover ⟨dead.store.db, handle, false⟩ Q →
        Q (recovered world (dead.reopened opened)).1
          (recovered world (dead.reopened opened)).2.store := by
    intro Q hq
    exact hq ⟨dead.reopened opened, 0, []⟩ hstore
  have hready : ∀ {stage : Stage}, dead.store.db.At o stage → stage.live = false →
      SQLiteRun.Ready ⟨dead.store.db, handle, false⟩ :=
    fun hat hs => Alone.ready hone rfl hat hs
  refine ⟨modest_recover.run (fun _ hm => by cases hm), fun hunspent => ?_, fun hat => ?_,
    fun hat => ?_, fun hat => ?_⟩
  · -- The operation has failed, or it is abandoned.
    have hquiet : ∀ i tool arguments, .execute i tool arguments ∉ dead.asked :=
      fun i tool arguments hm => hunspent (hasked i tool arguments hm).2
    obtain ⟨row, hr⟩ := Option.isSome_iff_exists.mp hstarted
    have habandon : row.stage = .inference ∨ row.stage = .proposed →
        (recovered world (dead.reopened opened)).1 = .ok none ∧ ∃ clock,
          Commits clock (.abandonUndispatched o) ⟨dead.store.db, handle, false⟩
            (recovered world (dead.reopened opened)).2.store := fun hst =>
      hends' (recover_abandons hacquire rfl hopen hleft.good hr hst)
    rcases hst : row.stage
    case failed =>
      have hat : dead.store.db.At o .failed := ⟨row, hr, hst⟩
      obtain ⟨hresult, hsame⟩ := hends' (recover_nothing hacquire rfl hopen
        (pending_none.mpr (hone.quiet hat rfl)))
      rw [hsame]
      exact ⟨hresult, hat, hquiet, rfl, hready hat rfl⟩
    case inference | proposed =>
      obtain ⟨hresult, clock, hcommits⟩ := habandon (by simp [hst])
      have hone' : Alone old o (SQLiteRun.mk dead.store.db handle false).db := hone
      obtain ⟨hat, hsame, hready⟩ := abandoned hone' hcommits
      exact ⟨hresult, hat, hquiet, hsame, hready⟩
    all_goals exact absurd ⟨row, hr, by rw [hst]; rfl⟩ hunspent
  · obtain ⟨he, hsame⟩ := hends' (recover_unresolved hacquire rfl hopen
      (pending_of_dispatched hleft.good hat))
    exact ⟨he, by rw [hsame]⟩
  · obtain ⟨c, hk⟩ := kept_of_at hleft.good hat
    obtain ⟨p', hends, htail⟩ := hends c hk
    have hagain := hends' (recover_publishes hacquire hworld rfl hleft.good hleft.published hk
      (ht.timely hopen))
    exact ⟨c, hk, hagain.agrees rfl hleft.good hk hone hends htail⟩
  · obtain ⟨hr, hsame⟩ := hends' (recover_nothing hacquire rfl hopen
      (pending_none.mpr (hone.quiet hat rfl)))
    refine ⟨hr, by rw [hsame], ?_⟩
    rw [hsame]
    exact hready hat rfl

/-- A process dies in a step, between any two of its requests, and the next one
opens the file and recovers in time. The recovery never asks for an inference
or a tool. An operation that was not dispatched has failed, without its tool
and without a refund; a dispatched one is refused, and nothing changes; an
output in the file is published as the step would have published it, when its
evaluation passes its check, and refused like there when not; and after the
completion nothing is left to do. -/
theorem a_recovery_agrees_with_the_step {now : ℚ} {runId state : Dyn String} {limits : RunLimits}
    {observation : Option (Dyn String)}
    (h : SQLiteRun.create now clock runId state limits observation = .ok self)
    (calls : List Timed) (rt : Runtime) (objective : String) (grants : Option (List String))
    {world world' : Nat → Moment} {evaluator : Candidate → Evaluation}
    (hworld : ∀ n c, (world n).reply (.evaluate c) = .ok (.typed (evaluator c)))
    (hworld' : ∀ n c, (world' n).reply (.evaluate c) = .ok (.typed (evaluator c)))
    (hacquire : ∀ n, (world' n).reply .acquire = .ok ()) (n : Nat) {opened : Clock}
    (ht : InTime (rt.died objective grants world (self.after calls) n).store.db opened world')
    {o : String} (hnew : (self.after calls).db.operation? o = none)
    (hstarted : ((rt.died objective grants world (self.after calls) n).store.db.operation?
      o).isSome = true) :
    Agrees evaluator o (rt.died objective grants world (self.after calls) n)
      (rt.uninterrupted objective grants world (self.after calls))
      (recovered world' ((rt.died objective grants world (self.after calls) n).reopened
        opened)) := by
  set dead := rt.died objective grants world (self.after calls) n with hdead
  have hl : Ledger (self.after calls).db := ledger_after (ledger_created h).1 calls
  obtain ⟨more, hmore⟩ : ∃ more, dead.store = (self.after calls).after more := drive_after _ n _
  have hleft : Left dead.store.db := by
    rw [hmore, SQLiteRun.after, SQLiteRun.after, ← Machines.after_append]
    exact left_after h _
  have hld : Ledger dead.store.db := by
    rw [hmore]
    exact ledger_after hl more
  obtain ⟨p, hwp, hstep⟩ := stepping_drive rt objective grants hl hworld n
  have hstep : Stepping evaluator (self.after calls).db p dead := hstep
  cases hstep with
  | before hknown =>
    rw [(hknown o).mpr hnew] at hstarted
    cases hstarted
  | within i hone hs hasked =>
    obtain rfl := hone.only hnew hstarted
    refine recovered_agrees hleft hone hasked hstarted (fun c hk => ?_) hworld' hacquire ht
    obtain ⟨p', hends, htail⟩ := tail_run hld hwp (hs.tail hk) hworld
    have hrun : Prog.run (Trace.answer world) _ dead =
        rt.uninterrupted objective grants world (self.after calls) :=
      Prog.run_drive (Trace.answer world) n (rt.step objective grants) ⟨self.after calls, 0, []⟩
    rw [hrun] at hends htail
    exact ⟨p', hends, htail⟩

/-- What the sample application answers. -/
def sampleEvaluation (reason : String) (candidate : Candidate) : Evaluation where
  candidate
  evaluator := .typed "evaluator"
  scope := .typed "scope"
  verdict := .typed .failed
  reason := .typed reason

/-- A world whose clocks stand still, and whose evaluator gives the reason. -/
def sampleWorld (reason : String) (_ : Nat) : Moment where
  clock := ⟨0, 0⟩
  reply
    | .evaluate candidate => .ok (.typed (sampleEvaluation reason candidate))
    | a => sampleReply a

/-- A process that dies when the output is in the file. -/
def sampleDeath (reason : String) : Trace :=
  sampleRuntime.died "goal" none (sampleWorld reason) sampleStore 22

theorem a_recovery_agrees_with_the_step_sample :
    (sampleDeath "reason").store.db.At "op" .returned ∧
      Agrees (sampleEvaluation "reason") "op" (sampleDeath "reason")
        (sampleRuntime.uninterrupted "goal" none (sampleWorld "reason") sampleStore)
        (recovered (sampleWorld "reason") ((sampleDeath "reason").reopened ⟨0, 0⟩)) := by
  have hstage : ((sampleDeath "reason").store.db.operation? "op").map OperationRow.stage =
      some .returned := by decide +kernel
  have hclock : (sampleDeath "reason").store.db.run.lastClock = 0 := by decide +kernel
  have hdeadline : (sampleDeath "reason").store.db.run.deadline = none := by decide +kernel
  have ht : InTime (sampleDeath "reason").store.db ⟨0, 0⟩ (sampleWorld "reason") :=
    ⟨hclock.le, fun _ => hclock.le, fun _ d hd => by rw [hdeadline] at hd; cases hd⟩
  have hat : (sampleDeath "reason").store.db.At "op" .returned :=
    Option.map_eq_some_iff.mp hstage
  have hstarted : ((sampleDeath "reason").store.db.operation? "op").isSome = true := by
    decide +kernel
  exact ⟨hat, a_recovery_agrees_with_the_step create_sampleStore [] sampleRuntime "goal" none
    (fun _ _ => rfl) (fun _ _ => rfl) (fun _ => rfl) 22 ht rfl hstarted⟩

/-- An evaluation without a reason is refused, and the recovery with it: the
operation stays, and the run is not ready. -/
theorem a_refused_evaluation_stops_recovery :
    ((sampleDeath "").store.db.operation? "op").map OperationRow.stage = some .returned ∧
      (recovered (sampleWorld "") ((sampleDeath "").reopened ⟨0, 0⟩)).1.isOk = false ∧
      (Call.answer .checkReady ⟨0, 0⟩
        (recovered (sampleWorld "") ((sampleDeath "").reopened ⟨0, 0⟩)).2.store).isOk = false := by
  decide +kernel

end FlynnAgents
