-- What holds of the tasks that share a run, in every interleaving. Each task
-- is in a phase that the file fits, and no two work on one operation.
import FlynnAgents.Tasks

namespace FlynnAgents

open Relational Programs

variable {runtimes : Nat → Runtime} {handle : Handle} {clock : Clock} {self self' : SQLiteRun}
  {o : String}

/-- A job keeps to the phases, whatever it is answered. -/
theorem wp_job (rt : Runtime) (job : Job) :
    phases.wp (job.prog rt) .idle
      (Ends fun result p => ∀ r, result = some r → p = .finished r) := by
  cases job with
  | step objective grants =>
    refine wp_then Runtime.wp_step fun result p' hp' hk => wp_value hp' fun r hr => ?_
    cases hr
    exact hk
  | recover => exact Runtime.wp_recover

/-! ## One request -/

/-- What the step of a task that works on the operation `claim` does to the
store, as far as the other tasks can tell. -/
structure Onward (claim : Option String) (old new : SQLiteRun) : Prop where
  ledger : Ledger old.db → Ledger new.db
  fits : ∀ p, Fits old.db p → (∀ o, p.claim = some o → claim ≠ some o) → Fits new.db p
  spent : ∀ o, old.db.Spent o → new.db.Spent o
  handle : new.handle = old.handle

theorem Onward.refl (claim : Option String) (self : SQLiteRun) : Onward claim self self :=
  ⟨id, fun _ h _ => h, fun _ h => h, rfl⟩

theorem spent_exec (i : Timed) (h : self.db.Spent o) : (exec i self).2.db.Spent o := by
  rcases exec_cases i self with ⟨⟨handle, t', -, hc, he⟩, -⟩ | ⟨he, -⟩
  · rw [he]
    exact (hc.spent_iff o).mpr (.inl h)
  · rwa [he]

theorem Onward.exec {claim : Option String} {i : Timed} (hc : i.call ≠ .close)
    (ho : i.call ≠ .openRun) (hi : ∀ o, i.call.intrudes o → claim = some o) :
    Onward claim self (exec i self).2 where
  ledger hl := hl.exec i
  fits _ hf hp := hf.exec i fun o ho hi' => hp o ho (hi o hi')
  spent _ hs := spent_exec i hs
  handle := exec_handle hc ho

/-! ## The invariant -/

/-- A task in a phase. `started` are the operations whose tools were started. -/
structure TaskFits (t : Tables) (started : List String) (task : Task) (p : Phase) : Prop where
  keeps : phases.wp task.prog p (Ends fun result p => ∀ r, result = some r → p = .finished r)
  fits : Fits t p
  waits : task.waiting = true → ∃ a next, task.prog = .ask (.ask a) next ∧ a.awaits = true
  once : ∀ {o externalAction}, p = .dispatched o externalAction → o ∈ started → task.waiting = true

/-- The task is alive at its place in the list. -/
def Process.Lives (s : Process) (k : Nat) (task : Task) : Prop :=
  s.tasks[k]? = some task ∧ task.alive = true

/-- What holds of the tasks in every interleaving, each in its phase. -/
structure Consistent (phase : Nat → Phase) (s : Process) (started : List String) : Prop where
  ledger : Ledger s.store.db
  tasks : ∀ {k task}, s.Lives k task → TaskFits s.store.db started task (phase k)
  apart : ∀ {j k i l o}, s.Lives j i → s.Lives k l → (phase j).claim = some o →
    (phase k).claim = some o → j = k
  runs : ∀ {k}, s.running = some k → ∃ task, s.Lives k task ∧ task.waiting = false
  rests : ∀ {k task}, s.Lives k task → s.running ≠ some k →
    task.waiting = true ∨ task.prog.ended.isSome = true
  opened : ∀ {k task}, s.Lives k task → s.store.handle.isSome = true
  spent : ∀ o ∈ started, s.store.db.Spent o
  nodup : started.Nodup

variable {phase : Nat → Phase} {s s' : Process} {started : List String} {k : Nat}
  {task task' : Task}

theorem lives_of_set (ht : s'.tasks = s.tasks.set k task') {j : Nat} {i : Task}
    (h : s'.Lives j i) : (j = k ∧ i = task') ∨ (j ≠ k ∧ s.Lives j i) := by
  obtain ⟨hi, ha⟩ := h
  rw [ht] at hi
  by_cases hj : k = j
  · subst hj
    have hlt : k < s.tasks.length := by simpa using (List.getElem?_eq_some_iff.mp hi).1
    rw [List.getElem?_set_self hlt] at hi
    cases hi
    exact .inl ⟨rfl, rfl⟩
  · rw [List.getElem?_set_ne hj] at hi
    exact .inr ⟨fun he => hj he.symm, hi, ha⟩

/-- One task makes a step, and the others stay as they are. -/
theorem Consistent.moves (h : Consistent phase s started) (s' : Process) (hk : s.Lives k task)
    (ht : s'.tasks = s.tasks.set k task') (ha : task'.alive = true)
    (hon : Onward (phase k).claim s.store s'.store) {p : Phase} {new : List String}
    (hfits : TaskFits s'.store.db (started ++ new) task' p)
    (hclaim : ∀ o, p.claim = some o → (phase k).claim = some o ∨ s.store.db.operation? o = none)
    (hnew : ∀ o ∈ new, (phase k).claim = some o ∧ s'.store.db.Spent o)
    (hnodup : (started ++ new).Nodup) (hfree : s.running = none ∨ s.running = some k)
    (hrun : (s'.running = some k ∧ task'.waiting = false) ∨
      (s'.running = none ∧ task'.waiting = true)) :
    Consistent (Function.update phase k p) s' (started ++ new) := by
  have hlives : ∀ {j i}, s'.Lives j i → (j = k ∧ i = task') ∨ (j ≠ k ∧ s.Lives j i) :=
    fun hi => lives_of_set ht hi
  have hlt : k < s.tasks.length := (List.getElem?_eq_some_iff.mp hk.1).1
  -- no other task works on an operation of the task
  have hother : ∀ {j i}, j ≠ k → s.Lives j i → ∀ o, (phase j).claim = some o →
      (phase k).claim ≠ some o := fun hj hi o ho hk' => hj (h.apart hi hk ho hk')
  have hphase : ∀ {j}, j ≠ k → Function.update phase k p j = phase j :=
    fun hj => Function.update_of_ne hj _ _
  have hclaims : ∀ {j i o}, j ≠ k → s.Lives j i → (phase j).claim = some o →
      p.claim ≠ some o := by
    intro j i o hj hi ho hp
    rcases hclaim o hp with hc | hn
    · exact hother hj hi o ho hc
    · have hsome := (h.tasks hi).fits.known ho
      rw [hn] at hsome
      cases hsome
  refine ⟨hon.ledger h.ledger, ?_, ?_, ?_, ?_, ?_, ?_, hnodup⟩
  · intro j i hi
    rcases hlives hi with ⟨rfl, rfl⟩ | ⟨hj, hi⟩
    · rw [Function.update_self]
      exact hfits
    · rw [hphase hj]
      obtain ⟨keeps, fits, waits, once⟩ := h.tasks hi
      refine ⟨keeps, hon.fits _ fits (hother hj hi), waits, fun {o x} hd hm => ?_⟩
      rcases List.mem_append.mp hm with hm | hm
      · exact once hd hm
      · exact absurd (hnew o hm).1 (hother hj hi o (by rw [hd]; rfl))
  · intro j l i q o hj hl hoj hol
    rcases hlives hj with ⟨rfl, rfl⟩ | ⟨hjk, hj⟩ <;>
      rcases hlives hl with ⟨rfl, rfl⟩ | ⟨hlk, hl⟩
    · rfl
    · rw [Function.update_self] at hoj
      rw [hphase hlk] at hol
      exact absurd hoj (hclaims hlk hl hol)
    · rw [Function.update_self] at hol
      rw [hphase hjk] at hoj
      exact absurd hol (hclaims hjk hj hoj)
    · rw [hphase hjk] at hoj
      rw [hphase hlk] at hol
      exact h.apart hj hl hoj hol
  · intro j hj
    rcases hrun with ⟨hr, hw⟩ | ⟨hr, -⟩ <;> rw [hr] at hj <;> cases hj
    exact ⟨task', ⟨by rw [ht, List.getElem?_set_self hlt], ha⟩, hw⟩
  · intro j i hi hj
    rcases hlives hi with ⟨rfl, rfl⟩ | ⟨hjk, hi⟩
    · rcases hrun with ⟨hr, -⟩ | ⟨-, hw⟩
      · exact absurd hr hj
      · exact .inl hw
    · refine h.rests hi fun hr => ?_
      rcases hfree with hn | hn <;> rw [hn] at hr <;> cases hr
      exact hjk rfl
  · intro j i hi
    rw [hon.handle]
    rcases hlives hi with ⟨rfl, rfl⟩ | ⟨-, hi⟩
    · exact h.opened hk
    · exact h.opened hi
  · intro o ho
    rcases List.mem_append.mp ho with ho | ho
    · exact hon.spent o (h.spent o ho)
    · exact (hnew o ho).2

/-! ## The turns -/

/-- The running task has ended, and gives up the event loop. -/
theorem Consistent.ends (h : Consistent phase s started) (hr : s.running = some k)
    (hk : s.Lives k task)
    (he : task.prog.ended.isSome = true) : Consistent phase { s with running := none } started where
  ledger := h.ledger
  tasks := h.tasks
  apart := h.apart
  runs := nofun
  rests := by
    intro j i hi _
    by_cases hj : s.running = some j
    · rw [hr] at hj
      cases hj
      have hi' : some i = some task := (hi.1.symm.trans hk.1 :)
      cases hi'
      exact .inr he
    · exact h.rests hi hj
  opened := h.opened
  spent := h.spent
  nodup := h.nodup

/-- No tool was started for the operation that a running task has dispatched. -/
theorem Consistent.unstarted (h : Consistent phase s started) (hk : s.Lives k task)
    (hw : task.waiting = false) {externalAction : Bool}
    (hd : phase k = .dispatched o externalAction) : o ∉ started := by
  intro hm
  have hwait := (h.tasks hk).once hd hm
  rw [hw] at hwait
  cases hwait

/-- The running task makes a call. -/
theorem Consistent.calls (h : Consistent phase s started) (hr : s.running = some k)
    (hk : s.Lives k task)
    (hw : task.waiting = false) {call : Call} {next : Except Exn call.Result → Flow Exn _}
    (hp : task.prog = .ask (.store call) next) (clock : Clock) :
    Consistent (Function.update phase k ((phase k).next (.store call) (call.answer clock s.store)))
      { s with
        store := (exec ⟨clock, call⟩ s.store).2
        tasks := s.tasks.set k { task with prog := next (call.answer clock s.store) } }
      started := by
  obtain ⟨keeps, fits, -, -⟩ := h.tasks hk
  rw [hp] at keeps
  obtain ⟨hallowed, hnext⟩ := keeps
  have hmay : (phase k).mayCall call := hallowed
  have hcalls := calls_next hmay (call.answer clock s.store)
  obtain ⟨hclose, hopen, -⟩ := mayCall_ne hmay
  have hon : Onward (phase k).claim s.store (exec ⟨clock, call⟩ s.store).2 :=
    .exec hclose hopen fun o hi => Phase.intrudes_claim hmay hi
  have hfits : TaskFits (exec ⟨clock, call⟩ s.store).2.db (started ++ [])
      { task with prog := next (call.answer clock s.store) }
      ((phase k).next (.store call) (call.answer clock s.store)) := by
    refine ⟨hnext _ trivial, hcalls.fits rfl h.ledger fits, fun hw' => ?_, fun {o x} hd hm => ?_⟩
    · rw [hw] at hw'
      cases hw'
    · rw [List.append_nil] at hm
      rw [hd] at hcalls
      rcases hcalls.undispatched rfl with hd' | hns
      · exact absurd hm (h.unstarted hk hw hd')
      · exact absurd (h.spent o hm) hns
  have hs := h.moves { s with
      store := (exec ⟨clock, call⟩ s.store).2
      tasks := s.tasks.set k { task with prog := next (call.answer clock s.store) } }
    hk rfl hk.2 hon hfits (fun o ho => hcalls.claim rfl ho) nofun
    (by simpa using h.nodup) (.inr hr) (.inl ⟨hr, hw⟩)
  rwa [List.append_nil] at hs

/-- The running task asks what it need not wait for. -/
theorem Consistent.asks (h : Consistent phase s started) (hr : s.running = some k)
    (hk : s.Lives k task)
    (hw : task.waiting = false) {a : Ask} {next : a.Answer → Flow Exn _}
    (hp : task.prog = .ask (.ask a) next) (ha : a.awaits = false) (x : a.Answer)
    (locks : List Nat) :
    Consistent (Function.update phase k (phase k))
      { s with tasks := s.tasks.set k { task with prog := next x }, locks := locks } started := by
  obtain ⟨keeps, fits, -, once⟩ := h.tasks hk
  rw [hp] at keeps
  have hnext := keeps.2 x trivial
  change phases.wp (next x) ((phase k).next (.ask a) x) _ at hnext
  rw [next_plain ha] at hnext
  have hfits : TaskFits s.store.db (started ++ []) { task with prog := next x } (phase k) := by
    refine ⟨hnext, fits, fun hw' => ?_, fun {o x} hd hm => ?_⟩
    · rw [hw] at hw'
      cases hw'
    · exact once hd (by simpa using hm)
  have hs := h.moves { s with tasks := s.tasks.set k { task with prog := next x }, locks := locks }
    hk rfl hk.2 (.refl _ _) hfits (fun o ho => .inl ho) nofun (by simpa using h.nodup) (.inr hr)
    (.inl ⟨hr, hw⟩)
  rwa [List.append_nil] at hs

/-- The running task awaits, and gives up the event loop. A tool starts here,
the only time for its operation, which is dispatched. -/
theorem Consistent.awaits (h : Consistent phase s started) (hr : s.running = some k)
    (hk : s.Lives k task)
    (hw : task.waiting = false) {a : Ask} {next : a.Answer → Flow Exn _}
    (hp : task.prog = .ask (.ask a) next) (ha : a.awaits = true) :
    Consistent (Function.update phase k (phase k))
      { s with tasks := s.tasks.set k { task with waiting := true }, running := none }
      (started ++ (a.started k).operation.toList) := by
  obtain ⟨keeps, fits, -, -⟩ := h.tasks hk
  have hallowed : (phase k).mayAsk a := by
    rw [hp] at keeps
    exact keeps.1
  have hnew : ∀ o ∈ (a.started k).operation.toList, o ∉ started ∧ (phase k).claim = some o ∧
      s.store.db.Spent o := by
    intro o ho
    cases a with
    | execute i tool arguments =>
      obtain rfl : o = i := by simpa [Ask.started, Note.operation] using ho
      have hd : phase k = .dispatched o tool.externalAction := hallowed
      rw [hd] at fits
      obtain ⟨row, hrow, hs⟩ := fits.1
      exact ⟨h.unstarted hk hw hd, by rw [hd]; rfl, row, hrow, by rw [hs]; rfl⟩
    | _ => simp [Ask.started, Note.operation] at ho
  have hone : (a.started k).operation.toList.Nodup := by
    cases (a.started k).operation <;> simp
  refine h.moves
    { s with tasks := s.tasks.set k { task with waiting := true }, running := none } hk rfl hk.2
    (.refl _ _) ⟨keeps, fits, fun _ => ⟨a, next, hp, ha⟩, fun _ _ => rfl⟩ (fun o ho => .inl ho)
    (fun o ho => (hnew o ho).2) ?_ (.inr hr) (.inr ⟨rfl, rfl⟩)
  rw [List.nodup_append]
  refine ⟨h.nodup, hone, fun i hi j hj hij => ?_⟩
  subst hij
  exact (hnew i hj).1 hi

/-- An await is answered, and the task has the event loop. -/
theorem Consistent.answers (h : Consistent phase s started) (hr : s.running = none)
    (hk : s.Lives k task)
    {a : Ask} {next : a.Answer → Flow Exn _} (hp : task.prog = .ask (.ask a) next)
    (ha : a.awaits = true) (x : a.Answer) (locks : List Nat) :
    Consistent (Function.update phase k ((phase k).next (.ask a) x))
      { s with
        tasks := s.tasks.set k { task with prog := next x, waiting := false }
        running := some k
        locks := locks } started := by
  obtain ⟨keeps, fits, -, -⟩ := h.tasks hk
  rw [hp] at keeps
  obtain ⟨hallowed, hnext⟩ := keeps
  have hmay : (phase k).mayAsk a := hallowed
  have hfits : TaskFits s.store.db (started ++ []) { task with prog := next x, waiting := false }
      ((phase k).next (.ask a) x) :=
    ⟨hnext x trivial, fits_ask hmay fits x, nofun, fun hd _ => absurd hd (dispatched_ask hmay ha x)⟩
  have hs := h.moves { s with
      tasks := s.tasks.set k { task with prog := next x, waiting := false }
      running := some k
      locks := locks }
    hk rfl hk.2 (.refl _ _) hfits (fun o ho => .inl (claim_ask x ho)) nofun
    (by simpa using h.nodup) (.inl hr) (.inl ⟨rfl, rfl⟩)
  rwa [List.append_nil] at hs

theorem lives_begin {running : Option Nat} {j : Nat} {i : Task}
    (h : Process.Lives { s with tasks := s.tasks ++ [task], running := running } j i) :
    (j = s.tasks.length ∧ i = task) ∨ (j ≠ s.tasks.length ∧ s.Lives j i) := by
  obtain ⟨hi, ha⟩ := h
  rcases Nat.lt_trichotomy j s.tasks.length with hj | hj | hj
  · simp only [List.getElem?_append_left hj] at hi
    exact .inr ⟨hj.ne, hi, ha⟩
  · subst hj
    simp only [List.getElem?_concat_length, Option.some.injEq] at hi
    exact .inl ⟨rfl, hi.symm⟩
  · rw [List.getElem?_eq_none (by simp; omega)] at hi
    cases hi

/-- A task begins, in a process that has the run open. -/
theorem Consistent.begins (h : Consistent phase s started) (hr : s.running = none)
    (hopen : s.store.handle.isSome = true) (rt : Runtime) (runtime : Nat) (job : Job) :
    Consistent (Function.update phase s.tasks.length .idle)
      { s with
        tasks := s.tasks ++ [{ runtime, prog := job.prog rt }]
        running := some s.tasks.length } started := by
  have hphase : ∀ {j}, j ≠ s.tasks.length →
      Function.update phase s.tasks.length .idle j = phase j :=
    fun hj => Function.update_of_ne hj _ _
  refine ⟨h.ledger, fun {j i} hi => ?_, fun {j l i q o} hj hl hoj hol => ?_, fun {j} hj => ?_,
    fun {j i} hi hj => ?_, fun _ => hopen, h.spent, h.nodup⟩
  · rcases lives_begin hi with ⟨rfl, rfl⟩ | ⟨hj, hi⟩
    · rw [Function.update_self]
      exact ⟨wp_job rt job, trivial, nofun, nofun⟩
    · rw [hphase hj]
      exact h.tasks hi
  · rcases lives_begin hj with ⟨rfl, -⟩ | ⟨hjn, hj⟩
    · rw [Function.update_self] at hoj
      cases hoj
    · rcases lives_begin hl with ⟨rfl, -⟩ | ⟨hln, hl⟩
      · rw [Function.update_self] at hol
        cases hol
      · rw [hphase hjn] at hoj
        rw [hphase hln] at hol
        exact h.apart hj hl hoj hol
  · cases hj
    exact ⟨_, ⟨List.getElem?_concat_length, rfl⟩, rfl⟩
  · rcases lives_begin hi with ⟨rfl, -⟩ | ⟨-, hi⟩
    · exact absurd rfl hj
    · exact h.rests hi (by rw [hr]; exact nofun)

theorem lives_dead {store : SQLiteRun} {j : Nat} {i : Task} : ¬ Process.Lives {
    store := store
    tasks := s.tasks.map fun task => { task with alive := false }
    running := none
    locks := [] } j i := by
  rintro ⟨hi, ha⟩
  simp only [List.getElem?_map, Option.map_eq_some_iff] at hi
  obtain ⟨i, -, rfl⟩ := hi
  cases ha

/-- The process dies, and with it all its tasks. -/
theorem Consistent.dies (h : Consistent phase s started) :
    Consistent phase {
      store := { s.store with closed := true }
      tasks := s.tasks.map fun task => { task with alive := false }
      running := none
      locks := [] } started := by
  have hdead := @lives_dead s { s.store with closed := true }
  exact ⟨h.ledger, fun hi => absurd hi hdead, fun hi => absurd hi hdead, nofun,
    fun hi => absurd hi hdead, fun hi => absurd hi hdead, h.spent, h.nodup⟩

/-- A call that no task makes. -/
theorem Consistent.serves (h : Consistent phase s started) {self : SQLiteRun}
    (hon : Onward none s.store self) : Consistent phase { s with store := self } started where
  ledger := hon.ledger h.ledger
  tasks hi :=
    let ⟨keeps, fits, waits, once⟩ := h.tasks hi
    ⟨keeps, hon.fits _ fits fun _ _ => nofun, waits, once⟩
  apart := h.apart
  runs := h.runs
  rests := h.rests
  opened hi := by
    rw [hon.handle]
    exact h.opened hi
  spent o ho := hon.spent o (h.spent o ho)
  nodup := h.nodup

theorem openRun_db (clock : Clock) (self : SQLiteRun) :
    (exec ⟨clock, .openRun⟩ self).2.db = self.db := (read_run rfl).1

theorem openRun_owned (clock : Clock) (h : self.handle.isSome = true) :
    (exec ⟨clock, .openRun⟩ self).2 = self := by
  obtain ⟨handle, hh⟩ := Option.isSome_iff_exists.mp h
  change (SQLiteRun.openRun clock self).2 = self
  rw [SQLiteRun.openRun, hh]

/-- The run is opened, when no task is left. -/
theorem Consistent.opens (h : Consistent phase s started) (clock : Clock) :
    Consistent phase { s with store := (exec ⟨clock, .openRun⟩ s.store).2 } started := by
  by_cases hh : s.store.handle.isSome = true
  · rw [openRun_owned clock hh]
    exact h
  · have hdead : ∀ {j i}, ¬ s.Lives j i := fun hi => hh (h.opened hi)
    refine ⟨?_, fun hi => absurd hi hdead, fun hi => absurd hi hdead, h.runs,
      fun hi => absurd hi hdead, fun hi => absurd hi hdead, fun o ho => ?_, h.nodup⟩
    · rw [openRun_db]
      exact h.ledger
    · rw [openRun_db]
      exact h.spent o ho

/-! ## Every turn -/

/-- `Turned phase s turn note s' phase'`: the turn happened in the state `s`, with
the tasks in `phase`, and led to `s'`, with the tasks in `phase'`. -/
inductive Turned (phase : Nat → Phase) (s : Process) :
    Turn → Note → Process → (Nat → Phase) → Prop where
  | same {turn : Turn} : Turned phase s turn .quiet s phase
  | begins {runtime : Nat} {job : Job} (rt : Runtime) (hr : s.running = none)
      (hopen : s.store.handle.isSome = true) :
      Turned phase s (.begin runtime job) .quiet
        { s with
          tasks := s.tasks ++ [{ runtime, prog := job.prog rt }]
          running := some s.tasks.length }
        (Function.update phase s.tasks.length .idle)
  | ends {k : Nat} {task : Task} {clock : Clock} {reply : (a : Ask) → a.Answer}
      (hr : s.running = some k) (hk : s.Lives k task) (he : task.prog.ended.isSome = true) :
      Turned phase s (.resume clock reply) .quiet { s with running := none } phase
  | calls {k : Nat} {task : Task} {call : Call} {next : Except Exn call.Result → Flow Exn _}
      {clock : Clock} {reply : (a : Ask) → a.Answer} (hr : s.running = some k)
      (hk : s.Lives k task) (hw : task.waiting = false)
      (hp : task.prog = .ask (.store call) next) :
      Turned phase s (.resume clock reply) .quiet
        { s with
          store := (exec ⟨clock, call⟩ s.store).2
          tasks := s.tasks.set k { task with prog := next (call.answer clock s.store) } }
        (Function.update phase k ((phase k).next (.store call) (call.answer clock s.store)))
  | asks {k : Nat} {task : Task} {a : Ask} {next : a.Answer → Flow Exn _}
      {clock : Clock} {reply : (a : Ask) → a.Answer} (hr : s.running = some k)
      (hk : s.Lives k task) (hw : task.waiting = false) (hp : task.prog = .ask (.ask a) next)
      (ha : a.awaits = false) (locks : List Nat) :
      Turned phase s (.resume clock reply) .quiet
        { s with tasks := s.tasks.set k { task with prog := next (reply a) }, locks := locks }
        (Function.update phase k (phase k))
  | awaits {k : Nat} {task : Task} {a : Ask} {next : a.Answer → Flow Exn _}
      {clock : Clock} {reply : (a : Ask) → a.Answer} (hr : s.running = some k)
      (hk : s.Lives k task) (hw : task.waiting = false) (hp : task.prog = .ask (.ask a) next)
      (ha : a.awaits = true) :
      Turned phase s (.resume clock reply) (a.started k)
        { s with tasks := s.tasks.set k { task with waiting := true }, running := none }
        (Function.update phase k (phase k))
  | answers {k : Nat} {task : Task} {a : Ask} {next : a.Answer → Flow Exn _}
      {reply : (a : Ask) → a.Answer} (hr : s.running = none) (hk : s.Lives k task)
      (hw : task.waiting = true) (hp : task.prog = .ask (.ask a) next) (ha : a.awaits = true)
      (locks : List Nat) :
      Turned phase s (.answer k reply) (a.answered k (reply a))
        { s with
          tasks := s.tasks.set k { task with prog := next (reply a), waiting := false }
          running := some k
          locks := locks }
        (Function.update phase k ((phase k).next (.ask a) (reply a)))
  | dies : Turned phase s .die .quiet
      { store := { s.store with closed := true }
        tasks := s.tasks.map fun task => { task with alive := false }
        running := none
        locks := [] } phase
  | opens {clock : Clock} : Turned phase s (.openRun clock) .quiet
      { s with store := (exec ⟨clock, .openRun⟩ s.store).2 } phase
  | finishes {clock : Clock} {text : Dyn String} (hr : s.running = none) :
      Turned phase s (.finish clock text) .quiet
        { s with store := (exec ⟨clock, .finish text⟩ s.store).2 } phase

theorem Consistent.turned (h : Consistent phase s started) (runtimes : Nat → Runtime)
    (turn : Turn) :
    ∃ phase', Turned phase s turn (s.step runtimes turn).1 (s.step runtimes turn).2 phase' := by
  cases turn with
  | begin runtime job =>
    simp only [Process.step]
    split
    · rename_i hb
      exact ⟨_, .begins (runtimes runtime) hb.1 hb.2⟩
    · exact ⟨_, .same⟩
  | resume clock reply =>
    simp only [Process.step]
    split
    · exact ⟨_, .same⟩
    · rename_i k hr
      obtain ⟨task, hk, hw⟩ := h.runs hr
      simp only [hk.1, Process.resume]
      split
      · rename_i r hp
        exact ⟨_, .ends hr hk (by rw [hp]; rfl)⟩
      · rename_i call next hp
        exact ⟨_, .calls hr hk hw hp⟩
      · rename_i a next hp
        split
        · rename_i ha
          exact ⟨_, .awaits hr hk hw hp ha⟩
        · rename_i ha
          exact ⟨_, .asks hr hk hw hp (by simpa using ha) _⟩
  | answer k reply =>
    simp only [Process.step]
    split
    · exact ⟨_, .same⟩
    · rename_i task hk
      split
      · rename_i ha
        obtain ⟨hr, hlive, hw⟩ := ha
        obtain ⟨a, next, hp, ha⟩ := (h.tasks ⟨hk, hlive⟩).waits hw
        simp only [Process.answer, hp]
        split
        · exact ⟨_, .answers hr ⟨hk, hlive⟩ hw hp ha _⟩
        · exact ⟨_, .same⟩
      · exact ⟨_, .same⟩
  | die => exact ⟨_, .dies⟩
  | openRun clock => exact ⟨_, .opens⟩
  | finish clock text =>
    simp only [Process.step]
    split
    · rename_i hr
      exact ⟨_, .finishes hr⟩
    · exact ⟨_, .same⟩

/-- An answer starts no tool. -/
theorem answered_operation (k : Nat) (a : Ask) (x : a.Answer) :
    (a.answered k x).operation = none := by
  unfold Ask.answered
  split <;> rfl

theorem finish_onward (clock : Clock) (text : Dyn String) (self : SQLiteRun) :
    Onward none self (exec ⟨clock, .finish text⟩ self).2 := by
  refine .exec (by simp) (by simp) ?_
  rintro o (⟨u, hu⟩ | ⟨output, hr⟩)
  · cases hu
  · cases hr

/-- Every turn keeps the tasks in phases that the file fits. -/
theorem Turned.consistent {turn : Turn} {note : Note} {phase' : Nat → Phase}
    (ht : Turned phase s turn note s' phase') (h : Consistent phase s started) :
    Consistent phase' s' (started ++ note.operation.toList) := by
  have hquiet : started ++ Note.quiet.operation.toList = started := List.append_nil started
  cases ht with
  | awaits hr hk hw hp ha => exact h.awaits hr hk hw hp ha
  | answers hr hk hw hp ha locks =>
    rw [answered_operation, Option.toList_none, List.append_nil]
    exact h.answers hr hk hp ha _ locks
  | same => rwa [hquiet]
  | begins rt hr hopen =>
    rw [hquiet]
    exact h.begins hr hopen rt _ _
  | ends hr hk he =>
    rw [hquiet]
    exact h.ends hr hk he
  | calls hr hk hw hp =>
    rw [hquiet]
    exact h.calls hr hk hw hp _
  | asks hr hk hw hp ha locks =>
    rw [hquiet]
    exact h.asks hr hk hw hp ha _ locks
  | dies =>
    rw [hquiet]
    exact h.dies
  | opens =>
    rw [hquiet]
    exact h.opens _
  | finishes =>
    rw [hquiet]
    exact h.serves (finish_onward _ _ _)

theorem consistent_initial (hl : Ledger self.db) :
    Consistent (fun _ => .idle) { store := self } [] := by
  have hdead : ∀ {j i}, ¬ Process.Lives { store := self } j i := by
    rintro j i ⟨hi, -⟩
    cases hi
  exact ⟨hl, fun hi => absurd hi hdead, fun hi => absurd hi hdead, nofun, fun hi => absurd hi hdead,
    fun hi => absurd hi hdead, nofun, List.nodup_nil⟩

theorem startedTools_append (notes : List Note) (note : Note) :
    startedTools (notes ++ [note]) = startedTools notes ++ note.operation.toList := by
  rw [startedTools, List.filterMap_append]
  cases hn : note.operation <;> simp [hn, startedTools]

/-- The tasks of every interleaving are each in a phase that the file fits. -/
theorem consistent_after (runtimes : Nat → Runtime) (hl : Ledger self.db) (turns : List Turn) :
    ∃ phase, Consistent phase (Process.after runtimes { store := self } turns)
      (startedTools (Process.log runtimes { store := self } turns)) := by
  refine Machines.run_keeps (Process.step runtimes)
    (fun notes s => ∃ phase, Consistent phase s (startedTools notes)) { store := self }
    ⟨_, consistent_initial hl⟩ (fun notes s turn ⟨phase, h⟩ => ?_) turns
  rw [startedTools_append]
  obtain ⟨phase', ht⟩ := h.turned runtimes turn
  exact ⟨phase', ht.consistent h⟩

/-- What every turn keeps of the tasks and of the notes, every interleaving
keeps. -/
theorem Consistent.keeps (runtimes : Nat → Runtime) (allowed : Turn → Prop)
    (J : (Nat → Phase) → Process → List Note → Prop)
    (hstep : ∀ {phase s started turn note s' phase' notes}, Consistent phase s started →
      Turned phase s turn note s' phase' → allowed turn → J phase s notes →
        J phase' s' (notes ++ [note]))
    (h : Consistent phase s started) (notes : List Note) (hj : J phase s notes) (turns : List Turn)
    (hturns : ∀ turn ∈ turns, allowed turn) :
    ∃ phase' started', Consistent phase' (Process.after runtimes s turns) started' ∧
      J phase' (Process.after runtimes s turns) (notes ++ Process.log runtimes s turns) := by
  induction turns generalizing phase s started notes with
  | nil =>
    rw [Process.log, Machines.log_nil, List.append_nil]
    exact ⟨phase, started, h, hj⟩
  | cons turn turns ih =>
    obtain ⟨phase', ht⟩ := h.turned runtimes turn
    have hj' := hstep h ht (hturns turn (by simp)) hj
    have hrest := ih (ht.consistent h) _ hj' fun t hm => hturns t (by simp [hm])
    rwa [List.append_assoc] at hrest

end FlynnAgents
