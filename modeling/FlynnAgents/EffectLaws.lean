-- The effects of tools. However the tasks of the runtimes interleave, and
-- wherever their process dies, a tool starts at most once for an operation,
-- while its dispatch is in the file, and no two tools run at one time. A
-- dispatch that nobody is left to finish stops every later task.
import FlynnAgents.Interleaving

namespace FlynnAgents

open Relational Programs

variable {runtimes : Nat → Runtime} {handle : Handle} {clock : Clock} {self : SQLiteRun}
  {t t' : Tables} {call : Call} {phase phase' : Nat → Phase} {s s' : Process}
  {started : List String} {turn : Turn} {note : Note} {notes : List Note} {o : String} {α : Type}

/-! ## Starts -/

/-- The task waits for its tool, which works on the operation. -/
def Process.Executing (s : Process) (k : Nat) (o : String) : Prop :=
  ∃ task tool arguments next, s.Lives k task ∧ task.waiting = true ∧
    task.prog = .ask (.ask (.execute o tool arguments)) next

/-- The dispatch of the operation is in the file, with what it reserved. -/
structure Cleared (t : Tables) (o : String) (tool : Tool) : Prop where
  dispatched : t.At o .dispatched
  reserved : t.reservations.Has (o, .tool)
  external : tool.externalAction = true → t.reservations.Has (o, .external)

theorem Turned.executes (ht : Turned phase s turn note s' phase') (h : Consistent phase s started)
    {k : Nat} {tool : Tool} (hn : note = .executes k o tool) : Cleared s.store.db o tool := by
  cases ht with
  | @awaits j task a next clock reply hr hk hw hp ha =>
    obtain ⟨keeps, fits, -, -⟩ := h.tasks hk
    rw [hp] at keeps
    cases a with
    | execute i tool' arguments =>
      cases hn
      have hd : phase k = .dispatched o tool.externalAction := keeps.1
      rw [hd] at fits
      exact ⟨fits.1, fits.2.1, fits.2.2⟩
    | _ => cases hn
  | answers =>
    have ho := congrArg Note.operation hn
    rw [answered_operation] at ho
    cases ho
  | _ => cases hn

theorem Consistent.executing (h : Consistent phase s started) {k : Nat} (he : s.Executing k o) :
    (phase k).claim = some o ∧ s.store.db.At o .dispatched := by
  obtain ⟨task, tool, arguments, next, hk, -, hp⟩ := he
  obtain ⟨keeps, fits, -, -⟩ := h.tasks hk
  rw [hp] at keeps
  have hd : phase k = .dispatched o tool.externalAction := keeps.1
  rw [hd] at fits ⊢
  exact ⟨rfl, fits.1⟩

theorem Good.only (hg : Good t) {i : String} (ho : t.At o .dispatched) {row : OperationRow}
    (hr : t.operation? i = some row) (hl : row.stage.live = true) : i = o := by
  obtain ⟨row', ho', hs⟩ := ho
  exact hg.single hr ho' hl (by rw [hs]; rfl)

/-- Two tools do not run at one time. -/
theorem Consistent.one_tool (h : Consistent phase s started) {j k : Nat} {i : String}
    (hj : s.Executing j i)
    (hk : s.Executing k o) : j = k := by
  obtain ⟨hci, row, hr, hs⟩ := h.executing hj
  obtain ⟨hco, ho⟩ := h.executing hk
  obtain rfl : i = o := h.ledger.good.only ho hr (by rw [hs]; rfl)
  obtain ⟨task, _, _, _, hlj, -⟩ := hj
  obtain ⟨task', _, _, _, hlk, -⟩ := hk
  exact h.apart hlj hlk hci hco

/-! ## A task that finds a dispatch -/

/-- A run in which the operation is dispatched: how it answers the first calls
of a task, which awaits nothing but its lock. The phase is the error that the
task got for it, if any. -/
def blocked (o : String) : Protocol Req Req.Answer (Option Exn) where
  allowed
    | _, .ask a => a.awaits = true → a = .acquire
    | _, _ => True
  possible
    | _, .store .checkReady, x => ∃ e, x = .error e ∧ e.isinstance .unresolvedEffect = true
    | _, .store .outcome, x => x = .ok none
    | _, .store .pending, x => x = .ok (some ⟨o, .dispatched, none⟩)
    | _, _, _ => True
  next
    | _, .ask .acquire, .error e => some e
    | b, _, _ => b

/-- The task raised `UnresolvedEffect`, or what it got for its lock. -/
def Refused (r : Except Exn α) (b : Option Exn) : Prop :=
  ∃ e, r = .error e ∧ (e.isinstance .unresolvedEffect = true ∨ b = some e)

theorem blocked_locked {x : Flow Exn α} (hx : (blocked o).wp x none Refused) :
    (blocked o).wp (locked x) none Refused := by
  unfold locked
  rw [Protocol.wp_bind]
  refine ⟨fun _ => rfl, fun y _ => ?_⟩
  rcases y with e | u
  · exact ⟨e, rfl, .inr rfl⟩
  · change (blocked o).wp (x.finally_ release) none Refused
    unfold Prog.finally_
    rw [Protocol.wp_bind, Protocol.wp_catching]
    refine Protocol.wp_mono hx ?_
    rintro r b ⟨e, rfl, he⟩
    exact ⟨fun ha => (by cases ha), fun _ _ => ⟨e, rfl, he⟩⟩

theorem blocked_job (rt : Runtime) (job : Job) : (blocked o).wp (job.prog rt) none Refused := by
  cases job with
  | step objective grants =>
    have hstep : (blocked o).wp (rt.step objective grants) none Refused := by
      unfold Runtime.step
      refine blocked_locked ⟨fun ha => (by cases ha), fun _ _ => ⟨trivial, fun x hx => ?_⟩⟩
      obtain ⟨e, rfl, he⟩ := hx
      exact ⟨e, rfl, .inl he⟩
    unfold Job.prog
    rw [Protocol.wp_bind]
    refine Protocol.wp_mono hstep ?_
    rintro r b ⟨e, rfl, he⟩
    exact ⟨e, rfl, he⟩
  | recover =>
    unfold Job.prog Runtime.recover
    refine blocked_locked ⟨trivial, fun x hx => ?_⟩
    have hx : x = .ok none := hx
    subst hx
    refine ⟨trivial, fun y hy => ?_⟩
    have hy : y = .ok (some ⟨o, .dispatched, none⟩) := hy
    subst hy
    exact ⟨_, rfl, .inl rfl⟩

/-! ## A dispatch that is left -/

/-- The task may still write the result of the operation. -/
def Phase.Holds (p : Phase) (o : String) : Prop :=
  (∃ externalAction, p = .dispatched o externalAction) ∨ p = .executed o

/-- The operation is dispatched, no task runs, and none waits for its tool. -/
structure Process.Left (s : Process) (o : String) : Prop where
  idle : s.running = none
  dispatched : s.store.db.At o .dispatched
  nobody : ∀ k, ¬ s.Executing k o

/-- What holds from then on, of the tasks from the `n`th on. -/
structure Stranded (o : String) (n : Nat) (phase : Nat → Phase) (s : Process)
    (notes : List Note) : Prop where
  dispatched : s.store.db.At o .dispatched
  isOpen : s.store.db.run.outcome = none
  nobody : ∀ {k task}, s.Lives k task → task.prog.ended = none → ¬ (phase k).Holds o
  refused : ∀ {k task}, n ≤ k → s.Lives k task →
    ∃ b, (blocked o).wp task.prog b Refused ∧ ∀ e, b = some e → Note.refuses k e ∈ notes

theorem Process.Left.stranded (hl : s.Left o) (h : Consistent phase s started)
    (ho : s.store.db.run.outcome = none) : Stranded o s.tasks.length phase s [] where
  dispatched := hl.dispatched
  isOpen := ho
  nobody := by
    intro k task hk he hh
    obtain ⟨keeps, -, waits, -⟩ := h.tasks hk
    rcases h.rests hk (by rw [hl.idle]; exact nofun) with hw | he'
    · obtain ⟨a, next, hp, ha⟩ := waits hw
      rw [hp] at keeps
      have hmay : (phase k).mayAsk a := keeps.1
      cases a with
      | execute i tool arguments =>
        have hd : phase k = .dispatched i tool.externalAction := hmay
        obtain rfl : i = o := by
          rw [hd] at hh
          rcases hh with ⟨x, hx⟩ | hx <;> cases hx
          rfl
        exact hl.nobody k ⟨task, tool, arguments, next, hk, hw, hp⟩
      | acquire | generate _ _ | check _ _ _ _ | evaluate _ =>
        have hd : phase k = _ := hmay
        rw [hd] at hh
        rcases hh with ⟨x, hx⟩ | hx <;> cases hx
      | _ => cases ha
    · rw [he] at he'
      cases he'
  refused := by
    intro k task hn hk
    have hlt := (List.getElem?_eq_some_iff.mp hk.1).1
    omega

/-- `pending` reads the operation that is under way. -/
theorem pending_of_live (hg : Good t) {row : OperationRow} (hr : t.operation? o = some row)
    (hl : row.stage.live = true) :
    t.pending = if row.stage = .returned then do
        let candidate ← row.candidate
        return some ⟨o, row.stage, some candidate⟩
      else .ok (some ⟨o, row.stage, none⟩) := by
  obtain ⟨hm, hid⟩ := Table.lookup_some hr
  unfold Tables.pending
  split
  · rename_i hf
    exact absurd hl (List.find?_eq_none.mp hf row hm)
  · rename_i q hf
    have hq := List.mem_of_find?_eq_some hf
    have hlq : q.stage.live = true := by simpa using List.find?_some hf
    have hqo : q.id = o := hg.single (Table.lookup_of_mem hq) hr hlq hl
    obtain rfl : q = row := Table.eq_of_key hq hm (hqo.trans hid.symm)
    rw [hqo]

theorem pending_of_dispatched (hg : Good t) (ho : t.At o .dispatched) :
    t.pending = .ok (some ⟨o, .dispatched, none⟩) := by
  obtain ⟨row, hr, hs⟩ := ho
  rw [pending_of_live hg hr (by rw [hs]; rfl), hs]
  rfl

theorem Change.outcome (h : Change handle clock t call t') (hc : ∀ text, call ≠ .finish text) :
    t'.run.outcome = t.run.outcome := by
  cases h with
  | finish => exact absurd rfl (hc _)
  | _ => rfl

/-- No task ends the run. -/
theorem call_outcome {p : Phase} (hp : p.mayCall call) (clock : Clock) :
    (exec ⟨clock, call⟩ self).2.db.run.outcome = self.db.run.outcome := by
  rcases exec_cases ⟨clock, call⟩ self with ⟨⟨handle, t', -, hc, he⟩, -⟩ | ⟨he, -⟩
  · rw [he]
    exact hc.outcome (mayCall_ne hp).2.2
  · rw [he]

/-- The answers of a run in which the operation is dispatched. -/
theorem blocked_answer (hg : Good self.db) (ho : self.db.At o .dispatched)
    (hopen : self.db.run.outcome = none) (hh : self.handle.isSome = true) (b : Option Exn)
    (call : Call) (clock : Clock) :
    (blocked o).possible b (.store call) (call.answer clock self) := by
  obtain ⟨handle, hh⟩ := Option.isSome_iff_exists.mp hh
  have hp := pending_of_dispatched hg ho
  cases call with
  | checkReady =>
    have hr : self.db.checkReady = .error
        (unresolvedEffect "Dispatched effect has no result; never repeat it automatically") := by
      rw [Tables.checkReady, if_neg (by simpa using hopen), hp]
      rfl
    exact ⟨_, (congrArg Prod.fst (query_of_live hh)).trans hr, rfl⟩
  | outcome => exact (congrArg Prod.fst (query_of_live hh)).trans (congrArg Except.ok hopen)
  | pending => exact (congrArg Prod.fst (query_of_live hh)).trans hp
  | _ => trivial

theorem Phase.returned_executed {p : Phase} {output : Dyn String}
    (hp : p.mayCall (.returned o output)) : p = .executed o := by
  cases p <;> simp_all [Phase.mayCall, Call.isQuiet]

/-- No call leads a task to an operation that is dispatched. -/
theorem Calls.holds {p p' : Phase} {x : Except Exn call.Result} (h : Calls p call x p')
    (hx : call.answer clock self = x) (ho : self.db.At o .dispatched) (hh : p'.Holds o) :
    p.Holds o := by
  rcases hh with ⟨ext, rfl⟩ | rfl
  · rcases h.undispatched hx with hp | hn
    · exact .inl ⟨ext, hp⟩
    · obtain ⟨row, hr, hs⟩ := ho
      exact absurd ⟨row, hr, by rw [hs]; rfl⟩ hn
  · cases h with
    | stays | fails => exact .inr rfl

theorem holds_ask {p : Phase} {a : Ask} (hp : p.mayAsk a) (ha : a.awaits = true) (x : a.Answer)
    (hh : (p.next (.ask a) x).Holds o) : p.Holds o := by
  rcases hh with ⟨ext, hd⟩ | he
  · exact absurd hd (dispatched_ask hp ha x)
  · cases a with
    | execute i tool arguments =>
      cases hp
      cases he
      exact .inl ⟨_, rfl⟩
    | generate i request =>
      cases hp
      simp only [Phase.next] at he
      split at he <;> cases he
    | acquire | check _ _ _ _ =>
      cases hp
      cases he
    | evaluate c =>
      cases hp
      rcases x with e | e <;> cases he
    | _ => cases ha

theorem blocked_ask (b : Option Exn) (k : Nat) {a : Ask} (x : a.Answer) :
    (blocked o).next b (.ask a) x = b ∨
      ∃ e, (blocked o).next b (.ask a) x = some e ∧ a.answered k x = .refuses k e := by
  cases a with
  | acquire =>
    rcases x with e | u
    · exact .inr ⟨e, rfl, rfl⟩
    · exact .inl rfl
  | _ => exact .inl rfl

/-- The task of a turn keeps what the others keep. -/
theorem Stranded.update {n k : Nat} {p : Phase} (h : Stranded o n phase s notes)
    (s' : Process) (task' : Task) (ht : s'.tasks = s.tasks.set k task') (note : Note)
    (hd : s'.store.db.At o .dispatched)
    (hopen : s'.store.db.run.outcome = none)
    (hold : task'.prog.ended = none → ¬ p.Holds o)
    (hrefused : n ≤ k → ∃ b, (blocked o).wp task'.prog b Refused ∧
      ∀ e, b = some e → Note.refuses k e ∈ notes ++ [note]) :
    Stranded o n (Function.update phase k p) s' (notes ++ [note]) where
  dispatched := hd
  isOpen := hopen
  nobody := by
    intro j i hi he
    rcases lives_of_set ht hi with ⟨rfl, rfl⟩ | ⟨hj, hi⟩
    · rw [Function.update_self]
      exact hold he
    · rw [Function.update_of_ne hj]
      exact h.nobody hi he
  refused := by
    intro j i hn hi
    rcases lives_of_set ht hi with ⟨rfl, rfl⟩ | ⟨hj, hi⟩
    · exact hrefused hn
    · obtain ⟨b, hb, hmem⟩ := h.refused hn hi
      exact ⟨b, hb, fun e he => List.mem_append_left _ (hmem e he)⟩

theorem Stranded.quiet {n : Nat} (h : Stranded o n phase s notes) (note : Note) :
    Stranded o n phase s (notes ++ [note]) where
  dispatched := h.dispatched
  isOpen := h.isOpen
  nobody := h.nobody
  refused hn hi :=
    let ⟨b, hb, hmem⟩ := h.refused hn hi
    ⟨b, hb, fun e he => List.mem_append_left _ (hmem e he)⟩

theorem Stranded.rerun {n : Nat} (h : Stranded o n phase s notes) (running : Option Nat) :
    Stranded o n phase { s with running := running } notes :=
  ⟨h.dispatched, h.isOpen, h.nobody, h.refused⟩

/-- The turn is not the end of the run by the application. -/
def Turn.isFinish : Turn → Bool
  | .finish _ _ => true
  | _ => false

theorem Stranded.turned {n : Nat} (h : Stranded o n phase s notes) (hs : Consistent phase s started)
    (ht : Turned phase s turn note s' phase') (hf : turn.isFinish = false) :
    Stranded o n phase' s' (notes ++ [note]) := by
  cases ht with
  | same => exact h.quiet _
  | begins rt hr hopen =>
    refine ⟨h.dispatched, h.isOpen, fun {j i} hi he => ?_, fun {j i} hn hi => ?_⟩
    · rcases lives_begin hi with ⟨rfl, rfl⟩ | ⟨hj, hi⟩
      · rw [Function.update_self]
        rintro (⟨x, hx⟩ | hx) <;> cases hx
      · rw [Function.update_of_ne hj]
        exact h.nobody hi he
    · rcases lives_begin hi with ⟨rfl, rfl⟩ | ⟨hj, hi⟩
      · exact ⟨none, blocked_job rt _, fun e he => by cases he⟩
      · exact (h.quiet _).refused hn hi
  | ends => exact (h.quiet _).rerun _
  | @calls k task call next clock reply hr hk hw hp =>
    obtain ⟨keeps, -, -, -⟩ := hs.tasks hk
    rw [hp] at keeps
    have hmay : (phase k).mayCall call := keeps.1
    have hnot := h.nobody hk (by rw [hp]; rfl)
    have hcalls := calls_next hmay (call.answer clock s.store)
    have hstill : (exec ⟨clock, call⟩ s.store).2.db.At o .dispatched := by
      rcases exec_cases ⟨clock, call⟩ s.store with ⟨⟨handle, t', -, hc, he⟩, -⟩ | ⟨he, -⟩
      · rw [he]
        rcases hc.stays rfl h.dispatched with ha | ⟨-, output, rfl⟩ | ⟨hn, -⟩
        · exact ha
        · exact absurd (.inr (Phase.returned_executed hmay)) hnot
        · cases hn
      · rw [he]
        exact h.dispatched
    refine h.update _ { task with prog := next (call.answer clock s.store) } rfl _ hstill
      ((call_outcome hmay clock).trans h.isOpen)
      (fun _ hh => hnot (hcalls.holds rfl h.dispatched hh)) fun hn => ?_
    obtain ⟨b, hb, hmem⟩ := h.refused hn hk
    rw [hp] at hb
    have hposs := blocked_answer hs.ledger.good h.dispatched h.isOpen (hs.opened hk) b call clock
    exact ⟨_, hb.2 _ hposs, fun e he => List.mem_append_left _ (hmem e he)⟩
  | @asks k task a next clock reply hr hk hw hp ha locks =>
    have hnot := h.nobody hk (by rw [hp]; rfl)
    refine h.update _ { task with prog := next (reply a) } rfl _ h.dispatched h.isOpen
      (fun _ => hnot) fun hn => ?_
    obtain ⟨b, hb, hmem⟩ := h.refused hn hk
    rw [hp] at hb
    have hnext : (blocked o).next b (.ask a) (reply a) = b := by
      cases a <;> first | (cases ha; done) | rfl
    exact ⟨b, hnext ▸ hb.2 (reply a) trivial, fun e he => List.mem_append_left _ (hmem e he)⟩
  | @awaits k task a next clock reply hr hk hw hp ha =>
    have hnot := h.nobody hk (by rw [hp]; rfl)
    exact h.update _ { task with waiting := true } rfl _ h.dispatched h.isOpen
      (fun _ => hnot) fun hn => let ⟨b, hb, hmem⟩ := (h.quiet _).refused hn hk
        ⟨b, hb, hmem⟩
  | @answers k task a next reply hr hk hw hp ha locks =>
    obtain ⟨keeps, -, -, -⟩ := hs.tasks hk
    rw [hp] at keeps
    have hmay : (phase k).mayAsk a := keeps.1
    have hnot := h.nobody hk (by rw [hp]; rfl)
    refine h.update _ { task with prog := next (reply a), waiting := false } rfl _
      h.dispatched h.isOpen (fun _ hh => hnot (holds_ask hmay ha _ hh)) fun hn => ?_
    obtain ⟨b, hb, hmem⟩ := h.refused hn hk
    rw [hp] at hb
    refine ⟨_, hb.2 (reply a) trivial, fun e he => ?_⟩
    rcases blocked_ask (o := o) b k (reply a) with hsame | ⟨e', hnext, hnote⟩
    · rw [hsame] at he
      exact List.mem_append_left _ (hmem e he)
    · rw [hnext] at he
      cases he
      rw [hnote]
      simp
  | dies =>
    exact ⟨h.dispatched, h.isOpen, fun hi => absurd hi lives_dead, fun _ hi => absurd hi lives_dead⟩
  | @opens clock =>
    have hdb := openRun_db clock s.store
    by_cases hh : s.store.handle.isSome = true
    · rw [openRun_owned clock hh]
      exact h.quiet _
    · exact ⟨hdb ▸ h.dispatched, hdb ▸ h.isOpen, fun hi => absurd (hs.opened hi) hh,
        fun _ hi => absurd (hs.opened hi) hh⟩
  | finishes => cases hf

theorem Turned.outcome (ht : Turned phase s turn note s' phase') (h : Consistent phase s started)
    (hf : turn.isFinish = false) : s'.store.db.run.outcome = s.store.db.run.outcome := by
  cases ht with
  | calls hr hk hw hp =>
    obtain ⟨keeps, -, -, -⟩ := h.tasks hk
    rw [hp] at keeps
    exact call_outcome keeps.1 _
  | opens => rw [openRun_db]
  | finishes => cases hf
  | _ => rfl

/-! ## Every interleaving -/

/-- A later task that has not ended and does not run waits for its lock. -/
theorem Stranded.waits {n k : Nat} {task : Task} (h : Stranded o n phase s notes)
    (hs : Consistent phase s started) (hn : n ≤ k) (hk : s.Lives k task) (hr : s.running ≠ some k)
    (he : task.prog.ended = none) : ∃ next, task.prog = .ask (.ask .acquire) next := by
  rcases hs.rests hk hr with hw | he'
  · obtain ⟨a, next, hp, ha⟩ := (hs.tasks hk).waits hw
    obtain ⟨b, hb, -⟩ := h.refused hn hk
    rw [hp] at hb
    obtain rfl : a = .acquire := hb.1 ha
    exact ⟨next, hp⟩
  · rw [he] at he'
    cases he'

/-- A later task that has ended has raised. -/
theorem Stranded.raised {n k : Nat} {task : Task} (h : Stranded o n phase s notes) (hn : n ≤ k)
    (hk : s.Lives k task) {r : Except Exn (Option StepResult)} (hr : task.prog.ended = some r) :
    ∃ e, r = .error e ∧ (e.isinstance .unresolvedEffect = true ∨ Note.refuses k e ∈ notes) := by
  obtain ⟨b, hb, hmem⟩ := h.refused hn hk
  rcases hp : task.prog with r' | ⟨q, next⟩
  · rw [hp] at hb hr
    cases hr
    obtain ⟨e, rfl, he⟩ := hb
    exact ⟨e, rfl, he.imp_right (hmem e)⟩
  · rw [hp] at hr
    cases hr

/-- The tasks share a run that was just created. -/
theorem ledger_created {now : ℚ} {runId state : Dyn String} {limits : RunLimits}
    {observation : Option (Dyn String)}
    (h : SQLiteRun.create now clock runId state limits observation = .ok self) :
    Ledger self.db ∧ self.db.run.outcome = none := by
  obtain ⟨id, text, seen, hdb, -⟩ := create_ok h
  rw [hdb]
  exact ⟨ledger_fresh _, rfl⟩

/-- For any number of runtimes on one run, every interleaving of their steps
and recoveries at the awaits, every answer or raise there, and deaths of the
process anywhere: a tool starts at most once for an operation, and only while
its dispatch and its reservations are in the file; at most one operation is
under way and at most one tool runs. An operation that is left dispatched
stays so, and every later step or recovery raises `UnresolvedEffect` as soon
as it has its lock, unless it was cancelled while it waited for it. -/
theorem a_tool_runs_once_and_alone {now : ℚ} {runId state : Dyn String} {limits : RunLimits}
    {observation : Option (Dyn String)}
    (h : SQLiteRun.create now clock runId state limits observation = .ok self)
    (runtimes : Nat → Runtime) (turns : List Turn) :
    (startedTools (Process.log runtimes { store := self } turns)).Nodup ∧
    (∀ before turn after k o tool, turns = before ++ turn :: after →
      ((Process.after runtimes { store := self } before).step runtimes turn).1 =
          .executes k o tool →
        Cleared (Process.after runtimes { store := self } before).store.db o tool) ∧
    (∀ p ∈ (Process.after runtimes { store := self } turns).store.db.operations.rows,
      ∀ q ∈ (Process.after runtimes { store := self } turns).store.db.operations.rows,
        p.stage.live = true → q.stage.live = true → p = q) ∧
    (∀ j k i o, (Process.after runtimes { store := self } turns).Executing j i →
      (Process.after runtimes { store := self } turns).Executing k o → j = k) ∧
    (∀ o, (Process.after runtimes { store := self } turns).Left o →
      ∀ more, (∀ turn ∈ turns ++ more, turn.isFinish = false) →
        (Process.after runtimes { store := self } (turns ++ more)).store.db.At o .dispatched ∧
        ∀ k task, (Process.after runtimes { store := self } turns).tasks.length ≤ k →
          (Process.after runtimes { store := self } (turns ++ more)).Lives k task →
          (∀ r, task.prog.ended = some r → ∃ e, r = .error e ∧
            (e.isinstance .unresolvedEffect = true ∨ Note.refuses k e ∈
              Process.log runtimes (Process.after runtimes { store := self } turns) more)) ∧
          ((Process.after runtimes { store := self } (turns ++ more)).running ≠ some k →
            task.prog.ended = none → ∃ next, task.prog = .ask (.ask .acquire) next)) := by
  obtain ⟨hl, hopen⟩ := ledger_created h
  obtain ⟨phase, hs⟩ := consistent_after runtimes hl turns
  refine ⟨hs.nodup, fun before turn after k o tool _ hn => ?_, fun p hp q hq hlp hlq => ?_,
    fun j k i o => hs.one_tool, fun o hleft more hf => ?_⟩
  · obtain ⟨phase, hs⟩ := consistent_after runtimes hl before
    obtain ⟨phase', ht⟩ := hs.turned runtimes turn
    exact ht.executes hs hn
  · exact Table.eq_of_key hp hq
      (hs.ledger.good.single (Table.lookup_of_mem hp) (Table.lookup_of_mem hq) hlp hlq)
  · obtain ⟨_, _, -, ho⟩ :=
      (consistent_initial hl).keeps runtimes (fun turn => turn.isFinish = false)
      (fun _ s _ => s.store.db.run.outcome = none)
      (fun hs ht hf ho => (ht.outcome hs hf).trans ho) [] hopen turns
      fun turn hm => hf turn (List.mem_append_left _ hm)
    obtain ⟨_, _, hs', hstr⟩ := hs.keeps runtimes (fun turn => turn.isFinish = false)
      (Stranded o _) (fun hs ht hf hstr => hstr.turned hs ht hf) [] (hleft.stranded hs ho) more
      fun turn hm => hf turn (List.mem_append_right _ hm)
    simp only [Process.after, Machines.after_append] at hs' hstr ⊢
    exact ⟨hstr.dispatched, fun k task hn hk =>
      ⟨fun r hr => hstr.raised hn hk hr, fun hr he => hstr.waits hs' hn hk hr he⟩⟩

/-- A step up to its tool. -/
theorem a_tool_runs_once_and_alone_sample :
    startedTools (Process.log (fun _ => sampleRuntime) { store := sampleStore }
        (sampleTurns 21)) = ["op"] ∧
      (startedTools (Process.log (fun _ => sampleRuntime) { store := sampleStore }
        (sampleTurns 21))).Nodup :=
  ⟨by decide +kernel,
    (a_tool_runs_once_and_alone create_sampleStore (fun _ => sampleRuntime) (sampleTurns 21)).1⟩

end FlynnAgents
