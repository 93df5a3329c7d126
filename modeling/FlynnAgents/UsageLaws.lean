-- What becomes of a usage report. The adapter hands it over after an await,
-- and the store keeps it if the run is still open then and its operation
-- still in inference. Else it is lost, and no later call brings it back.
import FlynnAgents.EffectLaws

namespace FlynnAgents

open Relational Programs

variable {runtimes : Nat → Runtime} {handle : Handle} {clock : Clock} {self : SQLiteRun}
  {t : Tables} {call : Call} {phase phase' : Nat → Phase} {s s' : Process}
  {started : List String} {turn : Turn} {note : Note} {notes : List Note} {o : String} {k : Nat}
  {task : Task} {u : InferenceUsage}

/-- The store takes a report of the operation. -/
def Tables.Awaits (t : Tables) (o : String) : Prop := t.run.outcome = none ∧ t.At o .inference

/-- The task may still report the usage of the operation. -/
def Phase.Reports (p : Phase) (o : String) : Prop := p = .started o ∨ ∃ u, p = .reporting o u

/-- A report is kept exactly when the store takes it. -/
theorem report_kept_iff (hh : self.handle.isSome = true) (hn : self.db.report o = none) :
    (exec ⟨clock, .recordUsage o (.typed u)⟩ self).2.db.report o = some u.toUsageFields ↔
      self.db.Awaits o := by
  constructor
  · intro hr
    rcases exec_cases ⟨clock, .recordUsage o (.typed u)⟩ self with
      ⟨⟨handle, t', -, hc, -⟩, -⟩ | ⟨he, -⟩
    · cases hc with
      | recordUsage isOpen operation stage => exact ⟨isOpen, _, operation, stage⟩
    · rw [he, hn] at hr
      cases hr
  · rintro ⟨hopen, row, ho, hs⟩
    obtain ⟨handle, hh⟩ := Option.isSome_iff_exists.mp hh
    have hfree : ¬ self.db.inferenceUsage.Has o := by
      rw [← Table.lookup_eq_none_iff]
      exact Option.map_eq_none_iff.mp hn
    obtain ⟨rows, hrows⟩ := Table.insert_of_fresh
      (r := (⟨o, u.toUsageFields⟩ : UsageRow)) hfree
    have hcommits : Commits clock (.recordUsage o (.typed u)) self
        { self with db := { self.db with inferenceUsage := rows } } :=
      ⟨handle, _, hh, .recordUsage hopen ho hs hrows, rfl⟩
    rw [exec_of_commits (i := ⟨clock, .recordUsage o (.typed u)⟩) hcommits]
    change (rows.lookup o).map UsageRow.payload = _
    rw [Table.lookup_insert hrows, if_pos rfl]
    rfl

/-- Where the report stands after it was answered, in a state of the store
that would take it or not: the task is about to hand it over, or has died, or
the report is decided. -/
inductive Reported (k : Nat) (o : String) (u : InferenceUsage) (taken : Prop)
    (phase : Nat → Phase) (s : Process) : Prop where
  | pending {task : Task} (hk : s.Lives k task) (hr : s.running = some k)
      (hp : phase k = .reporting o u) (ht : s.store.db.Awaits o ↔ taken)
  | died (hlt : k < s.tasks.length) (hk : ∀ task, ¬ s.Lives k task)
  | decided (hd : s.store.db.report o = some u.toUsageFields ↔ taken)
      (hknown : (s.store.db.operation? o).isSome = true)
      (hn : ∀ {j task}, s.Lives j task → ¬ (phase j).Reports o)

/-- A task with a report at hand asks nothing. -/
theorem reporting_asks {a : Ask} : ¬ (Phase.reporting o u).mayAsk a := by
  intro h
  cases a <;> first | exact h o u rfl | cases h

theorem Consistent.same {task' : Task} (hk : s.Lives k task) (hk' : s.Lives k task') :
    task' = task := by
  have he : some task' = some task := hk'.1.symm.trans hk.1
  cases he
  rfl

theorem Phase.Reports.claim {p : Phase} (h : p.Reports o) : p.claim = some o := by
  rcases h with rfl | ⟨u, rfl⟩ <;> rfl

/-- The task hands its report over as its next step. -/
theorem reported_pending {taken : Prop} (hs : Consistent phase s started)
    (ht : Turned phase s turn note s' phase') (hk : s.Lives k task) (hr : s.running = some k)
    (hp : phase k = .reporting o u) (htaken : s.store.db.Awaits o ↔ taken) :
    Reported k o u taken phase' s' := by
  obtain ⟨keeps, fits, -, -⟩ := hs.tasks hk
  rw [hp] at keeps fits
  cases ht with
  | same => exact .pending hk hr hp htaken
  | begins _ hn | answers hn | finishes hn =>
    rw [hr] at hn
    cases hn
  | ends hr' hk' he =>
    rw [hr] at hr'
    cases hr'
    obtain rfl := Consistent.same hk hk'
    rcases hprog : Task.prog _ with r | ⟨q, next⟩
    · rw [hprog] at keeps
      exact absurd rfl (keeps.1 o u)
    · rw [hprog] at he
      cases he
  | calls hr' hk' hw hprog =>
    rw [hr] at hr'
    cases hr'
    obtain rfl := Consistent.same hk hk'
    rw [hprog] at keeps
    obtain rfl : _ = Call.recordUsage o (.typed u) := keeps.1
    refine .decided ((report_kept_iff (hs.opened hk) fits.2).trans htaken)
      (started_exec _ fits.1) fun {j i} hj hrep => ?_
    rcases lives_of_set rfl hj with ⟨rfl, rfl⟩ | ⟨hne, hj⟩
    · rw [Function.update_self, hp] at hrep
      rcases hrep with hi | ⟨v, hi⟩ <;> cases hi
    · rw [Function.update_of_ne hne] at hrep
      exact hne (hs.apart hj hk hrep.claim (by rw [hp]; rfl))
  | asks hr' hk' hw hprog ha locks | awaits hr' hk' hw hprog ha =>
    rw [hr] at hr'
    cases hr'
    obtain rfl := Consistent.same hk hk'
    rw [hprog] at keeps
    exact absurd keeps.1 reporting_asks
  | dies =>
    exact .died (by simpa using (List.getElem?_eq_some_iff.mp hk.1).1) fun _ => lives_dead
  | @opens clock =>
    rw [openRun_owned clock (hs.opened hk)]
    exact .pending hk hr hp htaken

/-- A task that died stays dead. -/
theorem reported_died {taken : Prop} (ht : Turned phase s turn note s' phase')
    (hlt : k < s.tasks.length) (hk : ∀ task, ¬ s.Lives k task) :
    Reported k o u taken phase' s' := by
  cases ht with
  | same | ends | opens | finishes => exact .died hlt hk
  | begins =>
    refine .died (by simp; omega) fun task h => ?_
    rcases lives_begin h with ⟨rfl, -⟩ | ⟨-, h⟩
    · omega
    · exact hk task h
  | calls hr hj | asks hr hj | awaits hr hj | answers hr hj =>
    refine .died (by simpa using hlt) fun task h => ?_
    rcases lives_of_set rfl h with ⟨rfl, -⟩ | ⟨-, h⟩
    · exact hk _ hj
    · exact hk task h
  | dies => exact .died (by simpa using hlt) fun _ => lives_dead

theorem Calls.stillReports {p p' : Phase} {x : Except Exn call.Result} (h : Calls p call x p')
    (hx : call.answer clock self = x) (ho : (self.db.operation? o).isSome = true)
    (hr : p'.Reports o) : p.Reports o := by
  cases h with
  | stays | fails => exact hr
  | starts =>
    rcases hr with he | ⟨v, he⟩ <;> cases he
    obtain ⟨handle, t', -, hc, -⟩ := commits_of_ok rfl (ok_of_answer hx)
    rw [hc.fresh] at ho
    cases ho
  | reports | dispatches | returns | finishes => rcases hr with he | ⟨v, he⟩ <;> cases he

theorem ask_stillReports {p : Phase} {a : Ask} (x : a.Answer) (hr : (p.next (.ask a) x).Reports o) :
    p.Reports o := by
  cases a with
  | generate i request =>
    cases p with
    | started j =>
      have hc := claim_ask x hr.claim
      cases hc
      exact .inl rfl
    | _ => exact hr
  | evaluate c =>
    cases p with
    | returned c' => rcases x with e | e <;> rcases hr with he | ⟨v, he⟩ <;> cases he
    | _ => exact hr
  | execute i tool arguments =>
    cases p with
    | dispatched i x => rcases hr with he | ⟨v, he⟩ <;> cases he
    | _ => exact hr
  | _ => cases p <;> exact hr

theorem Phase.recordUsage_reporting {p : Phase} (hp : p.mayCall (.recordUsage o (.typed u))) :
    p = .reporting o u := by
  cases p <;> simp_all [Phase.mayCall, Call.isQuiet]

/-- Only a report of the operation changes what is reported of it. -/
theorem exec_report (i : Timed) (hc : ∀ u, i.call ≠ .recordUsage o (.typed u)) :
    (exec i self).2.db.report o = self.db.report o := by
  rcases exec_cases i self with ⟨⟨handle, t', -, h, he⟩, -⟩ | ⟨he, -⟩
  · rw [he]
    rcases h.report_cases o with hr | ⟨u, hu, -⟩
    · exact hr
    · exact absurd hu (hc u)
  · rw [he]

/-- Nobody changes a report that is decided. -/
theorem reported_decided {taken : Prop} (hs : Consistent phase s started)
    (ht : Turned phase s turn note s' phase')
    (hd : s.store.db.report o = some u.toUsageFields ↔ taken)
    (hknown : (s.store.db.operation? o).isSome = true)
    (hn : ∀ {j task}, s.Lives j task → ¬ (phase j).Reports o) : Reported k o u taken phase' s' := by
  cases ht with
  | same | ends => exact .decided hd hknown hn
  | begins =>
    refine .decided hd hknown fun {j i} hj hrep => ?_
    rcases lives_begin hj with ⟨rfl, -⟩ | ⟨hne, hj⟩
    · rw [Function.update_self] at hrep
      rcases hrep with he | ⟨v, he⟩ <;> cases he
    · rw [Function.update_of_ne hne] at hrep
      exact hn hj hrep
  | @calls k' task call next clock reply hr hk hw hprog =>
    obtain ⟨keeps, -, -, -⟩ := hs.tasks hk
    rw [hprog] at keeps
    have hmay : (phase k').mayCall call := keeps.1
    have hcalls := calls_next hmay (call.answer clock s.store)
    have hother : ∀ v, call ≠ .recordUsage o (.typed v) := by
      rintro v rfl
      exact hn hk (.inr ⟨v, Phase.recordUsage_reporting hmay⟩)
    refine .decided ((exec_report ⟨clock, call⟩ hother).symm ▸ hd) (started_exec _ hknown)
      fun {j i} hj hrep => ?_
    rcases lives_of_set rfl hj with ⟨rfl, -⟩ | ⟨hne, hj⟩
    · rw [Function.update_self] at hrep
      exact hn hk (hcalls.stillReports rfl hknown hrep)
    · rw [Function.update_of_ne hne] at hrep
      exact hn hj hrep
  | asks hr hk | awaits hr hk | answers hr hk =>
    refine .decided hd hknown fun {j i} hj hrep => ?_
    rcases lives_of_set rfl hj with ⟨rfl, -⟩ | ⟨hne, hj⟩
    · rw [Function.update_self] at hrep
      first | exact hn hk hrep | exact hn hk (ask_stillReports _ hrep)
    · rw [Function.update_of_ne hne] at hrep
      exact hn hj hrep
  | dies => exact .decided hd hknown fun hj => absurd hj lives_dead
  | opens =>
    rw [← openRun_db] at hd hknown
    exact .decided hd hknown hn
  | finishes hr =>
    exact .decided ((exec_report ⟨_, .finish _⟩ (by simp)).symm ▸ hd) (started_exec _ hknown) hn

theorem Reported.turned {taken : Prop} (h : Reported k o u taken phase s)
    (hs : Consistent phase s started) (ht : Turned phase s turn note s' phase') :
    Reported k o u taken phase' s' := by
  cases h with
  | pending hk hr hp htaken => exact reported_pending hs ht hk hr hp htaken
  | died hlt hk => exact reported_died ht hlt hk
  | decided hd hknown hn => exact reported_decided hs ht hd hknown hn

/-! ## Every interleaving -/

/-- The task waits for the adapter, and nobody has the event loop. -/
def Process.Inferring (s : Process) (k : Nat) (o : String) (request : InferenceRequest) : Prop :=
  s.running = none ∧ ∃ task next, s.Lives k task ∧ task.waiting = true ∧
    task.prog = .ask (.ask (.generate o request)) next

/-- The task has returned or raised. -/
def Process.Ended (s : Process) (k : Nat) : Prop :=
  ∃ task, s.Lives k task ∧ task.prog.ended.isSome = true

instance (s : Process) (k : Nat) : Decidable (s.Ended k) :=
  decidable_of_iff ((s.tasks[k]?).any (fun task => task.alive && task.prog.ended.isSome) = true) (by
    simp [Process.Ended, Process.Lives, Option.any_eq_true, and_assoc])

/-- The adapter answers with a report, and the task is about to hand it over. -/
theorem Consistent.reported (h : Consistent phase s started) {request : InferenceRequest}
    (hi : s.Inferring k o request) (runtimes : Nat → Runtime) {reply : (a : Ask) → a.Answer}
    (hu : reportOf (reply (.generate o request)) = some u) :
    ∃ phase', Consistent phase' (s.step runtimes (.answer k reply)).2 started ∧
      Reported k o u (s.store.db.Awaits o) phase' (s.step runtimes (.answer k reply)).2 := by
  obtain ⟨hr, task, next, hk, hw, hp⟩ := hi
  have hd : phase k = .started o := by
    have keeps := (h.tasks hk).keeps
    rw [hp] at keeps
    exact keeps.1
  have hstep : (s.step runtimes (.answer k reply)).2 = { s with
      tasks := s.tasks.set k
        { task with prog := next (reply (.generate o request)), waiting := false }
      running := some k } := by
    simp only [Process.step, hk.1, hr, hk.2, hw, and_self, if_true, Process.answer, hp, Ask.given,
      Ask.locks]
  have hs := h.answers hr hk hp rfl (reply (.generate o request)) s.locks
  have hlt : k < s.tasks.length := (List.getElem?_eq_some_iff.mp hk.1).1
  rw [hstep]
  refine ⟨_, hs, .pending ⟨List.getElem?_set_self hlt, hk.2⟩ rfl ?_ Iff.rfl⟩
  rw [Function.update_self, hd]
  simp only [Phase.next, hu]

theorem Reported.ended {taken : Prop} (h : Reported k o u taken phase s)
    (hs : Consistent phase s started) (he : s.Ended k) :
    s.store.db.report o = some u.toUsageFields ↔ taken := by
  obtain ⟨task, hk, he⟩ := he
  cases h with
  | pending hk' hr hp ht =>
    obtain ⟨keeps, -, -, -⟩ := hs.tasks hk
    rcases hprog : task.prog with r | ⟨q, next⟩
    · rw [hprog, hp] at keeps
      exact absurd rfl (keeps.1 o u)
    · rw [hprog] at he
      cases he
  | died _ hn => exact absurd hk (hn task)
  | decided hd => exact hd

/-- A step up to the moment that its adapter answers. -/
def sampleInference : List Turn := sampleTurns 11 ++ [.resume ⟨0, 0⟩ sampleReply]

/-- The request of the step. -/
def sampleAsked : InferenceRequest where
  objective := "goal"
  base := ⟨0, "draft"⟩
  allowedTools := ["act"]
  tools := sampleRuntime.tools.specifications ["act"]

/-- The application ends the run while the adapter works: its report is lost. -/
theorem a_report_of_an_ended_run_is_lost :
    ¬ ∀ (now : ℚ) (clock : Clock) (runId state : Dyn String) (limits : RunLimits)
      (observation : Option (Dyn String)) (self : SQLiteRun),
      SQLiteRun.create now clock runId state limits observation = .ok self →
      ∀ (runtimes : Nat → Runtime) (turns : List Turn) (k : Nat) (o : String)
        (request : InferenceRequest) (reply : (a : Ask) → a.Answer) (u : InferenceUsage)
        (more : List Turn),
        (Process.after runtimes { store := self } turns).Inferring k o request →
        reportOf (reply (.generate o request)) = some u →
        (Process.after runtimes { store := self } (turns ++ .answer k reply :: more)).Ended k →
        (Process.after runtimes { store := self }
          (turns ++ .answer k reply :: more)).store.db.report o = some u.toUsageFields := by
  intro h
  have hi : (Process.after (fun _ => sampleRuntime) { store := sampleStore }
      (sampleInference ++ [.finish ⟨0, 0⟩ (.typed "done")])).Inferring 0 "op" sampleAsked :=
    ⟨rfl, _, _, ⟨rfl, rfl⟩, rfl, rfl⟩
  have hu : reportOf (sampleReply (.generate "op" sampleAsked)) = some .scripted := rfl
  have he : (Process.after (fun _ => sampleRuntime) { store := sampleStore }
      ((sampleInference ++ [.finish ⟨0, 0⟩ (.typed "done")]) ++
        .answer 0 sampleReply :: sampleRounds 10)).Ended 0 := by decide +kernel
  have hlost := h _ _ _ _ _ _ _ create_sampleStore _ _ _ _ _ sampleReply _ _ hi hu he
  revert hlost
  decide +kernel

/-- In every interleaving, the report that an adapter hands over is in the file
once its task has ended exactly when the run was open at that moment and the
operation still in inference. -/
theorem a_report_is_kept_iff_the_store_awaits_it {now : ℚ} {runId state : Dyn String}
    {limits : RunLimits} {observation : Option (Dyn String)}
    (h : SQLiteRun.create now clock runId state limits observation = .ok self)
    (runtimes : Nat → Runtime) (turns : List Turn) {request : InferenceRequest}
    (hi : (Process.after runtimes { store := self } turns).Inferring k o request)
    (reply : (a : Ask) → a.Answer) (hu : reportOf (reply (.generate o request)) = some u)
    (more : List Turn)
    (he : (Process.after runtimes { store := self } (turns ++ .answer k reply :: more)).Ended k) :
    (Process.after runtimes { store := self }
        (turns ++ .answer k reply :: more)).store.db.report o = some u.toUsageFields ↔
      (Process.after runtimes { store := self } turns).store.db.Awaits o := by
  obtain ⟨phase, hs⟩ := consistent_after runtimes (ledger_created h).1 turns
  obtain ⟨phase₁, hs₁, hreported⟩ := hs.reported hi runtimes hu
  obtain ⟨phase₂, started₂, hs₂, hlast⟩ := hs₁.keeps runtimes (fun _ => True)
    (fun phase s _ => Reported k o u
      ((Process.after runtimes { store := self } turns).store.db.Awaits o) phase s)
    (fun hs ht _ hj => hj.turned hs ht) [] hreported more fun _ _ => trivial
  have hafter : Process.after runtimes { store := self } (turns ++ .answer k reply :: more) =
      Process.after runtimes
        ((Process.after runtimes { store := self } turns).step runtimes
          (.answer k reply)).2 more := by
    rw [Process.after, Machines.after_append]
    rfl
  rw [hafter] at he ⊢
  exact hlast.ended hs₂ he

/-- A step whose run stays open keeps its report. -/
theorem a_report_is_kept_iff_the_store_awaits_it_sample :
    (Process.after (fun _ => sampleRuntime) { store := sampleStore }
        (sampleInference ++ .answer 0 sampleReply :: sampleRounds 20)).store.db.report "op" =
        some InferenceUsage.scripted.toUsageFields ↔
      (Process.after (fun _ => sampleRuntime) { store := sampleStore }
        sampleInference).store.db.Awaits "op" := by
  have hi : (Process.after (fun _ => sampleRuntime) { store := sampleStore }
      sampleInference).Inferring 0 "op" sampleAsked := ⟨rfl, _, _, ⟨rfl, rfl⟩, rfl, rfl⟩
  have hu : reportOf (sampleReply (.generate "op" sampleAsked)) = some .scripted := rfl
  have he : (Process.after (fun _ => sampleRuntime) { store := sampleStore }
      (sampleInference ++ .answer 0 sampleReply :: sampleRounds 20)).Ended 0 := by decide +kernel
  have hkept := a_report_is_kept_iff_the_store_awaits_it create_sampleStore
    (fun _ => sampleRuntime) sampleInference hi sampleReply hu (sampleRounds 20)
  exact hkept he

end FlynnAgents
