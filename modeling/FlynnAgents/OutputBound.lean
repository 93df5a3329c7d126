-- The cap on output from end to end: of all the tasks on a run, through crashes and
-- recoveries, each request that is sent allows what was reserved for it, and what the
-- provider generates stays within the limit of the run.
import FlynnAgents.OutputPlan
import FlynnAgents.Interleaving
import FlynnAgents.OutputCap

namespace FlynnAgents

open Relational Programs

variable {a : DeepSeekAdapter} {loads : Loads} {truth : String → Int} {limit : Int}
  {sp sp' : Nat → Speech} {t t' : Tables} {self : SQLiteRun} {k : Nat} {o : String}
  {request : InferenceRequest}

/-! ## The books -/

/-- What the file says of what the tasks said: every start has its reservation and its owner,
and every report is an answer of the adapter. -/
structure Booked (a : DeepSeekAdapter) (loads : Loads) (truth : String → Int) (limit : Int)
    (sp : Nat → Speech) (t : Tables) : Prop where
  capped : Capped limit t
  starts : ∀ {k o request output}, StartedWith (sp k) o request output →
    (t.operation? o).isSome = true ∧ ∃ reservation : OutputReservation,
      output = some (.typed reservation) ∧ reservation.kind = .model ∧
      reservation.tokens ≤ a.maxTokens ∧ request.maxOutputTokens = some reservation.tokens ∧
      (⟨o, reservation.toReservationFields⟩ : OutputReservationRow) ∈ t.outputReservations.rows
  owner : ∀ {k k' o r r' output output'}, StartedWith (sp k) o r output →
    StartedWith (sp k') o r' output' → k = k' ∧ r = r'
  rows : ∀ row ∈ t.outputReservations.rows, ∃ k request output,
    StartedWith (sp k) row.operationId request output
  answered : ∀ {k o request x}, ⟨.ask (.generate o request), x⟩ ∈ sp k →
    a.Answers loads truth o request x ∧ ∃ output, StartedWith (sp k) o request output
  reports : ∀ u ∈ t.inferenceUsage.rows, ∃ k request x usage,
    ⟨.ask (.generate u.operationId request), x⟩ ∈ sp k ∧ reportOf x = some usage ∧
      u.payload = usage.toUsageFields

theorem booked_fresh (hc : Capped limit t) (ho : t.outputReservations.rows = [])
    (hu : t.inferenceUsage.rows = []) : Booked a loads truth limit (fun _ => []) t where
  capped := hc
  starts h := by
    obtain ⟨_, hm⟩ := h
    cases hm
  owner h := by
    obtain ⟨_, hm⟩ := h
    cases hm
  rows row hr := by
    rw [ho] at hr
    cases hr
  answered hm := by cases hm
  reports u hm := by
    rw [hu] at hm
    cases hm

/-- One task has said one thing more. -/
structure SaysMore (sp sp' : Nat → Speech) (k : Nat) (e : Said Req Req.Answer) : Prop where
  here : sp' k = sp k ++ [e]
  others : ∀ j, j ≠ k → sp' j = sp j

theorem SaysMore.mem {e : Said Req Req.Answer} (h : SaysMore sp sp' k e) {j : Nat}
    {d : Said Req Req.Answer} : d ∈ sp' j ↔ d ∈ sp j ∨ j = k ∧ d = e := by
  by_cases hj : j = k
  · rw [hj, h.here]
    simp
  · rw [h.others j hj]
    simp [hj]

theorem SaysMore.started {e : Said Req Req.Answer} (h : SaysMore sp sp' k e) {j : Nat}
    {output : Option (Dyn OutputReservation)} (hs : StartedWith (sp j) o request output) :
    StartedWith (sp' j) o request output := by
  obtain ⟨guards, hm⟩ := hs
  exact ⟨guards, h.mem.mpr (.inl hm)⟩

/-- What others do to the file leaves the books as they are. -/
theorem Booked.unbooked (hb : Booked a loads truth limit sp t) (hc : Capped limit t')
    (hops : ∀ o, (t.operation? o).isSome = true → (t'.operation? o).isSome = true)
    (hout : t'.outputReservations = t.outputReservations)
    (husage : t'.inferenceUsage = t.inferenceUsage) : Booked a loads truth limit sp t' where
  capped := hc
  starts hs := by
    obtain ⟨ho, hr⟩ := hb.starts hs
    exact ⟨hops _ ho, hout ▸ hr⟩
  owner := hb.owner
  rows := hout ▸ hb.rows
  answered := hb.answered
  reports := husage ▸ hb.reports

/-- A task says something that is no call of the store. -/
theorem Booked.asks {q : Ask} {x : q.Answer} (hb : Booked a loads truth limit sp t)
    (hmay : MayPlan a (sp k) (.ask q)) (hx : (planned a loads truth).possible (sp k) (.ask q) x)
    (hs : SaysMore sp sp' k ⟨.ask q, x⟩) : Booked a loads truth limit sp' t := by
  have hold : ∀ {j o request output}, StartedWith (sp' j) o request output →
      StartedWith (sp j) o request output := by
    rintro j o request output ⟨guards, hm⟩
    rcases hs.mem.mp hm with hm | ⟨-, he⟩
    · exact ⟨guards, hm⟩
    · cases he
  refine ⟨hb.capped, fun h => hb.starts (hold h), fun h h' => hb.owner (hold h) (hold h'),
    fun row hr => ?_, fun hm => ?_, fun u hu => ?_⟩
  · obtain ⟨j, request, output, h⟩ := hb.rows row hr
    exact ⟨j, request, output, hs.started h⟩
  · rcases hs.mem.mp hm with hm | ⟨rfl, he⟩
    · obtain ⟨hanswers, output, h⟩ := hb.answered hm
      exact ⟨hanswers, output, hs.started h⟩
    · cases he
      obtain ⟨-, output, h, -⟩ := hmay
      exact ⟨hx, output, hs.started h⟩
  · obtain ⟨j, request, x, usage, hm, hrest⟩ := hb.reports u hu
    exact ⟨j, request, x, usage, hs.mem.mpr (.inl hm), hrest⟩

/-- A start that returned has what it reserved, and is the first of its operation. -/
theorem Booked.begun (hb : Booked a loads truth limit sp t) {handle : Handle} {clock : Clock}
    {output : Option (Dyn OutputReservation)} {guards : Dyn (List String)}
    (hmay : MayPlan a (sp k) (.store (.start o request output guards)))
    (hc : Change handle clock t (.start o request output guards) t') :
    ∃ reservation : OutputReservation,
      output = some (.typed reservation) ∧ reservation.kind = .model ∧
      reservation.tokens ≤ a.maxTokens ∧ request.maxOutputTokens = some reservation.tokens ∧
      (⟨o, reservation.toReservationFields⟩ : OutputReservationRow) ∈
        t'.outputReservations.rows := by
  have hrows := hc.reservesOutput
  cases hc with
  | start _ _ _ _ budgeted admitted =>
    rw [hb.capped.sound.outputBudget hb.capped.limited] at budgeted
    cases budgeted
    obtain ⟨reservation, rfl, hceiling, -⟩ := (admitOutput_ok rfl).mp admitted
    obtain ⟨reservation', hsame, hkind, hadapter, -⟩ := hmay.2 _ rfl
    cases hsame
    refine ⟨reservation, rfl, hkind, hadapter, hceiling, ?_⟩
    rw [hrows]
    exact List.mem_append_right _ (List.mem_singleton.mpr rfl)

/-- A task calls the store, and the books say what it did. -/
theorem Booked.calls (hb : Booked a loads truth limit sp self.db) {clock : Clock} {call : Call}
    (hmay : MayPlan a (sp k) (.store call))
    (hs : SaysMore sp sp' k ⟨.store call, call.answer clock self⟩) :
    Booked a loads truth limit sp' (exec ⟨clock, call⟩ self).2.db := by
  have hgenerated : ∀ {j o request x}, ⟨.ask (.generate o request), x⟩ ∈ sp' j ↔
      ⟨.ask (.generate o request), x⟩ ∈ sp j := by
    intro j o request x
    rw [hs.mem]
    refine ⟨fun h => ?_, fun h => .inl h⟩
    rcases h with h | ⟨-, he⟩
    · exact h
    · cases he
  have hanswered : ∀ {j o request x}, ⟨.ask (.generate o request), x⟩ ∈ sp' j →
      a.Answers loads truth o request x ∧ ∃ output, StartedWith (sp' j) o request output := by
    intro j o request x hm
    obtain ⟨hanswers, output, h⟩ := hb.answered (hgenerated.mp hm)
    exact ⟨hanswers, output, hs.started h⟩
  -- a start that was just said returned
  have hcases : ∀ {j o r output}, StartedWith (sp' j) o r output → StartedWith (sp j) o r output ∨
      j = k ∧ ∃ guards, call = .start o r output guards ∧
        (exec ⟨clock, call⟩ self).1.ok = true := by
    rintro j o r output ⟨guards, hm⟩
    rcases hs.mem.mp hm with hm | ⟨hj, he⟩
    · exact .inl ⟨guards, hm⟩
    · simp only [Said.mk.injEq, Req.store.injEq] at he
      obtain ⟨rfl, hx⟩ := he
      exact .inr ⟨hj, _, rfl, ok_of_answer (eq_of_heq hx).symm⟩
  rcases exec_cases ⟨clock, call⟩ self with ⟨⟨handle, t', -, hc, hstore⟩, hok⟩ | ⟨hsame, hno⟩
  · rw [hstore]
    have hrows := hc.reservesOutput
    refine ⟨hb.capped.change hc, fun h => ?_, fun h h' => ?_, fun row hr => ?_, hanswered,
      fun u hu => ?_⟩
    · rcases hcases h with h | ⟨rfl, guards, rfl, -⟩
      · obtain ⟨ho, reservation, hout, hkind, hadapter, hceiling, hm⟩ := hb.starts h
        refine ⟨(hc.started_iff _).mpr (.inl ho), reservation, hout, hkind, hadapter, hceiling, ?_⟩
        rw [hrows]
        exact List.mem_append_left _ hm
      · exact ⟨(hc.started_iff _).mpr (.inr (by simp [Call.reserves])), hb.begun hmay hc⟩
    · rcases hcases h with h | ⟨rfl, guards, rfl, -⟩ <;>
        rcases hcases h' with h' | ⟨rfl, guards', he, -⟩
      · exact hb.owner h h'
      · subst he
        have ho := (hb.starts h).1
        rw [hc.fresh] at ho
        cases ho
      · have ho := (hb.starts h').1
        rw [hc.fresh] at ho
        cases ho
      · cases he
        exact ⟨rfl, rfl⟩
    · rw [hrows] at hr
      rcases List.mem_append.mp hr with hr | hr
      · obtain ⟨j, request, output, h⟩ := hb.rows row hr
        exact ⟨j, request, output, hs.started h⟩
      · obtain ⟨request, reservation, guards, rfl, -⟩ := mem_reservesOutput hr
        refine ⟨k, request, some (.typed reservation), guards, hs.mem.mpr (.inr ⟨rfl, ?_⟩)⟩
        have hreturned : (Call.answer (.start row.operationId request (some (.typed reservation))
            guards) clock self).isOk = true := hok rfl
        cases hx : Call.answer (.start row.operationId request (some (.typed reservation)) guards)
            clock self with
        | ok _ => rfl
        | error e =>
          rw [hx] at hreturned
          cases hreturned
    · rcases hc.reports with hsame | ⟨o, usage, row, rfl, -, -, hinsert⟩
      · rw [hsame] at hu
        obtain ⟨j, request, x, usage, hm, hrest⟩ := hb.reports u hu
        exact ⟨j, request, x, usage, hgenerated.mpr hm, hrest⟩
      · rcases (Table.mem_insert hinsert).mp hu with hu | rfl
        · obtain ⟨j, request, x, usage, hm, hrest⟩ := hb.reports u hu
          exact ⟨j, request, x, usage, hgenerated.mpr hm, hrest⟩
        · obtain ⟨request, x, hm, hreport⟩ := hmay
          exact ⟨k, request, x, usage, hgenerated.mpr hm, hreport, rfl⟩
  · rw [hsame]
    have hstarted : ∀ {j o r output}, StartedWith (sp' j) o r output →
        StartedWith (sp j) o r output := by
      intro j o r output h
      rcases hcases h with h | ⟨-, guards, rfl, hok⟩
      · exact h
      · rw [hno rfl] at hok
        cases hok
    refine ⟨hb.capped, fun h => hb.starts (hstarted h),
      fun h h' => hb.owner (hstarted h) (hstarted h'), fun row hr => ?_, hanswered, fun u hu => ?_⟩
    · obtain ⟨j, request, output, h⟩ := hb.rows row hr
      exact ⟨j, request, output, hs.started h⟩
    · obtain ⟨j, request, x, usage, hm, hrest⟩ := hb.reports u hu
      exact ⟨j, request, x, usage, hgenerated.mpr hm, hrest⟩

/-- A call that neither starts nor reports, of anybody. -/
theorem Booked.meanwhile (hb : Booked a loads truth limit sp self.db) {i : Timed}
    (hstart : ∀ o request output guards, i.call ≠ .start o request output guards)
    (hreport : ∀ o usage, i.call ≠ .recordUsage o usage) :
    Booked a loads truth limit sp (exec i self).2.db := by
  rcases exec_cases i self with ⟨⟨handle, t', -, hc, hstore⟩, -⟩ | ⟨hsame, -⟩
  · rw [hstore]
    refine hb.unbooked (hb.capped.change hc) (fun o ho => (hc.started_iff o).mpr (.inl ho)) ?_ ?_
    · generalize i.call = call at hc hstart
      cases hc with
      | start => exact absurd rfl (hstart _ _ _ _)
      | _ => rfl
    · rcases hc.reports with hsame | ⟨o, usage, _, hcall, -⟩
      · exact hsame
      · exact absurd hcall (hreport _ _)
  · rw [hsame]
    exact hb

/-! ## What is seen of a turn -/

/-- The request that an inference sends. -/
def Ask.generation : Ask → Option (String × InferenceRequest)
  | .generate o request => some (o, request)
  | _ => none

/-- What is seen of a turn: what a task has said and was answered, and what it has sent. -/
structure Observation where
  heard : Option (Nat × Said Req Req.Answer) := none
  sent : Option (Nat × String × InferenceRequest) := none

namespace Process

def observes (s : Process) : Turn → Observation
  | .resume clock reply =>
    match s.running with
    | none => {}
    | some k =>
      match s.tasks[k]? with
      | none => {}
      | some task =>
        match task.prog with
        | .ret _ => {}
        | .ask (.store call) _ => { heard := some (k, ⟨.store call, call.answer clock s.store⟩) }
        | .ask (.ask q) _ =>
          if q.awaits then { sent := q.generation.map (Prod.mk k) }
          else { heard := some (k, ⟨.ask q, reply q⟩) }
  | .answer k reply =>
    match s.tasks[k]? with
    | none => {}
    | some task =>
      if s.running = none ∧ task.alive = true ∧ task.waiting = true then
        match task.prog with
        | .ask (.ask q) _ =>
          if q.given s.locks task.runtime (reply q) then { heard := some (k, ⟨.ask q, reply q⟩) }
          else {}
        | _ => {}
      else {}
  | _ => {}

/-- One turn, with what is seen of it. -/
def watch (runtimes : Nat → Runtime) (turn : Turn) (s : Process) : Observation × Process :=
  (s.observes turn, (step runtimes turn s).2)

end Process

/-- What the task `k` has said and was answered. -/
def speechOf (log : List Observation) (k : Nat) : Speech :=
  log.filterMap fun seen => seen.heard.bind fun p => if p.1 = k then some p.2 else none

/-- The inferences that were sent: the task, the operation and the request. -/
def sentOf (log : List Observation) : List (Nat × String × InferenceRequest) :=
  log.filterMap Observation.sent

/-- The adapter answers the turn. -/
def Turn.Adapted (a : DeepSeekAdapter) (loads : Loads) (truth : String → Int) : Turn → Prop
  | .resume _ reply | .answer _ reply =>
    (∀ request available, reply (.planOutput request available) = a.planOutput request available) ∧
      ∀ o request, a.Answers loads truth o request (reply (.generate o request))
  | _ => True

variable {runtimes : Nat → Runtime} {s s' : Process} {turn : Turn} {log : List Observation}

/-- What a turn does to the tasks and to the file. -/
inductive Watched (a : DeepSeekAdapter) (loads : Loads) (truth : String → Int)
    (runtimes : Nat → Runtime) (s : Process) : Observation → Process → Prop where
  | idle {s' : Process} (tasks : s'.tasks = s.tasks)
      (running : s'.running = none ∨ s'.running = s.running) (store : s'.store.db = s.store.db) :
      Watched a loads truth runtimes s {} s'
  | finishes (clock : Clock) (text : Dyn String) : Watched a loads truth runtimes s {}
      { s with store := (exec ⟨clock, .finish text⟩ s.store).2 }
  | dies : Watched a loads truth runtimes s {} {
      store := { s.store with closed := true }
      tasks := s.tasks.map fun task => { task with alive := false } }
  | begins (runtime : Nat) (job : Job) : Watched a loads truth runtimes s {} { s with
      tasks := s.tasks ++ [{ runtime, prog := job.prog (runtimes runtime) }]
      running := some s.tasks.length }
  | calls {s' : Process} {k : Nat} {task : Task} {call : Call} {clock : Clock}
      {next : (Req.store call).Answer → Flow Exn (Option StepResult)}
      (running : s.running = some k) (here : s.tasks[k]? = some task)
      (prog : task.prog = .ask (.store call) next)
      (tasks : s'.tasks = s.tasks.set k { task with prog := next (call.answer clock s.store) })
      (goes : s'.running = some k) (store : s'.store = (exec ⟨clock, call⟩ s.store).2) :
      Watched a loads truth runtimes s
        { heard := some (k, ⟨.store call, call.answer clock s.store⟩) } s'
  | asks {s' : Process} {k : Nat} {task task' : Task} {q : Ask} {x : q.Answer}
      {next : (Req.ask q).Answer → Flow Exn (Option StepResult)}
      (here : s.tasks[k]? = some task) (prog : task.prog = .ask (.ask q) next)
      (possible : (planned a loads truth).possible [] (.ask q) x)
      (tasks : s'.tasks = s.tasks.set k task') (next_prog : task'.prog = next x)
      (ready : s.running = some k ∧ task'.waiting = task.waiting ∨ task'.waiting = false)
      (awaited : q.awaits = true → task.waiting = true)
      (goes : s'.running = some k) (store : s'.store = s.store) :
      Watched a loads truth runtimes s { heard := some (k, ⟨.ask q, x⟩) } s'
  | sends {s' : Process} {k : Nat} {task : Task} {q : Ask}
      {next : (Req.ask q).Answer → Flow Exn (Option StepResult)}
      (running : s.running = some k) (here : s.tasks[k]? = some task)
      (prog : task.prog = .ask (.ask q) next)
      (tasks : s'.tasks = s.tasks.set k { task with waiting := true })
      (goes : s'.running = none) (store : s'.store = s.store) :
      Watched a loads truth runtimes s { sent := q.generation.map (Prod.mk k) } s'

theorem possible_reply {reply : (q : Ask) → q.Answer}
    (hplan : ∀ request available, reply (.planOutput request available) =
      a.planOutput request available)
    (hanswers : ∀ o request, a.Answers loads truth o request (reply (.generate o request)))
    (q : Ask) : (planned a loads truth).possible [] (.ask q) (reply q) := by
  cases q <;> first | trivial | exact hplan _ _ | exact hanswers _ _

/-- Every turn that the adapter answers is one of these. -/
theorem watched (hturn : turn.Adapted a loads truth) :
    Watched a loads truth runtimes s (Process.watch runtimes turn s).1
      (Process.watch runtimes turn s).2 := by
  have hidle : Watched a loads truth runtimes s {} s := .idle rfl (.inr rfl) rfl
  cases turn with
  | begin runtime job =>
    simp only [Process.watch, Process.observes, Process.step]
    split
    · exact .begins runtime job
    · exact hidle
  | die => exact .dies
  | openRun clock => exact .idle rfl (.inr rfl) (openRun_db clock s.store)
  | finish clock text =>
    simp only [Process.watch, Process.observes, Process.step]
    split
    · exact .finishes clock text
    · exact hidle
  | resume clock reply =>
    cases hrunning : s.running with
    | none =>
      simp only [Process.watch, Process.observes, Process.step, hrunning]
      exact hidle
    | some k =>
      cases htask : s.tasks[k]? with
      | none =>
        simp only [Process.watch, Process.observes, Process.step, hrunning, htask]
        exact hidle
      | some task =>
        simp only [Process.watch, Process.observes, Process.step, hrunning, htask, Process.resume]
        cases hprog : task.prog with
        | ret r => exact .idle rfl (.inl rfl) rfl
        | ask q next =>
          cases q with
          | store call => exact .calls hrunning htask hprog rfl rfl rfl
          | ask q =>
            dsimp only
            by_cases hq : q.awaits = true
            · rw [if_pos hq, if_pos hq]
              exact .sends hrunning htask hprog (by rw [hprog]) rfl rfl
            · rw [if_neg hq, if_neg hq]
              exact .asks htask hprog (possible_reply hturn.1 hturn.2 q) rfl rfl
                (.inl ⟨hrunning, rfl⟩) (fun h => absurd h hq) rfl rfl
  | answer k reply =>
    cases htask : s.tasks[k]? with
    | none =>
      simp only [Process.watch, Process.observes, Process.step, htask]
      exact hidle
    | some task =>
      simp only [Process.watch, Process.observes, Process.step, htask, Process.answer]
      split
      · rename_i hready
        cases hprog : task.prog with
        | ret r => exact hidle
        | ask q next =>
          cases q with
          | store call => exact hidle
          | ask q =>
            dsimp only
            split
            · exact .asks htask hprog (possible_reply hturn.1 hturn.2 q) rfl rfl
                (.inr rfl) (fun _ => hready.2.2) rfl rfl
            · exact hidle
      · exact hidle

/-! ## Every turn -/

theorem speechOf_silent (log : List Observation) (sent : Option (Nat × String × InferenceRequest)) :
    speechOf (log ++ [⟨none, sent⟩]) = speechOf log := by
  funext k
  simp [speechOf, List.filterMap_append]

theorem sentOf_silent (log : List Observation) (heard : Option (Nat × Said Req Req.Answer)) :
    sentOf (log ++ [⟨heard, none⟩]) = sentOf log := by
  simp [sentOf, List.filterMap_append]

theorem sentOf_sent (log : List Observation) (g : Nat × String × InferenceRequest) :
    sentOf (log ++ [{ sent := some g }]) = sentOf log ++ [g] := by
  simp [sentOf, List.filterMap_append]

theorem speechOf_heard (log : List Observation) (k : Nat) (e : Said Req Req.Answer) :
    SaysMore (speechOf log) (speechOf (log ++ [{ heard := some (k, e) }])) k e where
  here := by simp [speechOf, List.filterMap_append]
  others j hj := by simp [speechOf, List.filterMap_append, Ne.symm hj]

/-- The inference was sent by the step that started it: it waits for its answer, or was
answered. -/
structure Sent (sp : Nat → Speech) (s : Process) (g : Nat × String × InferenceRequest) : Prop where
  started : ∃ output, StartedWith (sp g.1) g.2.1 g.2.2 output
  pending : (∃ task next, s.tasks[g.1]? = some task ∧ task.waiting = true ∧
      task.prog = .ask (.ask (.generate g.2.1 g.2.2)) next) ∨
    ∃ x, ⟨.ask (.generate g.2.1 g.2.2), x⟩ ∈ sp g.1
  ceilings : ∀ m, g.2.2.maxOutputTokens = some m → WithinCeilings (sp g.1) m

/-- What holds of the tasks, of what was said and sent, and of the file. -/
structure Tracked (a : DeepSeekAdapter) (loads : Loads) (truth : String → Int) (limit : Int)
    (log : List Observation) (s : Process) : Prop where
  tasks : ∀ {k task}, s.tasks[k]? = some task →
    KeepsPlan a loads truth task.prog (speechOf log k)
  unborn : ∀ k, s.tasks.length ≤ k → speechOf log k = []
  going : ∀ {k task}, s.running = some k → s.tasks[k]? = some task → task.waiting = false
  booked : Booked a loads truth limit (speechOf log) s.store.db
  sent : ∀ g ∈ sentOf log, Sent (speechOf log) s g
  once : ((sentOf log).map Prod.fst).Nodup
  waits : ∀ {k task o request next}, s.tasks[k]? = some task → task.waiting = true →
    task.prog = .ask (.ask (.generate o request)) next → (k, o, request) ∈ sentOf log
  heard : ∀ {k o request x}, ⟨.ask (.generate o request), x⟩ ∈ speechOf log k →
    (k, o, request) ∈ sentOf log

theorem possible_later {q : Ask} {x : q.Answer} (h h' : Speech)
    (hx : (planned a loads truth).possible h (.ask q) x) :
    (planned a loads truth).possible h' (.ask q) x := by
  cases q <;> exact hx

/-- The next request of a task is allowed, and the rest of its program keeps to the protocol. -/
theorem Tracked.may (ht : Tracked a loads truth limit log s) {task : Task} {q : Req}
    {next : q.Answer → Flow Exn (Option StepResult)} (here : s.tasks[k]? = some task)
    (prog : task.prog = .ask q next) : MayPlan a (speechOf log k) q ∧
      ∀ x, (planned a loads truth).possible (speechOf log k) q x →
        KeepsPlan a loads truth (next x) (speechOf log k ++ [⟨q, x⟩]) := by
  have hkeeps := ht.tasks here
  rw [prog] at hkeeps
  exact hkeeps

/-- A task that says something keeps what it has sent. -/
theorem Sent.said {g : Nat × String × InferenceRequest} {e : Said Req Req.Answer}
    (hg : Sent sp s g) (hs : SaysMore sp sp' k e)
    (hmay : MayPlan a (sp k) e.request) {task : Task}
    {next : e.request.Answer → Flow Exn (Option StepResult)}
    (here : s.tasks[k]? = some task) (prog : task.prog = .ask e.request next)
    (tasks : ∀ j, j ≠ k → s'.tasks[j]? = s.tasks[j]?) : Sent sp' s' g := by
  obtain ⟨⟨output, hstarted⟩, hpending, hceilings⟩ := hg
  refine ⟨⟨output, hs.started hstarted⟩, ?_, fun m hm prior prepared c hmem hc => ?_⟩
  · rcases hpending with ⟨task', next', htask, hwaiting, hprog⟩ | ⟨x, hx⟩
    · by_cases hk : g.1 = k
      · right
        rw [hk, here] at htask
        cases htask
        rw [hprog] at prog
        obtain ⟨q, x⟩ := e
        cases prog
        exact ⟨x, hs.mem.mpr (.inr ⟨hk, rfl⟩)⟩
      · exact .inl ⟨task', next', (tasks _ hk).trans htask, hwaiting, hprog⟩
    · exact .inr ⟨x, hs.mem.mpr (.inl hx)⟩
  · rcases hs.mem.mp hmem with hmem | ⟨hk, rfl⟩
    · exact hceilings m hm prior prepared c hmem hc
    · -- a task that has sent an inference prepares no other request
      rcases hpending with ⟨task', next', htask, hwaiting, hprog⟩ | ⟨x, hx⟩
      · rw [hk, here] at htask
        cases htask
        rw [hprog] at prog
        cases prog
      · rw [hk] at hx
        have hunsent : Unsent (sp k) := hmay
        cases hunsent _ hx

/-- A turn in which nobody says or sends anything. -/
theorem Tracked.silent (ht : Tracked a loads truth limit log s) (f : Task → Task)
    (hf : ∀ task, (f task).prog = task.prog ∧ (f task).waiting = task.waiting)
    (tasks : s'.tasks = s.tasks.map f) (running : s'.running = none ∨ s'.running = s.running)
    (booked : Booked a loads truth limit (speechOf log) s'.store.db) :
    Tracked a loads truth limit (log ++ [⟨none, none⟩]) s' := by
  have hspeech : speechOf (log ++ [⟨none, none⟩]) = speechOf log := speechOf_silent log none
  have hsent : sentOf (log ++ [⟨none, none⟩]) = sentOf log := sentOf_silent log none
  have hold : ∀ {k : Nat} {task' : Task}, s'.tasks[k]? = some task' →
      ∃ task, s.tasks[k]? = some task ∧ task' = f task := by
    intro k task' htask
    rw [tasks, List.getElem?_map] at htask
    obtain ⟨task, hhere, rfl⟩ := Option.map_eq_some_iff.mp htask
    exact ⟨task, hhere, rfl⟩
  refine ⟨fun {k task'} htask => ?_, fun k hk => ?_, fun {k task'} hr htask => ?_, ?_,
    fun g hg => ?_, ?_, fun {k task'} _ _ _ htask hwaits hprog => ?_, ?_⟩
  · obtain ⟨task, hhere, rfl⟩ := hold htask
    rw [hspeech, (hf task).1]
    exact ht.tasks hhere
  · rw [hspeech]
    apply ht.unborn
    rwa [tasks, List.length_map] at hk
  · obtain ⟨task, hhere, rfl⟩ := hold htask
    rw [(hf task).2]
    rcases running with hn | hn
    · rw [hn] at hr
      cases hr
    · exact ht.going (hn ▸ hr) hhere
  · rw [hspeech]
    exact booked
  · rw [hsent] at hg
    rw [hspeech]
    obtain ⟨hstarted, hpending, hceilings⟩ := ht.sent g hg
    refine ⟨hstarted, hpending.imp_left ?_, hceilings⟩
    rintro ⟨task, next, htask, hwaiting, hprog⟩
    refine ⟨f task, next, ?_, (hf task).2.trans hwaiting, (hf task).1.trans hprog⟩
    rw [tasks, List.getElem?_map, htask]
    rfl
  · rw [hsent]
    exact ht.once
  · obtain ⟨task, hhere, rfl⟩ := hold htask
    rw [hsent]
    exact ht.waits hhere ((hf task).2 ▸ hwaits) ((hf task).1 ▸ hprog)
  · rw [hspeech, hsent]
    exact ht.heard

/-- A turn in which a task says something and goes on. -/
theorem Tracked.says {e : Said Req Req.Answer} {task task' : Task}
    {next : e.request.Answer → Flow Exn (Option StepResult)}
    (ht : Tracked a loads truth limit log s) (here : s.tasks[k]? = some task)
    (prog : task.prog = .ask e.request next)
    (possible : (planned a loads truth).possible (speechOf log k) e.request e.answer)
    (tasks : s'.tasks = s.tasks.set k task') (goes_on : task'.prog = next e.answer)
    (awake : task'.waiting = false) (goes : s'.running = some k)
    (awaited : e.request.generates = true → task.waiting = true)
    (booked : Booked a loads truth limit (speechOf (log ++ [⟨some (k, e), none⟩])) s'.store.db) :
    Tracked a loads truth limit (log ++ [⟨some (k, e), none⟩]) s' := by
  obtain ⟨hmay, hrest⟩ := ht.may here prog
  have hs : SaysMore (speechOf log) (speechOf (log ++ [⟨some (k, e), none⟩])) k e :=
    speechOf_heard log k e
  have hsent : sentOf (log ++ [⟨some (k, e), none⟩]) = sentOf log := sentOf_silent log _
  have hlt : k < s.tasks.length := (List.getElem?_eq_some_iff.mp here).1
  have hk : s'.tasks[k]? = some task' := by rw [tasks, List.getElem?_set_self hlt]
  have hothers : ∀ j, j ≠ k → s'.tasks[j]? = s.tasks[j]? := by
    intro j hj
    rw [tasks, List.getElem?_set_ne (Ne.symm hj)]
  refine ⟨fun {j task''} htask => ?_, fun j hj => ?_, fun {j task''} hr htask => ?_, booked,
    fun g hg => ?_, ?_, fun {j task''} _ _ _ htask hwaits hprog => ?_, fun {j o request x} hm => ?_⟩
  · by_cases hj : j = k
    · rw [hj, hk] at htask
      cases htask
      rw [hj, hs.here, goes_on]
      exact hrest e.answer possible
    · rw [hs.others j hj]
      exact ht.tasks ((hothers j hj) ▸ htask)
  · rw [tasks, List.length_set] at hj
    rw [hs.others j (by omega)]
    exact ht.unborn j hj
  · rw [goes] at hr
    cases hr
    rw [hk] at htask
    cases htask
    exact awake
  · rw [hsent] at hg
    exact (ht.sent g hg).said hs hmay here prog hothers
  · rw [hsent]
    exact ht.once
  · rw [hsent]
    by_cases hj : j = k
    · rw [hj, hk] at htask
      cases htask
      rw [awake] at hwaits
      cases hwaits
    · exact ht.waits ((hothers j hj) ▸ htask) hwaits hprog
  · rw [hsent]
    rcases hs.mem.mp hm with hm | ⟨rfl, rfl⟩
    · exact ht.heard hm
    · exact ht.waits here (awaited rfl) prog

/-- A turn in which a task sends something and waits. -/
theorem Tracked.sends {task : Task} {q : Ask}
    {next : (Req.ask q).Answer → Flow Exn (Option StepResult)}
    (ht : Tracked a loads truth limit log s) (running : s.running = some k)
    (here : s.tasks[k]? = some task) (prog : task.prog = .ask (.ask q) next)
    (tasks : s'.tasks = s.tasks.set k { task with waiting := true }) (goes : s'.running = none)
    (store : s'.store = s.store) :
    Tracked a loads truth limit (log ++ [⟨none, q.generation.map (Prod.mk k)⟩]) s' := by
  obtain ⟨hmay, -⟩ := ht.may here prog
  have hspeech := speechOf_silent log (q.generation.map (Prod.mk k))
  have hlt : k < s.tasks.length := (List.getElem?_eq_some_iff.mp here).1
  have hk : s'.tasks[k]? = some { task with waiting := true } := by
    rw [tasks, List.getElem?_set_self hlt]
  have hothers : ∀ j, j ≠ k → s'.tasks[j]? = s.tasks[j]? := by
    intro j hj
    rw [tasks, List.getElem?_set_ne (Ne.symm hj)]
  have hwaiting := ht.going running here
  have hold : ∀ g ∈ sentOf log, Sent (speechOf log) s' g := by
    intro g hg
    obtain ⟨hstarted, hpending, hceilings⟩ := ht.sent g hg
    refine ⟨hstarted, hpending.imp_left ?_, hceilings⟩
    rintro ⟨task', next', htask, hwaits, hprog⟩
    by_cases hg : g.1 = k
    · rw [hg, here] at htask
      cases htask
      rw [hwaiting] at hwaits
      cases hwaits
    · exact ⟨task', next', (hothers _ hg).trans htask, hwaits, hprog⟩
  have hkept : ∀ g ∈ sentOf log,
      g ∈ sentOf (log ++ [⟨none, q.generation.map (Prod.mk k)⟩]) := by
    intro g hg
    unfold sentOf
    rw [List.filterMap_append]
    exact List.mem_append_left _ hg
  refine ⟨fun {j task'} htask => ?_, fun j hj => ?_, fun {j task'} hr _ => ?_, ?_, ?_, ?_,
    fun {j task'} o request next' htask hwaits hprog => ?_, fun {j o request x} hm => ?_⟩
  · rw [hspeech]
    by_cases hj : j = k
    · rw [hj, hk] at htask
      cases htask
      rw [hj]
      have hkeeps := ht.tasks here
      exact hkeeps
    · exact ht.tasks ((hothers j hj) ▸ htask)
  · rw [hspeech]
    rw [tasks, List.length_set] at hj
    exact ht.unborn j hj
  · rw [goes] at hr
    cases hr
  · rw [hspeech, store]
    exact ht.booked
  · rw [hspeech]
    cases q with
    | generate o request =>
      rw [show sentOf (log ++ [⟨none, (Ask.generate o request).generation.map (Prod.mk k)⟩]) =
        sentOf log ++ [(k, o, request)] from sentOf_sent log _]
      intro g hg
      rcases List.mem_append.mp hg with hg | hg
      · exact hold g hg
      · rw [List.mem_singleton.mp hg]
        obtain ⟨hunsent, output, hstarted, hceilings⟩ := hmay
        refine ⟨⟨output, hstarted⟩, .inl ⟨_, next, hk, rfl, prog⟩, fun m hm => ?_⟩
        obtain ⟨-, reservation, rfl, -, -, hceiling, -⟩ := ht.booked.starts hstarted
        have hsame : m = reservation.tokens := Option.some.inj (hm.symm.trans hceiling)
        rw [hsame]
        exact hceilings reservation rfl
    | _ =>
      change ∀ g ∈ sentOf (log ++ [⟨none, none⟩]), _
      rw [sentOf_silent]
      exact hold
  · cases q with
    | generate o request =>
      rw [show sentOf (log ++ [⟨none, (Ask.generate o request).generation.map (Prod.mk k)⟩]) =
        sentOf log ++ [(k, o, request)] from sentOf_sent log _, List.map_append]
      refine List.nodup_append.mpr ⟨ht.once, by simp, ?_⟩
      intro j hj i hi hji
      rw [List.map_singleton, List.mem_singleton] at hi
      obtain ⟨g, hg, rfl⟩ := List.mem_map.mp hj
      have hgk : g.1 = k := hji.trans hi
      rcases (ht.sent g hg).pending with ⟨task', next', htask, hwaits, -⟩ | ⟨x, hx⟩
      · rw [hgk, here] at htask
        cases htask
        rw [hwaiting] at hwaits
        cases hwaits
      · rw [hgk] at hx
        have hunsent : Unsent (speechOf log k) := hmay.1
        cases hunsent _ hx
    | _ =>
      change ((sentOf (log ++ [⟨none, none⟩])).map Prod.fst).Nodup
      rw [sentOf_silent]
      exact ht.once
  · by_cases hj : j = k
    · rw [hj, hk] at htask
      cases htask
      have hsame := prog.symm.trans hprog
      cases hsame
      rw [hj]
      exact (sentOf_sent log (k, o, request)) ▸ List.mem_append_right _ (List.mem_singleton.mpr rfl)
    · exact hkept _ (ht.waits ((hothers j hj) ▸ htask) hwaits hprog)
  · rw [hspeech] at hm
    exact hkept _ (ht.heard hm)

theorem generates_awaits {q : Ask} (h : (Req.ask q).generates = true) : q.awaits = true := by
  cases q <;> first | rfl | cases h

/-- Every turn keeps the tasks, what was said and sent, and the file in step. -/
theorem Tracked.watched {seen : Observation} (ht : Tracked a loads truth limit log s)
    (hw : Watched a loads truth runtimes s seen s') :
    Tracked a loads truth limit (log ++ [seen]) s' := by
  cases hw with
  | idle tasks running store =>
    refine ht.silent id (fun _ => ⟨rfl, rfl⟩) (by rw [tasks, List.map_id]) running ?_
    rw [store]
    exact ht.booked
  | finishes clock text =>
    refine ht.silent id (fun _ => ⟨rfl, rfl⟩) (by rw [List.map_id]) (.inr rfl) ?_
    exact ht.booked.meanwhile (fun _ _ _ _ he => by cases he) fun _ _ he => by cases he
  | dies =>
    exact ht.silent (fun task => { task with alive := false }) (fun _ => ⟨rfl, rfl⟩) rfl (.inl rfl)
      ht.booked
  | begins runtime job =>
    have hspeech : speechOf (log ++ [⟨none, none⟩]) = speechOf log := speechOf_silent log none
    have hsent : sentOf (log ++ [⟨none, none⟩]) = sentOf log := sentOf_silent log none
    have hold : ∀ {k : Nat} {task : Task}, s.tasks[k]? = some task →
        (s.tasks ++ [{ runtime, prog := job.prog (runtimes runtime) }])[k]? = some task :=
      fun htask => by
        rw [List.getElem?_append_left (List.getElem?_eq_some_iff.mp htask).1]
        exact htask
    have hnew : ∀ {k : Nat} {task : Task},
        (s.tasks ++ [{ runtime, prog := job.prog (runtimes runtime) }])[k]? = some task →
        s.tasks[k]? = some task ∨ s.tasks.length ≤ k ∧
          task = { runtime, prog := job.prog (runtimes runtime) } := by
      intro k task htask
      by_cases hk : k < s.tasks.length
      · rw [List.getElem?_append_left hk] at htask
        exact .inl htask
      · refine .inr ⟨by omega, ?_⟩
        rw [List.getElem?_append_right (by omega)] at htask
        exact List.mem_singleton.mp (List.mem_of_getElem? htask)
    refine ⟨fun {k task} htask => ?_, fun k hk => ?_, fun {k task} hr htask => ?_, ?_,
      fun g hg => ?_, ?_, fun {k task} _ _ _ htask hwaits hprog => ?_, ?_⟩
    · rw [hspeech]
      rcases hnew htask with htask | ⟨hk, rfl⟩
      · exact ht.tasks htask
      · rw [ht.unborn k hk]
        exact keeps_job job
    · rw [hspeech]
      rw [List.length_append, List.length_singleton] at hk
      exact ht.unborn k (by omega)
    · cases hr
      rcases hnew htask with htask | ⟨-, rfl⟩
      · have := (List.getElem?_eq_some_iff.mp htask).1
        omega
      · rfl
    · rw [hspeech]
      exact ht.booked
    · rw [hsent] at hg
      rw [hspeech]
      obtain ⟨hstarted, hpending, hceilings⟩ := ht.sent g hg
      refine ⟨hstarted, hpending.imp_left ?_, hceilings⟩
      rintro ⟨task, next, htask, hrest⟩
      exact ⟨task, next, hold htask, hrest⟩
    · rw [hsent]
      exact ht.once
    · rw [hsent]
      rcases hnew htask with htask | ⟨-, rfl⟩
      · exact ht.waits htask hwaits hprog
      · cases hwaits
    · rw [hspeech, hsent]
      exact ht.heard
  | calls running here prog tasks goes store =>
    have hmay := (ht.may here prog).1
    have hawake := ht.going running here
    refine ht.says here prog trivial tasks rfl hawake goes (fun hg => by cases hg) ?_
    rw [store]
    exact ht.booked.calls hmay (speechOf_heard log _ _)
  | asks here prog possible tasks next_prog ready awaited goes store =>
    have hmay := (ht.may here prog).1
    have hx := fun k => possible_later [] (speechOf log k) possible
    refine ht.says here prog (hx _) tasks next_prog ?_ goes (fun hg => awaited ?_) ?_
    · rcases ready with ⟨running, hsame⟩ | hawake
      · exact hsame.trans (ht.going running here)
      · exact hawake
    · exact generates_awaits hg
    · rw [store]
      exact ht.booked.asks hmay (hx _) (speechOf_heard log _ _)
  | sends running here prog tasks goes store => exact ht.sends running here prog tasks goes store

theorem tracked_start (hb : Booked a loads truth limit (fun _ => []) self.db) :
    Tracked a loads truth limit [] { store := self } where
  tasks h := by cases h
  unborn _ _ := rfl
  going h := by cases h
  booked := hb
  sent _ h := by cases h
  once := List.nodup_nil
  waits h := by cases h
  heard h := by cases h

/-- What holds after every list of turns that the adapter answers. -/
theorem tracked_after (ht : Tracked a loads truth limit log s) {turns : List Turn}
    (hturns : ∀ turn ∈ turns, turn.Adapted a loads truth) :
    Tracked a loads truth limit (log ++ Machines.log (Process.watch runtimes) s turns)
      (Machines.after (Process.watch runtimes) s turns) := by
  induction turns generalizing log s with
  | nil => simpa using ht
  | cons turn turns ih =>
    have hstep := ht.watched (@watched a loads truth runtimes s turn (hturns turn (by simp)))
    have hrest := ih hstep fun turn' h => hturns turn' (by simp [h])
    simpa using hrest

/-- What is seen of the turns on a run. -/
def Process.seen (runtimes : Nat → Runtime) (self : SQLiteRun) (turns : List Turn) :
    List Observation := Machines.log (Process.watch runtimes) { store := self } turns

/-- To watch a turn changes nothing. -/
theorem watch_after (runtimes : Nat → Runtime) (s : Process) (turns : List Turn) :
    Machines.after (Process.watch runtimes) s turns = Process.after runtimes s turns := by
  induction turns generalizing s with
  | nil => rfl
  | cons turn turns ih => exact ih _

/-! ## What was generated -/

/-- The requests that left: those that the adapter could prepare. -/
def DeepSeekAdapter.posts (a : DeepSeekAdapter) (loads : Loads) (log : List Observation) :
    List (Nat × String × InferenceRequest) :=
  (sentOf log).filter fun g => (a.prepare loads g.2.2).isOk

theorem mem_posts {g : Nat × String × InferenceRequest} :
    g ∈ a.posts loads log ↔ g ∈ sentOf log ∧ ∃ sent, a.prepare loads g.2.2 = .ok sent := by
  unfold DeepSeekAdapter.posts
  rw [List.mem_filter]
  cases a.prepare loads g.2.2 <;> simp [Except.isOk, Except.toBool]

/-- The provider generates at most the `max_tokens` of each request. -/
def Obeyed (a : DeepSeekAdapter) (loads : Loads) (truth : String → Int) (log : List Observation) :
    Prop :=
  ∀ g ∈ sentOf log, ∀ sent, a.prepare loads g.2.2 = .ok sent →
    0 ≤ truth g.2.1 ∧ truth g.2.1 ≤ sent.1.maxTokens

/-- What a model report makes of a model reservation. -/
theorem share_model {r : ReservationFields} {u : UsageFields} (hr : r.kind = .model)
    (hu : u.kind = .model) : share r (some u) = u.outputTokens.elim ⟨0, r.tokens, 1, 0⟩
      fun n => ⟨n, 0, 0, if r.tokens < n then 1 else 0⟩ := by
  unfold share Tally.add
  rcases hn : u.outputTokens with _ | n <;> simp [hr, hu, hn]

/-- What was sent for an operation allows what was reserved for it. -/
theorem Tracked.allows (ht : Tracked a loads truth limit log s)
    (hg : (k, o, request) ∈ sentOf log) {sent : Payload × String}
    (hp : a.prepare loads request = .ok sent) : ∃ reservation : OutputReservation,
      (⟨o, reservation.toReservationFields⟩ : OutputReservationRow) ∈
        s.store.db.outputReservations.rows ∧ reservation.tokens = sent.1.maxTokens ∧
      request.maxOutputTokens = some sent.1.maxTokens ∧ sent.1.maxTokens ≤ a.maxTokens := by
  obtain ⟨output, hstarted⟩ := (ht.sent _ hg).started
  obtain ⟨-, reservation, -, -, hadapter, hceiling, hrow⟩ := ht.booked.starts hstarted
  have hlimit : sent.1.maxTokens = reservation.tokens :=
    (prepare_limit hp hceiling).trans (min_eq_right hadapter)
  exact ⟨reservation, hrow, hlimit.symm, hlimit ▸ hceiling, hlimit ▸ hadapter⟩

/-- A reservation takes at least what was generated for its operation, and breaches nothing. -/
theorem Tracked.covers (ht : Tracked a loads truth limit log s) (hw : Obeyed a loads truth log)
    {row : OutputReservationRow} (hr : row ∈ s.store.db.outputReservations.rows) :
    (s.store.db.share row).breached = 0 ∧
      0 ≤ (s.store.db.share row).spent + (s.store.db.share row).held ∧
      ∀ g ∈ a.posts loads log, g.2.1 = row.operationId →
        truth g.2.1 ≤ (s.store.db.share row).spent + (s.store.db.share row).held := by
  obtain ⟨k, request, output, hstarted⟩ := ht.booked.rows row hr
  obtain ⟨-, reservation, -, hmodel, -, -, hm⟩ := ht.booked.starts hstarted
  have hrow := Table.eq_of_key hr hm rfl
  have hvalid := ht.booked.capped.sound.reservations row hr
  have hkind : row.reservation.kind = .model := by rw [hrow]; exact hmodel
  have hpositive := tokens_nonneg hvalid
  -- whoever sent an inference of this operation sent the request that was started
  have hsent : ∀ k' request', (k', row.operationId, request') ∈ sentOf log →
      request' = request := by
    intro k' request' hg
    obtain ⟨output', h⟩ := (ht.sent _ hg).started
    exact (ht.booked.owner h hstarted).2
  have htruth : ∀ k' request' sent, (k', row.operationId, request') ∈ sentOf log →
      a.prepare loads request' = .ok sent →
      0 ≤ truth row.operationId ∧ truth row.operationId ≤ row.reservation.tokens := by
    intro k' request' sent hg hp
    obtain ⟨reservation', hrow', htokens, -, -⟩ := ht.allows hg hp
    have hsame := Table.eq_of_key hr hrow' rfl
    have := hw _ hg _ hp
    rw [← htokens] at this
    rw [hsame]
    exact this
  have hposts : ∀ g ∈ a.posts loads log, g.2.1 = row.operationId →
      (∃ sent, a.prepare loads request = .ok sent) ∧
        truth g.2.1 ≤ row.reservation.tokens := by
    rintro ⟨k', o, request'⟩ hg rfl
    obtain ⟨hg, sent, hp⟩ := mem_posts.mp hg
    exact ⟨⟨sent, hsent _ _ hg ▸ hp⟩, (htruth _ _ _ hg hp).2⟩
  unfold Tables.share
  cases hreport : s.store.db.report row.operationId with
  | none =>
    rw [share_none hvalid]
    exact ⟨breached_none _, hpositive, fun g hg he => (hposts g hg he).2⟩
  | some u =>
    obtain ⟨urow, hlookup, rfl⟩ := Option.map_eq_some_iff.mp hreport
    obtain ⟨hu, hid⟩ := Table.lookup_some hlookup
    obtain ⟨k', request', x, usage, hsaid, hof, hpayload⟩ := ht.booked.reports urow hu
    have hid : urow.operationId = row.operationId := hid
    rw [hid] at hsaid
    have hg := ht.heard hsaid
    obtain rfl := hsent _ _ hg
    obtain ⟨hanswers, -⟩ := ht.booked.answered hsaid
    obtain ⟨hmodel', hknown, hrefused⟩ := answers_report hanswers hof
    rw [← hpayload] at hmodel' hknown hrefused
    rw [share_model hkind hmodel']
    cases hprepared : a.prepare loads request' with
    | error e =>
      rw [hrefused e hprepared]
      refine ⟨if_neg (not_lt.mpr hpositive), le_refl _, fun g hg he => ?_⟩
      obtain ⟨⟨sent, hp⟩, -⟩ := hposts g hg he
      rw [hprepared] at hp
      cases hp
    | ok sent =>
      obtain ⟨hnonneg, hle⟩ := htruth _ _ _ hg hprepared
      cases hcount : urow.payload.outputTokens with
      | none =>
        refine ⟨rfl, by simpa using hpositive, fun g hg he => ?_⟩
        simpa using (hposts g hg he).2
      | some n =>
        obtain rfl := hknown sent n hprepared hcount
        refine ⟨if_neg (not_lt.mpr hle), by simpa using hnonneg, fun g _ he => ?_⟩
        rw [he]
        simp

/-- No operation is sent twice. -/
theorem Tracked.posts_nodup (ht : Tracked a loads truth limit log s) :
    ((a.posts loads log).map fun g => g.2.1).Nodup := by
  have hsub : (a.posts loads log).Sublist (sentOf log) := List.filter_sublist
  have honce : ((a.posts loads log).map Prod.fst).Nodup := (hsub.map Prod.fst).nodup ht.once
  refine List.Nodup.map_on ?_ (List.Nodup.of_map _ honce)
  rintro ⟨k, o, r⟩ hg ⟨k', o', r'⟩ hg' he
  obtain rfl : o = o' := he
  obtain ⟨_, h⟩ := (ht.sent _ (mem_posts.mp hg).1).started
  obtain ⟨_, h'⟩ := (ht.sent _ (mem_posts.mp hg').1).started
  obtain ⟨rfl, rfl⟩ := ht.booked.owner h h'
  rfl

/-- What was generated is within the limit of the run. -/
theorem Tracked.within (ht : Tracked a loads truth limit log s) (hw : Obeyed a loads truth log) :
    ((a.posts loads log).map fun g => truth g.2.1).sum ≤ limit := by
  have hbreached : s.store.db.tally.breached = 0 :=
    tally_breached_zero.mpr fun row hr => (ht.covers hw hr).1
  have hwithin := ht.booked.capped.within hbreached
  rw [tally_taken] at hwithin
  refine le_trans ?_ hwithin
  have hsum := Table.sum_keys_le (t := s.store.db.outputReservations) (f := truth)
    (g := fun row => (s.store.db.share row).spent + (s.store.db.share row).held)
    ht.posts_nodup (fun o ho => ?_) fun row hr => (ht.covers hw hr).2.1
  · rw [List.map_map] at hsum
    exact hsum
  · obtain ⟨⟨k, o, request⟩, hg, rfl⟩ := List.mem_map.mp ho
    obtain ⟨hsent, sent, hp⟩ := mem_posts.mp hg
    obtain ⟨reservation, hrow, -⟩ := ht.allows hsent hp
    exact ⟨_, hrow, rfl, (ht.covers hw hrow).2.2 _ hg rfl⟩
theorem tracked_created {now : ℚ} {clock : Clock} {runId state : Dyn String} {limits : RunLimits}
    {observation : Option (Dyn String)}
    (h : SQLiteRun.create now clock runId state limits observation = .ok self)
    (hl : limits.outputTokens = some limit) : Tracked a loads truth limit [] { store := self } := by
  obtain ⟨id, text, seen, hdb, -⟩ := create_ok h
  exact tracked_start (booked_fresh (hdb ▸ capped_fresh hl) (by rw [hdb]; rfl) (by rw [hdb]; rfl))

theorem tracked_seen (ht : Tracked a loads truth limit [] { store := self }) {turns : List Turn}
    (hturns : ∀ turn ∈ turns, turn.Adapted a loads truth) :
    Tracked a loads truth limit (Process.seen runtimes self turns)
      (Process.after runtimes { store := self } turns) := by
  rw [← watch_after]
  exact tracked_after ht hturns

/-- Of all tasks on a run with an output limit, through crashes and recoveries: each request that
is sent allows what was reserved for its operation, within the limit of the adapter and every
ceiling that was set, no operation is sent twice, and what is generated stays within the limit
of the run. -/
theorem generated_output_stays_within_the_cap {now : ℚ} {clock : Clock} {runId state : Dyn String}
    {limits : RunLimits} {observation : Option (Dyn String)}
    (h : SQLiteRun.create now clock runId state limits observation = .ok self)
    (hl : limits.outputTokens = some limit) (a : DeepSeekAdapter) (loads : Loads)
    (truth : String → Int) (runtimes : Nat → Runtime) (turns : List Turn)
    (hturns : ∀ turn ∈ turns, turn.Adapted a loads truth)
    (hobeyed : Obeyed a loads truth (Process.seen runtimes self turns)) :
    (∀ k o request p digest, (k, o, request) ∈ sentOf (Process.seen runtimes self turns) →
      a.prepare loads request = .ok (p, digest) →
      (∃ reservation : OutputReservation,
        (Process.after runtimes { store := self } turns).store.db.outputReservations.lookup o =
          some ⟨o, reservation.toReservationFields⟩ ∧ reservation.tokens = p.maxTokens) ∧
      request.maxOutputTokens = some p.maxTokens ∧ p.maxTokens ≤ a.maxTokens ∧
      ∀ prior prepared c, ⟨.ask (.prepareRequest prior), .ok prepared⟩ ∈
          speechOf (Process.seen runtimes self turns) k →
        prepared.maxOutputTokens = some c → p.maxTokens ≤ c) ∧
    ((a.posts loads (Process.seen runtimes self turns)).map fun g => g.2.1).Nodup ∧
    ((a.posts loads (Process.seen runtimes self turns)).map fun g => truth g.2.1).sum ≤ limit := by
  have ht : Tracked a loads truth limit (Process.seen runtimes self turns)
      (Process.after runtimes { store := self } turns) := tracked_seen (tracked_created h hl) hturns
  refine ⟨fun k o request p digest hg hp => ?_, ht.posts_nodup, ht.within hobeyed⟩
  obtain ⟨reservation, hrow, htokens, hceiling, hadapter⟩ := ht.allows hg hp
  exact ⟨⟨reservation, Table.lookup_of_mem hrow, htokens⟩, hceiling, hadapter,
    (ht.sent _ hg).ceilings _ hceiling⟩

/-! ## A sample -/

/-- A runtime with one tool that plans its output. -/
def plannedRuntime : Runtime where
  tools := ⟨[{ name := "read", description := "Reads a file", parametersJson := "schema" }],
    by simp, by simp⟩
  grants := ["read"]
  guards := []
  guardsDistinct := List.nodup_nil
  plansOutput := true
  preparesRequest := true
  notifies := false

/-- The adapter plans, and every POST times out. -/
def plannedReply : (q : Ask) → q.Answer
  | .planOutput request available => sampleAdapter.planOutput request available
  | .generate _ request =>
    (sampleAdapter.generate sampleLoads keepNothing none request .timedOut).outcome.map Dyn.typed
  | q => sampleReply q

/-- A step up to the answer of its inference, and a crash before it is reported. -/
def plannedTurns : List Turn :=
  .begin 0 (.step "goal" none) ::
    (List.replicate 14 [.resume ⟨0, 0⟩ plannedReply, .answer 0 plannedReply]).flatten ++ [.die]

def plannedStore : SQLiteRun := sampleRun (sampleLimits none (some 10) (by decide))


/-- The request that is sent. -/
def plannedRequest : InferenceRequest :=
  { readRequest with objective := "goal", base := ⟨0, "draft"⟩, maxOutputTokens := some 10 }

def plannedSeen : List Observation :=
  Process.seen (fun _ => plannedRuntime) plannedStore plannedTurns

theorem planned_sent : sentOf plannedSeen = [(0, "op", plannedRequest)] := by
  decide +kernel

theorem planned_prepared : ∃ digest, sampleAdapter.prepare sampleLoads plannedRequest =
    .ok (sampleAdapter.body plannedRequest
      [⟨"read", "Reads a file", [("type", .str "object")]⟩] 10, digest) := by
  have hfunctions : sampleAdapter.functions sampleLoads plannedRequest =
      .ok [⟨"read", "Reads a file", [("type", .str "object")]⟩] := rfl
  have hsent := prepare_eq hfunctions
  rw [if_neg (by decide), if_neg (by decide)] at hsent
  exact ⟨_, hsent.trans (if_neg (by decide +kernel))⟩

theorem plannedReply_adapted : (∀ request available,
    plannedReply (.planOutput request available) = sampleAdapter.planOutput request available) ∧
    ∀ o request, sampleAdapter.Answers sampleLoads (fun _ => 10) o request
      (plannedReply (.generate o request)) := by
  refine ⟨fun _ _ => rfl, fun o request => ⟨keepNothing, none, .timedOut, rfl, ?_⟩⟩
  rintro _ n - ⟨_, _, _, he, -⟩
  cases he

theorem planned_adapted : ∀ turn ∈ plannedTurns,
    turn.Adapted sampleAdapter sampleLoads fun _ => 10 := by
  intro turn hturn
  simp only [plannedTurns, List.cons_append, List.mem_cons, List.mem_append, List.mem_flatten,
    List.mem_replicate, List.not_mem_nil, or_false] at hturn
  rcases hturn with rfl | ⟨round, ⟨-, rfl⟩, hturn⟩ | rfl
  · trivial
  · simp only [List.mem_cons, List.not_mem_nil, or_false] at hturn
    rcases hturn with rfl | rfl <;> exact plannedReply_adapted
  · trivial

theorem planned_obeyed : Obeyed sampleAdapter sampleLoads (fun _ => 10) plannedSeen := by
  intro g hg sent hp
  rw [planned_sent, List.mem_singleton] at hg
  obtain ⟨digest, hprepared⟩ := planned_prepared
  subst hg
  rw [hprepared] at hp
  cases hp
  exact ⟨by decide, le_refl _⟩

/-- The one request that is sent may take the whole limit. -/
theorem generated_output_stays_within_the_cap_sample :
    (sampleAdapter.posts sampleLoads plannedSeen).length = 1 ∧
      ((sampleAdapter.posts sampleLoads plannedSeen).map fun _ => 10).sum ≤ (10 : Int) := by
  refine ⟨?_, (generated_output_stays_within_the_cap (create_sample
    (sampleLimits none (some 10) (by decide))) rfl sampleAdapter sampleLoads (fun _ => 10)
    (fun _ => plannedRuntime) plannedTurns planned_adapted planned_obeyed).2.2⟩
  obtain ⟨digest, hprepared⟩ := planned_prepared
  unfold DeepSeekAdapter.posts
  rw [planned_sent, List.filter_cons_of_pos (by rw [hprepared]; rfl)]
  rfl

end FlynnAgents
