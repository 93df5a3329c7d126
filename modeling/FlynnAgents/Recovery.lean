-- A process that dies in a step. It makes its requests one by one and may
-- die between any two of them, and the next process finds what it left in
-- the file. Here: what it leaves, and how its step would have gone on.
import FlynnAgents.EffectLaws
import FlynnAgents.Publication

namespace FlynnAgents

open Relational Programs

/-! ## One process -/

/-- What a process meets at one request: the readings of the clocks, and how
the application answers. -/
structure Moment where
  clock : Clock
  reply : (a : Ask) → a.Answer

/-- A process on the run: its store, the number of its requests, and what it
asked the application. -/
structure Trace where
  store : SQLiteRun
  requests : Nat := 0
  asked : List Ask := []

/-- One request is answered. -/
def Trace.answer (world : Nat → Moment) (q : Req) (tr : Trace) : q.Answer × Trace :=
  match q with
  | .store call =>
    (call.answer (world tr.requests).clock tr.store, {
      store := (exec ⟨(world tr.requests).clock, call⟩ tr.store).2
      requests := tr.requests + 1
      asked := tr.asked })
  | .ask a =>
    ((world tr.requests).reply a, {
      store := tr.store
      requests := tr.requests + 1
      asked := tr.asked ++ [a] })

variable {handle : Handle} {clock : Clock} {self : SQLiteRun} {t t' old : Tables} {call : Call}
  {p : Phase} {o : String} {c : Candidate} {evaluator : Candidate → Evaluation}
  {world : Nat → Moment} {tr : Trace}

/-- A process has made calls on its store. -/
theorem drive_after {ε α : Type} (x : Flow ε α) (n : Nat) (tr : Trace) :
    ∃ calls, (x.drive (Trace.answer world) n tr).2.store = tr.store.after calls := by
  induction n generalizing x tr with
  | zero => exact ⟨[], rfl⟩
  | succ n ih =>
    rcases x with r | ⟨call | a, next⟩
    · exact ⟨[], rfl⟩
    · obtain ⟨calls, hc⟩ := ih (next (Trace.answer world (.store call) tr).1)
        (Trace.answer world (.store call) tr).2
      exact ⟨⟨(world tr.requests).clock, call⟩ :: calls, hc⟩
    · exact ih (next ((world tr.requests).reply a)) (Trace.answer world (.ask a) tr).2

/-! ## The operation of a step -/

/-- The output of the operation is in the file, and `c` is its candidate. -/
def Tables.Kept (t : Tables) (o : String) (c : Candidate) : Prop :=
  ∃ row, t.operation? o = some row ∧ row.stage = .returned ∧ row.candidate = .ok c

/-- The operation is new, and no other is under way. -/
structure Alone (old : Tables) (o : String) (t : Tables) : Prop where
  fresh : old.operation? o = none
  only : ∀ {i}, old.operation? i = none → (t.operation? i).isSome = true → i = o
  isOpen : t.run.outcome = none
  live : ∀ {i row}, t.operation? i = some row → row.stage.live = true → i = o

theorem Alone.change (h : Alone old o t) (hc : Change handle clock t call t')
    (hs : ∀ i request output guards, call ≠ .start i request output guards)
    (hf : ∀ text, call ≠ .finish text) : Alone old o t' where
  fresh := h.fresh
  only := by
    intro i hn hi
    rcases (hc.started_iff i).mp hi with hi | hm
    · exact h.only hn hi
    · obtain ⟨_, _, _, hcall⟩ := mem_reserves_inference hm
      exact absurd hcall (hs _ _ _ _)
  isOpen := (hc.outcome hf).trans h.isOpen
  live := by
    intro i row hr hl
    rcases hc.live hr hl with ⟨row₀, hr₀, hl₀⟩ | ⟨_, _, _, hcall⟩
    · exact h.live hr₀ hl₀
    · exact absurd hcall (hs _ _ _ _)

theorem alone_start {request : InferenceRequest} {output : Option (Dyn OutputReservation)}
    {guards : Dyn (List String)} (hknown : ∀ i, t.operation? i = none ↔ old.operation? i = none)
    (hc : Change handle clock t (.start o request output guards) t') : Alone old o t' where
  fresh := (hknown o).mp hc.fresh
  only := by
    intro i hn hi
    rcases (hc.started_iff i).mp hi with hi | hm
    · rw [(hknown i).mpr hn] at hi
      cases hi
    · simpa [Call.reserves] using hm
  isOpen := by
    rw [hc.outcome (by simp)]
    cases hc with
    | start _ _ _ timely => exact timely.isOpen
  live := by
    intro i row hr hl
    rcases hc.live hr hl with ⟨row₀, hr₀, hl₀⟩ | ⟨_, _, _, hcall⟩
    · rw [hc.quiet hr₀] at hl₀
      cases hl₀
    · cases hcall
      rfl

/-- Where the operation stands in a phase of the step that started it. -/
def Standing (evaluator : Candidate → Evaluation) (o : String) (t : Tables) : Phase → Prop
  | .idle => False
  | .started i | .reporting i _ | .inferred i => i = o ∧ ¬ t.Spent o
  | .dispatched i _ | .executed i => i = o ∧ t.At o .dispatched
  | .returned c => t.Kept o c
  | .evaluated c e => t.Kept o c ∧ e = .typed (evaluator c)
  | .finished _ => t.At o .completed

/-- The calls that lead to a stage after the dispatch. -/
def Call.advances : Call → Bool
  | .dispatch .. | .returned .. | .complete _ => true
  | _ => false

theorem Moves.keeps_candidate {row row' : OperationRow} (h : Moves o call row row')
    (hs : row.stage = .returned) (ha : call.advances = false) :
    row'.stage = .returned ∧ row'.candidate = row.candidate := by
  cases h with
  | failed => exact ⟨by simp [hs, Stage.afterFailure], rfl⟩
  | proposed h =>
    rw [hs] at h
    cases h
  | abandoned h => rcases h with h | h <;> rw [hs] at h <;> cases h
  | _ => cases ha

theorem Tables.Kept.change (hk : t.Kept o c) (hc : Change handle clock t call t')
    (ha : call.advances = false) : t'.Kept o c := by
  obtain ⟨row, hr, hs, hcand⟩ := hk
  rcases hc.lookup o with ⟨-, he⟩ | ⟨hn, -⟩ | ⟨row₀, row', hr₀, hr', hm⟩
  · exact ⟨row, he.trans hr, hs, hcand⟩
  · rw [hr] at hn
    cases hn
  · rw [hr] at hr₀
    cases hr₀
    obtain ⟨hs', hcand'⟩ := hm.keeps_candidate hs ha
    exact ⟨row', hr', hs', hcand'.trans hcand⟩

/-- Other calls leave the operation where it stands. -/
theorem Standing.change (hs : Standing evaluator o t p) (hc : Change handle clock t call t')
    (ha : call.advances = false) : Standing evaluator o t' p := by
  have hspent : ¬ t.Spent o → ¬ t'.Spent o := by
    intro hn hsp
    rcases (hc.spent_iff o).mp hsp with hsp | hm
    · exact hn hsp
    · obtain ⟨_, _, rfl⟩ := mem_reserves_tool hm
      cases ha
  have hat : ∀ {stage : Stage}, stage.spent = true → t.At o stage → t'.At o stage := by
    intro stage hsp hat
    rcases hc.stays hsp hat with hat | ⟨-, _, rfl⟩ | ⟨-, _, rfl, -⟩
    · exact hat
    · cases ha
    · cases ha
  cases p with
  | idle => exact hs
  | started | reporting | inferred => exact ⟨hs.1, hspent hs.2⟩
  | dispatched | executed => exact ⟨hs.1, hat rfl hs.2⟩
  | returned => exact hs.change hc ha
  | evaluated => exact ⟨hs.1.change hc ha, hs.2⟩
  | finished => exact hat rfl hs

theorem standing_exec (hs : Standing evaluator o self.db p) (i : Timed)
    (ha : i.call.advances = false) : Standing evaluator o (exec i self).2.db p := by
  rcases exec_cases i self with ⟨⟨handle, t', -, hc, he⟩, -⟩ | ⟨he, -⟩
  · rw [he]
    exact hs.change hc ha
  · rwa [he]

/-- A call that raises has changed nothing, but for a late raise. -/
theorem unchanged_of_error {e : Exn} (hl : call.raisesLate = false)
    (h : call.answer clock self = .error e) : (exec ⟨clock, call⟩ self).2.db = self.db := by
  rcases exec_cases ⟨clock, call⟩ self with ⟨-, hok⟩ | ⟨he, -⟩
  · have hok : (call.answer clock self).isOk = true := hok hl
    rw [h] at hok
    cases hok
  · exact he

/-- A task that is not idle stays in its phase by a quiet call. -/
theorem next_quiet (hq : call.isQuiet = true) (hp : p ≠ .idle) (x : Except Exn call.Result) :
    p.next (.store call) x = p := by
  cases p with
  | idle => exact absurd rfl hp
  | _ => cases call <;> first | (cases hq; done) | rfl

/-- The step of an operation stays in its phase, or goes on from a report. -/
theorem next_standing (hp : p.mayCall call) (hs : Standing evaluator o t p)
    (ha : call.advances = false) (x : Except Exn call.Result) :
    Standing evaluator o t (p.next (.store call) x) := by
  have hquiet : call.isQuiet = true → p.next (.store call) x = p := by
    refine fun hq => next_quiet hq ?_ x
    rintro rfl
    exact hs
  cases p with
  | idle => exact hs.elim
  | reporting i u =>
    have hp : call = .recordUsage i (.typed u) := hp
    subst hp
    exact hs
  | inferred i =>
    rcases hp with hq | rfl | ⟨_, rfl⟩ | ⟨_, _, rfl⟩ | ⟨_, _, rfl⟩
    · exact (hquiet hq).symm ▸ hs
    · exact hs
    · exact hs
    · exact hs
    · cases ha
  | executed i =>
    rcases hp with hq | ⟨_, rfl⟩
    · exact (hquiet hq).symm ▸ hs
    · cases ha
  | evaluated c e =>
    rcases hp with hq | rfl
    · exact (hquiet hq).symm ▸ hs
    · cases ha
  | started | dispatched | returned | finished => exact (hquiet hp).symm ▸ hs

/-- A call of the step leads its operation to where its next phase stands. -/
theorem Standing.calls (hl : Ledger self.db) (hone : Alone old o self.db)
    (hs : Standing evaluator o self.db p) (hp : p.mayCall call) :
    Standing evaluator o (exec ⟨clock, call⟩ self).2.db
      (p.next (.store call) (call.answer clock self)) := by
  cases ha : call.advances with
  | false =>
    have hkept := standing_exec hs ⟨clock, call⟩ ha
    exact next_standing hp hkept ha _
  | true =>
    rcases hx : call.answer clock self with e | x
    · -- A call that raises leaves the phase, and the file.
      have hsame : Standing evaluator o (exec ⟨clock, call⟩ self).2.db p := by
        cases call with
        | dispatch | complete => exact (unchanged_of_error rfl hx).symm ▸ hs
        | returned i output =>
          rcases exec_cases ⟨clock, .returned i output⟩ self with ⟨hc, -⟩ | ⟨he, -⟩
          · obtain ⟨_, _, hx', -⟩ := returned_answers hl hc
            rw [hx] at hx'
            cases hx'
          · exact he.symm ▸ hs
        | _ => cases ha
      cases p <;> cases call <;> exact hsame
    · have hok := ok_of_answer hx
      cases call with
      | dispatch i observation externalAction =>
        obtain rfl : p = .inferred i := by
          cases p <;> simp_all [Phase.mayCall, Call.isQuiet]
        exact ⟨hs.1, hs.1 ▸ (fits_dispatch hok).1⟩
      | returned i output =>
        obtain rfl : p = .executed i := Phase.returned_executed hp
        rcases exec_cases ⟨clock, .returned i output⟩ self with ⟨hc, -⟩ | ⟨-, hno⟩
        · obtain ⟨row, c, hx', hr, hst, hcand⟩ := returned_answers hl hc
          rw [hx] at hx'
          cases hx'
          exact ⟨row, hs.1 ▸ hr, hst, hcand⟩
        · rw [hno rfl] at hok
          cases hok
      | complete e =>
        obtain ⟨c, rfl⟩ : ∃ c, p = .evaluated c e := by
          cases p <;> simp_all [Phase.mayCall, Call.isQuiet]
        obtain ⟨⟨row, hr, hst, -⟩, rfl⟩ := hs
        obtain ⟨handle, t', -, hc, he⟩ := commits_of_ok rfl hok
        rw [he]
        have hid : (evaluator c).candidate.id = o := by
          cases hc with
          | complete _ operation stage => exact hone.live operation (by rw [stage]; rfl)
        exact (hc.completed_iff o).mpr (.inr ⟨_, rfl, hid⟩)
      | _ => cases ha

/-! ## The invariant of a step -/

/-- What holds while a step that began on the tables `old` makes its requests:
no operation started yet, or the one that did stands in the phase. -/
inductive Stepping (evaluator : Candidate → Evaluation) (old : Tables) (p : Phase) (tr : Trace) :
    Prop where
  | before (hknown : ∀ i, tr.store.db.operation? i = none ↔ old.operation? i = none)
      (hp : p.claim = none) (hasked : ∀ i tool arguments, .execute i tool arguments ∉ tr.asked)
  | within (o : String) (hone : Alone old o tr.store.db)
      (hs : Standing evaluator o tr.store.db p)
      (hasked : ∀ i tool arguments, .execute i tool arguments ∈ tr.asked →
        i = o ∧ tr.store.db.Spent o)

/-- No call but a start makes an operation known. -/
theorem known_exec {i : Timed}
    (hc : ∀ o request output guards, i.call ≠ .start o request output guards) (k : String) :
    (exec i self).2.db.operation? k = none ↔ self.db.operation? k = none := by
  rcases exec_cases i self with ⟨⟨handle, t', -, h, he⟩, -⟩ | ⟨he, -⟩
  · rw [he]
    have hiff : (t'.operation? k).isSome = true ↔ (self.db.operation? k).isSome = true := by
      rw [h.started_iff]
      refine ⟨fun hor => hor.resolve_right fun hm => ?_, .inl⟩
      obtain ⟨_, _, _, hcall⟩ := mem_reserves_inference hm
      exact hc _ _ _ _ hcall
    simpa [Option.isSome_iff_ne_none] using not_congr hiff
  · rw [he]

theorem Calls.unclaimed {x : Except Exn call.Result} {p' : Phase} (h : Calls p call x p')
    (hp : p.claim = none)
    (hc : ∀ o request output guards, call ≠ .start o request output guards) :
    p'.claim = none := by
  cases h with
  | stays | fails => exact hp
  | starts => exact absurd rfl (hc _ _ _ _)
  | reports h | dispatches h =>
    rw [h] at hp
    cases hp
  | returns | finishes => rfl

theorem alone_exec (hone : Alone old o self.db) (i : Timed)
    (hs : ∀ k request output guards, i.call ≠ .start k request output guards)
    (hf : ∀ text, i.call ≠ .finish text) : Alone old o (exec i self).2.db := by
  rcases exec_cases i self with ⟨⟨handle, t', -, hc, he⟩, -⟩ | ⟨he, -⟩
  · rw [he]
    exact hone.change hc hs hf
  · rwa [he]

/-- Only an idle task starts an operation. -/
theorem start_idle {request : InferenceRequest} {output : Option (Dyn OutputReservation)}
    {guards : Dyn (List String)} (hp : p.mayCall (.start o request output guards)) : p = .idle := by
  cases p <;> simp_all [Phase.mayCall, Call.isQuiet]

/-- A call keeps the invariant. -/
theorem Stepping.calls (hl : Ledger tr.store.db) (h : Stepping evaluator old p tr)
    (hp : p.mayCall call) :
    Stepping evaluator old (p.next (.store call) (Trace.answer world (.store call) tr).1)
      (Trace.answer world (.store call) tr).2 := by
  set clock := (world tr.requests).clock
  cases h with
  | before hknown hclaim hasked =>
    by_cases hstart : ∃ o request output guards, call = .start o request output guards
    · obtain ⟨o, request, output, guards, rfl⟩ := hstart
      obtain rfl := start_idle hp
      rcases hx : Call.answer (.start o request output guards) clock tr.store with e | u
      · have hsame := unchanged_of_error rfl hx
        refine .before (fun i => ?_) ?_ hasked
        · exact hsame.symm ▸ hknown i
        · simp only [Trace.answer, clock, hx]
          rfl
      · obtain ⟨handle, t', -, hc, he⟩ := commits_of_ok rfl (ok_of_answer hx)
        have hone : Alone old o t' := alone_start hknown hc
        refine .within o ?_ ?_ fun i tool arguments hm => absurd hm (hasked i tool arguments)
        · simpa only [Trace.answer, clock, he] using hone
        · have hunspent : ¬ t'.Spent o := by
            intro hsp
            rcases (hc.spent_iff o).mp hsp with ⟨row, hr, -⟩ | hm
            · rw [hc.fresh] at hr
              cases hr
            · simp [Call.reserves] at hm
          simp only [Trace.answer, clock, hx, he]
          exact ⟨rfl, hunspent⟩
    · have hc : ∀ o request output guards, call ≠ .start o request output guards :=
        fun o request output guards h => hstart ⟨o, request, output, guards, h⟩
      refine .before (fun i => ?_) ((calls_next hp _).unclaimed hclaim hc) hasked
      exact (known_exec (i := ⟨clock, call⟩) hc i).trans (hknown i)
  | within o hone hs hasked =>
    have hidle : p ≠ .idle := by
      rintro rfl
      exact hs
    refine .within o ?_ (hs.calls hl hone hp) fun i tool arguments hm => ?_
    · refine alone_exec hone ⟨clock, call⟩ ?_ (mayCall_ne hp).2.2
      rintro i request output guards rfl
      exact hidle (start_idle hp)
    · obtain ⟨rfl, hsp⟩ := hasked i tool arguments hm
      exact ⟨rfl, spent_exec _ hsp⟩

/-- An answer of the application keeps the invariant, when it evaluates as the
evaluator does. -/
theorem Stepping.asks {a : Ask} (h : Stepping evaluator old p tr) (hp : p.mayAsk a)
    (hworld : ∀ n c, (world n).reply (.evaluate c) = .ok (.typed (evaluator c))) :
    Stepping evaluator old (p.next (.ask a) (Trace.answer world (.ask a) tr).1)
      (Trace.answer world (.ask a) tr).2 := by
  cases h with
  | before hknown hclaim hasked =>
    refine .before hknown ?_ fun i tool arguments hm => ?_
    · by_contra hne
      obtain ⟨o, ho⟩ := Option.ne_none_iff_exists'.mp hne
      rw [claim_ask _ ho] at hclaim
      cases hclaim
    · rcases List.mem_append.mp hm with hm | hm
      · exact hasked i tool arguments hm
      · obtain rfl := List.mem_singleton.mp hm
        have hd : p = .dispatched i tool.externalAction := hp
        rw [hd] at hclaim
        cases hclaim
  | within o hone hs hasked =>
    have hspent : ∀ {stage : Stage}, stage.spent = true → tr.store.db.At o stage →
        tr.store.db.Spent o := fun hsp ⟨row, hr, hst⟩ => ⟨row, hr, hst ▸ hsp⟩
    refine .within o hone ?_ fun i tool arguments hm => ?_
    · change Standing evaluator o tr.store.db (p.next (.ask a) ((world tr.requests).reply a))
      cases a with
      | generate i request =>
        obtain rfl : p = .started i := hp
        simp only [Phase.next]
        split <;> exact hs
      | execute i tool arguments =>
        obtain rfl : p = .dispatched i tool.externalAction := hp
        exact hs
      | evaluate c =>
        obtain rfl : p = .returned c := hp
        simp only [hworld]
        exact ⟨hs, rfl⟩
      | acquire =>
        obtain rfl : p = .idle := hp
        exact hs.elim
      | _ => cases p <;> exact hs
    · rcases List.mem_append.mp hm with hm | hm
      · exact hasked i tool arguments hm
      · obtain rfl := List.mem_singleton.mp hm
        have hd : p = .dispatched i tool.externalAction := hp
        rw [hd] at hs
        exact ⟨hs.1, hspent rfl hs.2⟩

/-- Where a step is after any number of its requests. -/
theorem stepping_drive (rt : Runtime) (objective : String) (grants : Option (List String))
    (hl : Ledger self.db)
    (hworld : ∀ n c, (world n).reply (.evaluate c) = .ok (.typed (evaluator c))) (n : Nat) :
    ∃ p, phases.wp ((rt.step objective grants).drive (Trace.answer world) n ⟨self, 0, []⟩).1 p
        (Ends fun result p => p = .finished result) ∧
      Stepping evaluator self.db p
        ((rt.step objective grants).drive (Trace.answer world) n ⟨self, 0, []⟩).2 := by
  have hstart : Stepping evaluator self.db .idle ⟨self, 0, []⟩ :=
    .before (fun _ => Iff.rfl) rfl fun _ _ _ hm => by cases hm
  have hkeeps : ∀ p q tr, phases.allowed p q →
      Ledger tr.store.db ∧ Stepping evaluator self.db p tr →
      phases.possible p q (Trace.answer world q tr).1 ∧
        Ledger (Trace.answer world q tr).2.store.db ∧
        Stepping evaluator self.db (phases.next p q (Trace.answer world q tr).1)
          (Trace.answer world q tr).2 := by
    rintro p (call | a) tr hp ⟨hl, hs⟩
    · exact ⟨trivial, hl.exec ⟨(world tr.requests).clock, call⟩, hs.calls hl hp⟩
    · exact ⟨trivial, hl, hs.asks hp hworld⟩
  obtain ⟨p, hwp, -, hs⟩ := Protocol.wp_drive (Trace.answer world) _ hkeeps Runtime.wp_step
    ⟨hl, hstart⟩ n
  exact ⟨p, hwp, hs⟩

/-! ## The end of a step -/

/-- The output is still in the file, and nothing is published since `old`. -/
structure Waiting (old : Tables) (o : String) (c : Candidate) (t : Tables) : Prop where
  kept : t.Kept o c
  evaluations : t.evaluations = old.evaluations
  commits : t.commits = old.commits
  initialState : t.run.initialState = old.run.initialState
  reservations : t.reservations = old.reservations

/-- The evaluation of the output is published on `old`, and gave the result. -/
structure Done (old : Tables) (o : String) (c : Candidate) (e : Evaluation) (r : StepResult)
    (t : Tables) : Prop where
  completed : t.At o .completed
  checked : checkEvaluation c e = .ok ()
  result : r = e.result old.read
  evaluated : old.evaluations.insert ⟨c.id, e, e.digest⟩ = some t.evaluations
  committed : old.commits.insertAll (commitRows old.read c e) = some t.commits
  initialState : t.run.initialState = old.run.initialState
  reservations : t.reservations = old.reservations

theorem Waiting.read (h : Waiting old o c t) : t.read = old.read := by
  simp only [Tables.read, h.commits, h.initialState]

/-- The calls that a task makes in any phase publish nothing and reserve
nothing. -/
theorem Change.quiet_rest (hc : Change handle clock t call t') (hq : call.isQuiet = true) :
    t'.evaluations = t.evaluations ∧ t'.commits = t.commits ∧
      t'.run.initialState = t.run.initialState ∧ t'.reservations = t.reservations := by
  cases hc with
  | recordEvent | failed => exact ⟨rfl, rfl, rfl, rfl⟩
  | _ => cases hq

theorem quiet_advances (hq : call.isQuiet = true) : call.advances = false := by
  cases call <;> first | rfl | cases hq

theorem Waiting.change (h : Waiting old o c t) (hc : Change handle clock t call t')
    (hq : call.isQuiet = true) : Waiting old o c t' := by
  obtain ⟨he, hcm, hi, hr⟩ := hc.quiet_rest hq
  exact ⟨h.kept.change hc (quiet_advances hq), he.trans h.evaluations, hcm.trans h.commits,
    hi.trans h.initialState, hr.trans h.reservations⟩

theorem Done.change {e : Evaluation} {r : StepResult} (h : Done old o c e r t)
    (hc : Change handle clock t call t') (hq : call.isQuiet = true) : Done old o c e r t' := by
  obtain ⟨he, hcm, hi, hr⟩ := hc.quiet_rest hq
  refine ⟨?_, h.checked, h.result, he ▸ h.evaluated, hcm ▸ h.committed, hi.trans h.initialState,
    hr.trans h.reservations⟩
  exact (hc.completed_iff o).mpr (.inl h.completed)

/-- Every `complete` that commits publishes in the same way. -/
theorem Waiting.complete {e : Evaluation} (h : Waiting old o c t) (hg : Good t)
    (hc : Change handle clock t (.complete (.typed e)) t') :
    Done old o c e (e.result t.read) t' := by
  obtain ⟨row, hr, hs, hcand⟩ := h.kept
  have hcompleted := hc.completed_iff o
  have hreserves := hc.reserves
  have hread := h.read
  cases hc with
  | @complete _ row' candidate evals commits _ operation stage loaded checked _ evaluated _ _
      committed =>
    have hid : e.candidate.id = o := hg.single operation hr (by rw [stage]; rfl) (by rw [hs]; rfl)
    rw [hid, hr] at operation
    cases operation
    rw [hcand] at loaded
    cases loaded
    refine ⟨hcompleted.mpr (.inr ⟨e, rfl, hid⟩), checked, by rw [hread], ?_, ?_, h.initialState,
      h.reservations⟩
    · rw [← h.evaluations]
      exact evaluated
    · rw [← h.commits, ← hread]
      exact committed

/-- What holds from the moment that the output is in the tables `old`. -/
def Tail (evaluator : Candidate → Evaluation) (old : Tables) (o : String) (c : Candidate)
    (t : Tables) : Phase → Prop
  | .returned c' => c' = c ∧ Waiting old o c t
  | .evaluated c' e => c' = c ∧ e = .typed (evaluator c) ∧ Waiting old o c t
  | .finished r => Done old o c (evaluator c) r t
  | _ => False

theorem tail_exec {i : Timed} (h : Tail evaluator old o c self.db p) (hq : i.call.isQuiet = true) :
    Tail evaluator old o c (exec i self).2.db p := by
  rcases exec_cases i self with ⟨⟨handle, t', -, hc, he⟩, -⟩ | ⟨he, -⟩
  · rw [he]
    cases p with
    | returned => exact ⟨h.1, h.2.change hc hq⟩
    | evaluated => exact ⟨h.1, h.2.1, h.2.2.change hc hq⟩
    | finished => exact Done.change h hc hq
    | _ => exact h
  · rwa [he]

theorem Tail.calls (hg : Good self.db) (h : Tail evaluator old o c self.db p)
    (hp : p.mayCall call) :
    Tail evaluator old o c (exec ⟨clock, call⟩ self).2.db
      (p.next (.store call) (call.answer clock self)) := by
  have hquiet : call.isQuiet = true → Tail evaluator old o c (exec ⟨clock, call⟩ self).2.db
      (p.next (.store call) (call.answer clock self)) := by
    intro hq
    rw [next_quiet hq]
    · exact tail_exec h hq
    · rintro rfl
      exact h
  cases p with
  | returned | finished => exact hquiet hp
  | evaluated c' e =>
    rcases hp with hq | rfl
    · exact hquiet hq
    · obtain ⟨rfl, rfl, hw⟩ := h
      rcases hx : Call.answer (.complete (.typed (evaluator c'))) clock self with e | r
      · have hsame := unchanged_of_error rfl hx
        exact ⟨rfl, rfl, hsame.symm ▸ hw⟩
      · have hcommits := commits_of_ok (i := ⟨clock, .complete (.typed (evaluator c'))⟩) rfl
          (ok_of_answer hx)
        have hrun := complete_ok.mpr ⟨hcommits, rfl⟩
        have hr : r = (evaluator c').result self.db.read := by
          have := congrArg Prod.fst hrun
          exact Except.ok.inj (hx.symm.trans this)
        obtain ⟨handle, t', -, hc, he⟩ := hcommits
        rw [he, hr]
        exact hw.complete hg hc
  | _ => exact h.elim

theorem Tail.asks {a : Ask} (h : Tail evaluator old o c t p) (hp : p.mayAsk a)
    (hworld : ∀ n c, (world n).reply (.evaluate c) = .ok (.typed (evaluator c))) (n : Nat) :
    Tail evaluator old o c t (p.next (.ask a) ((world n).reply a)) := by
  cases a with
  | evaluate c' =>
    obtain rfl : p = .returned c' := hp
    simp only [hworld]
    exact ⟨h.1, h.1 ▸ rfl, h.2⟩
  | generate | execute | check | acquire =>
    have hp : p = _ := hp
    subst hp
    exact h.elim
  | _ => cases p <;> exact h

/-- Where the operation stands when its output is in the file. -/
theorem Standing.tail (hs : Standing evaluator o t p) (hk : t.Kept o c) :
    Tail evaluator t o c t p := by
  have hw : Waiting t o c t := ⟨hk, rfl, rfl, rfl, rfl⟩
  obtain ⟨row, hr, hst, hcand⟩ := hk
  have hsame : ∀ {c'}, t.Kept o c' → c' = c := by
    rintro c' ⟨row', hr', -, hcand'⟩
    rw [hr] at hr'
    cases hr'
    exact Except.ok.inj (hcand'.symm.trans hcand)
  have hat : ∀ {stage}, t.At o stage → stage = .returned := by
    rintro stage ⟨row', hr', rfl⟩
    rw [hr] at hr'
    cases hr'
    exact hst
  cases p with
  | idle => exact hs
  | started | reporting | inferred => exact hs.2 ⟨row, hr, by rw [hst]; rfl⟩
  | dispatched | executed => cases hat hs.2
  | returned c' => exact ⟨hsame hs, hw⟩
  | evaluated c' e =>
    obtain rfl := hsame hs.1
    exact ⟨rfl, hs.2, hw⟩
  | finished => cases hat hs

/-- How a step ends whose output was in the tables `old` at some moment: it
returned the result that it published, or it published nothing. -/
theorem tail_run {x : Flow Exn StepResult} (hl : Ledger tr.store.db)
    (hx : phases.wp x p (Ends fun result p => p = .finished result))
    (h : Tail evaluator old o c tr.store.db p)
    (hworld : ∀ n c, (world n).reply (.evaluate c) = .ok (.typed (evaluator c))) :
    ∃ p', Ends (fun result p => p = .finished result) (x.run (Trace.answer world) tr).1 p' ∧
      Tail evaluator old o c (x.run (Trace.answer world) tr).2.store.db p' := by
  have hkeeps : ∀ p q tr, phases.allowed p q →
      Ledger tr.store.db ∧ Tail evaluator old o c tr.store.db p →
      phases.possible p q (Trace.answer world q tr).1 ∧
        Ledger (Trace.answer world q tr).2.store.db ∧
        Tail evaluator old o c (Trace.answer world q tr).2.store.db
          (phases.next p q (Trace.answer world q tr).1) := by
    rintro p (call | a) tr hp ⟨hl, h⟩
    · exact ⟨trivial, hl.exec ⟨(world tr.requests).clock, call⟩, h.calls hl.good hp⟩
    · exact ⟨trivial, hl, h.asks hp hworld _⟩
  obtain ⟨p', hends, -, htail⟩ := Protocol.wp_run (Trace.answer world) _ hkeeps hx ⟨hl, h⟩
  exact ⟨p', hends, htail⟩

end FlynnAgents
