-- The trace of a step in the file. When nobody else writes to the run, the
-- events of its operation tell how far it came, and the last one how it
-- ended.
import FlynnAgents.Course
import FlynnAgents.Authority

namespace FlynnAgents

open Programs Relational

variable {world : Nat → Beat} {s base : Scene} {o : String} {rt : Runtime} {self : SQLiteRun}

/-- What the file tells of the operation of a step that ended with `r`. -/
structure Traced (guards : List DispatchGuard) (o : String) (r : Except Exn StepResult)
    (s : Scene) (marks : List Mark) (stage : Stage) : Prop where
  conforms : Conforms guards marks
  stands : s.store.db.At o stage
  boundaries : ∀ m ∈ marks, Boundary s.store.db o m
  returned : ∀ result, r = .ok result → stage = .completed ∧
    s.store.db.events o = marks.map Mark.event ∧
    ∃ name, marks = script guards name (if result.committed then .committed else .observed)
  raised : ∀ e, r = .error e →
    (stage = .failed ∨ stage = .dispatched ∨ stage = .returned ∨ stage = .completed) ∧
    ∃ label, s.store.db.events o = marks.map Mark.event ++
      [(if stage = .dispatched then Mark.effectUnknown label else .failed label).event]
  answered : ∀ tool arguments output,
    ⟨.ask (.execute o tool arguments), .ok (.typed output)⟩ ∈ s.said →
      stage = .returned ∨ stage = .completed

theorem Steady.answers (h : Steady s) {stage : Stage} (hat : s.store.db.At o stage) (tool : Tool)
    (arguments output : String)
    (hm : ⟨.ask (.execute o tool arguments), .ok (.typed output)⟩ ∈ s.said) :
    stage = .returned ∨ stage = .completed := by
  rcases h.answered o ⟨tool, arguments, output, hm⟩ with h' | h'
  · exact .inl (at_unique hat h')
  · exact .inr (at_unique hat h')

/-- When nobody else writes, a program of the runtime leaves the outcome. -/
theorem plays_outcome {ε α : Type} (hw : Quiet world) {x : Flow ε α} {p : Phase}
    {Q : Except ε α → Phase → Prop} (hx : phases.wp x p Q) :
    Plays world x s fun _ s' => s'.store.db.run.outcome = s.store.db.run.outcome := by
  have hstep : ∀ p q (s' : Scene), phases.allowed p q →
      s'.store.db.run.outcome = s.store.db.run.outcome →
        phases.possible p q (Scene.answer world q s').1 ∧
          (Scene.answer world q s').2.store.db.run.outcome = s.store.db.run.outcome := by
    intro p q s' hp hs
    refine ⟨trivial, ?_⟩
    cases q with
    | store c => exact (call_outcome hp (world s'.turn).clock).trans hs
    | ask a =>
      change (s'.meanwhile world a).db.run.outcome = _
      rw [meanwhile_quiet hw]
      exact hs
  obtain ⟨-, -, h⟩ := Protocol.wp_run (Scene.answer world)
    (fun _ s' => s'.store.db.run.outcome = s.store.db.run.outcome) hstep hx rfl
  exact h

/-- The course of a step tells the trace of the operation that it started. -/
theorem Course.traced {r : Except Exn StepResult} (h : Course rt world base r s)
    (hquiet : s.store.db.run.outcome = base.store.db.run.outcome) (ho : o ∈ s.starts)
    (hnew : o ∉ base.starts) : ∃ marks stage, Traced rt.guards o r s marks stage := by
  cases h with
  | waited hu | unstarted hu =>
    rw [hu.starts] at ho
    exact absurd ho hnew
  | @finished i result _ hf =>
    obtain ⟨name, hp⟩ := hf
    rw [hp.starts, List.mem_append, List.mem_singleton] at ho
    obtain rfl := ho.resolve_left hnew
    refine ⟨script rt.guards name (if result.committed then .committed else .observed),
      .completed, ?_, hp.stands, hp.boundaries, fun result' he => ?_, fun e he => ?_,
      hp.steady.answers hp.stands⟩
    · refine .allowed ?_ List.prefix_rfl
      cases result.committed
      · exact .inr rfl
      · exact .inl rfl
    · cases he
      exact ⟨rfl, hp.events, name, rfl⟩
    · cases he
  | @stopped i f e _ hs =>
    obtain ⟨marks, stage, hc, hrun, htool, hst | ⟨hst, hne⟩⟩ := hs.stand
    · rw [hst.starts, List.mem_append, List.mem_singleton] at ho
      obtain rfl := ho.resolve_left hnew
      refine ⟨marks, stage.afterFailure, hc, hst.stands,
        fun m hm => hst.boundaries m (List.mem_append_left _ hm), fun result he => ?_,
        fun e' _ => ⟨?_, f.1, ?_⟩, hs.steady.answers hst.stands⟩
      · cases he
      · revert hrun
        cases stage <;> simp [Stage.afterFailure]
      · have hend : ending f.1 = if stage.afterFailure = .dispatched then .effectUnknown f.1
            else .failed f.1 := by
          unfold ending
          simp only [htool]
          cases stage <;> rfl
        rw [hst.events, List.map_append, hend]
        rfl
    · rw [hquiet, hst.opened] at hne
      exact absurd rfl hne

/-- In every step that started an operation while nobody else wrote to the
run, whatever the application answered or raised and wherever: the events of
the operation are the first ones of the script of a step, every event stands for
a boundary that was crossed, and the last event is a failure exactly when the
step raised. It says that the effect is unknown exactly when the operation was
left dispatched, and a tool that returned a text leaves the operation returned
or completed. -/
theorem events_tell_the_step {now : ℚ} {clock : Clock} {self : SQLiteRun}
    {runId state : Dyn String} {limits : RunLimits} {observation : Option (Dyn String)}
    (h : SQLiteRun.create now clock runId state limits observation = .ok self)
    (calls : List Timed) (hopen : (self.after calls).handle.isSome = true) (rt : Runtime)
    (objective : String) (grants : Option (List String)) (world : Nat → Beat)
    (hw : Quiet world) {o : String} (hstart : o ∈
      ((rt.step objective grants).run (Scene.answer world)
        { store := self.after calls }).2.starts) :
    ∃ marks stage, Traced rt.guards o
      ((rt.step objective grants).run (Scene.answer world) { store := self.after calls }).1
      ((rt.step objective grants).run (Scene.answer world) { store := self.after calls }).2
      marks stage := by
  have hsteady := steady_created h calls hopen
  have hcourse := (hsteady.step hw.onlyFinishes rt objective grants).run
  exact hcourse.traced (plays_outcome hw Runtime.wp_step).run hstart List.not_mem_nil

theorem events_tell_the_step_sample :
    ∃ marks stage, Traced guardedRuntime.guards "op"
      ((guardedRuntime.step "goal" none).run (Scene.answer guardedBeat) { store := sampleStore }).1
      ((guardedRuntime.step "goal" none).run (Scene.answer guardedBeat) { store := sampleStore }).2
      marks stage := by
  have hstart : "op" ∈ ((guardedRuntime.step "goal" none).run (Scene.answer guardedBeat)
      { store := sampleStore }).2.starts := by decide +kernel
  have hopen : (sampleStore.after []).handle.isSome = true := by decide +kernel
  exact events_tell_the_step create_sampleStore [] hopen guardedRuntime "goal" none guardedBeat
    (fun _ _ hi => absurd hi List.not_mem_nil) hstart

end FlynnAgents
