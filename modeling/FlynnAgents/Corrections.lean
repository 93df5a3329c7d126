-- The corrections of a session. Its rejection policy is asked only after a step
-- that failed before its dispatch, with a rejection that the runtime certifies,
-- and every other exception ends the session.
import FlynnAgents.BreachLaws
import FlynnAgents.SessionBudget
import FlynnAgents.SessionTurns

namespace FlynnAgents

open Programs Prog Relational

variable {world : Nat → Beat} {cues : Nat → Cue} {s : Sitting} {c : Call} {p : Prompt}
  {rt : Runtime} {base scene : Scene} {o : String} {e : Exn} {sn : Session}

/-! ## A certified rejection -/

/-- The step from the scene `base` has raised `e`: its operation `o` has failed
before its dispatch, and nothing was completed. -/
structure Rejected (base : Scene) (o : String) (e : Exn) (s : Scene) : Prop where
  started : s.starts = base.starts ++ [o]
  failed : s.store.db.At o .failed
  inference : s.store.db.reservations.Has (o, .inference)
  tool : ¬ s.store.db.reservations.Has (o, .tool)
  external : ¬ s.store.db.reservations.Has (o, .external)
  unasked : ¬ s.Asked o
  excused : Excused o e s
  completed : s.store.db.completedOperations = base.store.db.completedOperations

theorem failed_unspent {t : Tables} (h : t.At o .failed) : ¬ t.Spent o := by
  obtain ⟨row, hr, hs⟩ := h
  rintro ⟨row', hr', hspent⟩
  rw [hr] at hr'
  cases hr'
  rw [hs] at hspent
  cases hspent

/-- What the runtime certifies is a rejection. -/
theorem Course.rejected (h : Course rt world base (.error e) scene) (hlock : LockCancels world)
    (he : e.isinstance .proposalRejected = true ∨ e.isinstance .inferenceRejected = true)
    (hr : scene.rejected = some e) : ∃ o, Rejected base o e scene := by
  cases h with
  | waited _ n hn =>
    obtain ⟨hp, hi⟩ := isinstance_cancelled (hlock n e hn)
    rw [hp, hi] at he
    simp at he
  | unstarted _ hnone =>
    rw [hnone] at hr
    cases hr
  | @stopped o f _ _ hs =>
    obtain ⟨hsome, -, hcert, hat⟩ : scene.rejected = some f.2 ∧ (e = f.2 ∨ e = timeoutError) ∧
        Certifies f ∧ scene.store.db.At o .failed := by
      refine hs.rejected.resolve_left fun hn => ?_
      rw [hn] at hr
      cases hr
    rw [hr] at hsome
    cases hsome
    obtain ⟨marks, stage, -, -, -, hst⟩ := hs.stand
    obtain ⟨marks', hstand⟩ : ∃ marks', Stand base o marks' stage.afterFailure scene :=
      hst.elim (fun h => ⟨_, h⟩) fun h => ⟨_, h.1⟩
    have hunspent := failed_unspent hat
    have hfollows := hs.steady.regular.follows
    refine ⟨o, hstand.starts, hat, (hfollows.inference o).mpr hstand.known,
      fun ht => hunspent ((hfollows.tool o).mp ht), fun hx => hunspent (hfollows.external o hx),
      fun ha => hunspent (hs.steady.asked o ha), hs.excused hcert, ?_⟩
    rw [hstand.completed, at_unique hstand.stands hat]
    simp

/-- A call that only reads leaves the rejection. -/
theorem Rejected.read (h : Rejected base o e scene) (hr : c.onlyReads = true) :
    Rejected base o e (scene.call world c) := by
  have hstore : (scene.call world c).store = scene.store := reads_store hr scene
  have hknown : (scene.store.db.operation? o).isSome = true := by
    obtain ⟨row, hrow, -⟩ := h.failed
    exact Option.isSome_of_eq_some hrow
  have hnone : Said.starts ⟨.store c, c.answer (world scene.turn).clock scene.store⟩ = none := by
    cases c <;> first | rfl | cases hr
  refine ⟨?_, ?_, ?_, ?_, ?_, fun ha => h.unasked (asked_call ha), h.excused.call hknown c, ?_⟩
  · rw [starts_call, hnone]
    exact (List.append_nil _).trans h.started
  · exact hstore ▸ h.failed
  · exact hstore ▸ h.inference
  · exact hstore ▸ h.tool
  · exact hstore ▸ h.external
  · exact hstore ▸ h.completed

/-! ## The prompts of a session -/

/-- If the prompt asks for a correction, the step just made was rejected. -/
def Corrected (rt : Runtime) (world : Nat → Beat) (h : Heard) : Prop :=
  ∀ e v, h.prompt = .onRejection e v → ∃ base o objective grants after,
    (rt.step objective grants).run (Scene.answer world) base = (.error e, after) ∧
      after.rejected = some e ∧ after.said <+: h.scene.said ∧ Rejected base o e h.scene

/-- The store is open and steady, and every correction followed a rejection. -/
structure Tended (rt : Runtime) (world : Nat → Beat) (s : Sitting) : Prop where
  steady : Steady s.scene
  corrected : ∀ h ∈ s.heard, Corrected rt world h

/-- What others do to the file leaves a steady scene. -/
theorem Steady.others {store : SQLiteRun} (h : Steady scene) (hlive : store.handle.isSome = true)
    (hkeeps : ∀ I : Tables → Prop,
      (∀ handle clock t c t', I t → Change handle clock t c t' → I t') →
      I scene.store.db → I store.db) : Steady { scene with store } where
  regular := hkeeps Regular (fun _ _ _ _ _ hr hc => hr.change hc) h.regular
  live := hlive
  asked o hx := hkeeps (fun t => t.Spent o)
    (fun _ _ _ _ _ hs hc => (hc.spent_iff o).mpr (.inl hs)) (h.asked o hx)
  answered o hx := hkeeps (fun t => t.At o .returned ∨ t.At o .completed)
    (fun _ _ _ _ _ hs hc => hc.settles hs) (h.answered o hx)

theorem Tended.call (h : Tended rt world s) (hc : c ≠ .close) (ho : c ≠ .openRun) :
    Tended rt world (s.call world c) := ⟨h.steady.call hc ho, h.corrected⟩

theorem Tended.prompt (h : Tended rt world s) (hc : StayOpen cues)
    (hp : Corrected rt world ⟨p, s.scene⟩) : Tended rt world (s.prompt cues p) := by
  refine ⟨h.steady.others ((congrArg Option.isSome (prompt_handle hc p)).trans h.steady.live)
    fun _ hI hi => prompt_keeps hI hi p, fun i hi => ?_⟩
  rcases List.mem_append.mp hi with hi | hi
  · exact h.corrected i hi
  · rw [List.mem_singleton.mp hi]
    exact hp

theorem tended_held (hc : StayOpen cues) : Held world cues (Tended rt world) where
  call _ _ hclose hopen h := h.call hclose hopen
  prompt _ _ hp h := h.prompt hc fun e v he => absurd he (hp e v)

/-- A correction is asked for after a certified rejection. -/
theorem Tended.correct (h : Tended rt world s) (hc : StayOpen cues) (carry : Session.Carry)
    (he : (e.isinstance .proposalRejected = true ∨ e.isinstance .inferenceRejected = true) →
      s.scene.rejected = some e → ∃ base o objective grants,
        (rt.step objective grants).run (Scene.answer world) base = (.error e, s.scene) ∧
          Rejected base o e s.scene) :
    Acts world cues (sn.correct carry e) s
      (Results (fun _ s' => Tended rt world s') fun _ s' => Tended rt world s') := by
  have hk : Held world cues (Tended rt world) := tended_held hc
  unfold Session.correct
  refine plays_check (fun _ => h) fun hrejection => ?_
  refine plays_check (fun _ => h) fun _ => ?_
  have h₁ := hk.prompt s .rejected (by simp) h
  refine plays_then (G := fun r s' => r = s.scene.rejected ∧ s.prompt cues .rejected = s')
    (acts_prompted ⟨rfl, rfl⟩) fun r s₁ ⟨hr, hs⟩ => ?_
  subst hs
  refine plays_check (fun _ => h₁) fun hsome => ?_
  rw [hr, not_not] at hsome
  obtain ⟨base, o, objective, grants, hrun, hrejected⟩ := he (not_not.mp hrejection) hsome
  -- from the raise to the prompt, the session only reads
  have hread : ∀ {c : Call} {s' : Sitting}, c.onlyReads = true →
      (Tended rt world s' ∧ s.scene.said <+: s'.scene.said ∧ Rejected base o e s'.scene) →
        Tended rt world (s'.call world c) ∧ s.scene.said <+: (s'.call world c).scene.said ∧
          Rejected base o e (s'.call world c).scene := by
    intro c s' hr ⟨ht, hsaid, hrej⟩
    refine ⟨ht.call (onlyReads_open hr).1 (onlyReads_open hr).2, ?_, hrej.read hr⟩
    change s.scene.said <+: (s'.scene.call world c).said
    rw [said_call]
    exact hsaid.trans (List.prefix_append _ _)
  have hcall : ∀ {c : Call} {s' : Sitting}, c.onlyReads = true →
      (Tended rt world s' ∧ s.scene.said <+: s'.scene.said ∧ Rejected base o e s'.scene) →
        Acts world cues (calls c) s' (Results (fun _ s' => Tended rt world s' ∧
          s.scene.said <+: s'.scene.said ∧ Rejected base o e s'.scene) fun _ s' =>
            Tended rt world s') :=
    fun hr hs => acts_calls (results_any (fun _ _ => hread hr hs) fun _ _ => (hread hr hs).1)
  refine plays_then (G := fun _ s' => Tended rt world s' ∧ s.scene.said <+: s'.scene.said ∧
    Rejected base o e s'.scene) ?_ fun _ s₂ h₂ => ?_
  · unfold Session.checkReady
    refine plays_then (hcall rfl ⟨h₁, List.prefix_rfl, hrejected⟩) fun _ s₂ h₂ => ?_
    exact plays_then (hcall rfl h₂) fun _ s₃ h₃ => plays_raiseIf (fun _ => h₃.1) fun _ => h₃
  refine plays_then (G := fun _ s' => Tended rt world s' ∧ s.scene.said <+: s'.scene.said ∧
    Rejected base o e s'.scene) ?_ fun v s₃ h₃ => ?_
  · unfold Session.view
    refine plays_then (hcall rfl h₂) fun _ s₃ h₃ => ?_
    exact plays_then (hcall rfl h₃) fun _ s₄ h₄ => plays_value h₄
  have h₄ : Tended rt world (s₃.prompt cues (.onRejection e v)) := by
    refine h₃.1.prompt hc fun e' v' he' => ?_
    cases he'
    exact ⟨base, o, objective, grants, s.scene, hrun, hsome, h₃.2.1, h₃.2.2⟩
  refine plays_then (G := fun _ s' => Tended rt world s')
    (acts_callback (fun _ _ => h₄) fun _ _ => h₄) fun d s₅ h₅ => ?_
  cases d with
  | other => exact plays_raise h₅
  | typed d => exact plays_value h₅

theorem Tended.turn (h : Tended sn.runtime world s) (hw : OnlyFinishes world)
    (hc : StayOpen cues) (hlock : LockCancels world) (carry : Session.Carry) :
    Acts world cues (sn.turn carry) s (Results (fun _ s' => Tended sn.runtime world s')
      fun _ s' => Tended sn.runtime world s') := by
  have hk : Held world cues (Tended sn.runtime world) := tended_held hc
  unfold Session.turn
  refine plays_then (hk.decision h carry) fun d s₁ h₁ => ?_
  refine plays_then (hk.checkReady h₁) fun _ s₂ h₂ => ?_
  split
  · exact plays_raise h₂
  · exact plays_then (hk.stop h₂ _ _) fun t s₃ h₃ => plays_value h₃
  · rename_i step
    have hcourse := h₂.steady.step hw sn.runtime step.objective (some step.grants)
    have hrun : Plays world (sn.runtime.step step.objective (some step.grants)) s₂.scene
        fun r scene => (sn.runtime.step step.objective (some step.grants)).run
          (Scene.answer world) s₂.scene = (r, scene) := rfl
    refine plays_then (plays_attempted (acts_scene (plays_and hcourse hrun)))
      fun r s₃ ⟨⟨hr, hrun⟩, hheard⟩ => ?_
    have h₃ : Tended sn.runtime world s₃ := ⟨hr.steady, hheard ▸ h₂.corrected⟩
    cases r with
    | error e =>
      refine plays_then (h₃.correct hc _ fun he hsome => ?_) fun carry' s₄ h₄ => plays_value h₄
      obtain ⟨o, hrejected⟩ := hr.rejected hlock he hsome
      exact ⟨s₂.scene, o, step.objective, some step.grants, hrun, hrejected⟩
    | ok result =>
      dsimp only
      split
      · exact plays_then (hk.callback (p := .onStep result) h₃ (by simp))
          fun _ s₄ h₄ => plays_value h₄
      · exact plays_value h₃

/-! ## Every session -/

/-- From a sitting on, no correction was asked for. -/
def Uncorrected (s s' : Sitting) : Prop :=
  ∃ later, s'.heard = s.heard ++ later ∧ ∀ h ∈ later, ∀ e v, h.prompt ≠ .onRejection e v

theorem uncorrected_held : Held world cues (Uncorrected s) where
  call _ _ _ _ h := h
  prompt s' p hp h := by
    obtain ⟨later, hlater, hnone⟩ := h
    refine ⟨later ++ [⟨p, s'.scene⟩], ?_, fun i hi => ?_⟩
    · rw [← List.append_assoc, ← hlater]
      rfl
    · rcases List.mem_append.mp hi with hi | hi
      · exact hnone i hi
      · rw [List.mem_singleton.mp hi]
        exact hp

/-- An exception of a step that is not corrected ends the session. -/
theorem uncorrected_ends {s₀ s₁ : Sitting} {frame : Nat × Option ℚ} {k : Nat}
    {carry : Session.Carry}
    (h : sn.Reaches world cues s₀ frame k carry s) {step : SessionStep}
    (hs : Session.Stepping world cues carry s step s₁)
    (hstep : (sn.runtime.step step.objective (some step.grants)).run (Scene.answer world)
      s₁.scene = (.error e, scene)) (he : ¬ sn.Corrects e scene) {fuel : Nat} (hf : k < fuel) :
    ∃ e' s', (sn.execute fuel).run (Sitting.answer world cues) s₀ = (.error e', s') ∧
      Uncorrected s₁ s' := by
  have hk : Held world cues (Uncorrected s₁) := uncorrected_held
  have hraised : Uncorrected s₁ { s₁ with scene } := ⟨[], (List.append_nil _).symm, by simp⟩
  obtain ⟨s₂, hturn, hs₂⟩ := hs.raises hstep he
  rw [h.run_error hturn hf]
  have h₂ : Uncorrected s₁ s₂ := by
    rcases hs₂ with rfl | rfl
    · exact hraised
    · exact hk.prompt _ _ (by simp) hraised
  exact (hk.closing h₂ frame e).raises

/-- A session of a closed store asks for no correction. -/
theorem acts_closed (hnone : s.scene.store.handle = none) (hc : StayOpen cues) (fuel : Nat) :
    Acts world cues (sn.execute fuel) s
      (Results (fun _ _ => False) fun _ s' => Uncorrected s s') := by
  have hk : Held world cues (Uncorrected s) := uncorrected_held
  have h : Uncorrected s s := ⟨[], (List.append_nil _).symm, by simp⟩
  unfold Session.execute
  refine plays_then (G := fun _ s' => Uncorrected s s' ∧ s'.scene.store.handle = none)
    (acts_prompted ⟨hk.prompt s .lock (by simp) h, (prompt_handle hc .lock).trans hnone⟩)
    fun locked s₁ ⟨h₁, hnone₁⟩ => ?_
  refine plays_then (G := fun _ s' => Uncorrected s s' ∧ s'.scene.store.handle = none)
    (plays_ret (results_any (fun _ _ => ⟨h₁, hnone₁⟩) fun _ _ => h₁)) fun _ s₂ ⟨h₂, hnone₂⟩ => ?_
  refine plays_finally (Q := Results (fun _ _ => False) fun _ s' => Uncorrected s s') ?_ ?_
  · refine plays_then (G := fun _ _ => False) (acts_calls (results_any (fun _ hans => ?_)
      fun _ _ => hk.call s₂ .outcome (by simp) (by simp) h₂)) fun _ _ hf => hf.elim
    have hlive := (query_answer hans).1
    rw [hnone₂] at hlive
    cases hlive
  · rintro (e | r) s₃ h₃
    · exact plays_after (G := fun _ s' => Uncorrected s s')
        (acts_prompted (hk.prompt s₃ _ (by simp) h₃)) fun _ _ h => plays_value h
    · exact h₃.elim

/-- Whatever the application raises, wherever and of which type: a session asks for
a correction only after a step whose operation has failed before its dispatch,
with its inference reservation alone, its tool never asked for, nothing completed,
and the usage of the rejection in the file and within its reservation, unless it
is a validator's own exception. Every other exception of a step ends the
session, and no correction is asked for. -/
theorem only_certified_rejections_are_corrected {now : ℚ} {clock : Clock} {self : SQLiteRun}
    {runId state : Dyn String} {limits : RunLimits} {observation : Option (Dyn String)}
    (h : SQLiteRun.create now clock runId state limits observation = .ok self)
    (calls : List Timed) (sn : Session) (fuel : Nat) (world : Nat → Beat) (cues : Nat → Cue)
    (hw : OnlyFinishes world) (hc : OnlyFinish cues) (hlock : LockCancels world) :
    (∀ i ∈ (sn.sit fuel world cues (self.after calls)).2.heard, Corrected sn.runtime world i) ∧
    ∀ (frame : Nat × Option ℚ) (k : Nat) (carry : Session.Carry) (s s₁ : Sitting)
      (step : SessionStep) (e : Exn) (scene : Scene),
      sn.Reaches world cues { scene := { store := self.after calls } } frame k carry s →
      Session.Stepping world cues carry s step s₁ →
      (sn.runtime.step step.objective (some step.grants)).run (Scene.answer world) s₁.scene =
        (.error e, scene) →
      ¬ sn.Corrects e scene → k < fuel →
        ∃ e' s', sn.sit fuel world cues (self.after calls) = (.error e', s') ∧
          Uncorrected s₁ s' := by
  refine ⟨?_, fun frame k carry s s₁ step e scene hreach hs hstep he hf =>
    uncorrected_ends hreach hs hstep he hf⟩
  by_cases hlive : (self.after calls).handle.isSome = true
  · have htended : Tended sn.runtime world { scene := { store := self.after calls } } :=
      ⟨steady_created h calls hlive, fun i hi => absurd hi List.not_mem_nil⟩
    have hrun := (tended_held hc.stayOpen).execute
      (fun carry s hs => hs.turn hw hc.stayOpen hlock carry) htended fuel
    change Results _ _ (sn.sit fuel world cues (self.after calls)).1
      (sn.sit fuel world cues (self.after calls)).2 at hrun
    revert hrun
    rcases sn.sit fuel world cues (self.after calls) with ⟨e | r, s'⟩ <;>
      exact fun hs => hs.corrected
  · have hnone : (self.after calls).handle = none := by simpa using hlive
    have hrun : Acts world cues (sn.execute fuel) { scene := { store := self.after calls } } _ :=
      acts_closed hnone hc.stayOpen fuel
    obtain ⟨e, s', hr, later, hheard, hunasked⟩ := hrun.raises
    intro i hi e' v he'
    unfold Session.sit at hi
    rw [hr] at hi
    change i ∈ s'.heard at hi
    rw [hheard, List.nil_append] at hi
    exact absurd he' (hunasked i hi e' v)

/-! ## A rejection with a usage of its own -/

/-- The exception that a prompt asks to correct. -/
def Prompt.rejection? : Prompt → Option Exn
  | .onRejection error _ => some error
  | _ => none

/-- An exception of three types, with a usage. -/
def sampleOdd : Exn :=
  ⟨"Odd", [.budgetExhausted, .proposalRejected, .inferenceRejected], "odd",
    some (.typed sampleOverrun)⟩

/-- The validator of the tool raises it. -/
def oddBeat (_ : Nat) : Beat where
  clock := ⟨0, 0⟩
  reply
    | .validate _ _ => .error sampleOdd
    | a => sampleReply a

theorem done_stops : StopFields.postInit ⟨"done"⟩ = none := by
  decide

/-- A session that stops after a rejection. -/
def oddCue (n : Nat) : Cue where
  reply
    | .onRejection _ _ => .ok (.typed (.stop ⟨⟨"done"⟩, done_stops⟩))
    | p => (sampleCue n).reply p

def oddSession : Session := { sampleSession with rejecting := true }

theorem quiet_oddBeat : OnlyFinishes oddBeat := fun _ _ hi => absurd hi List.not_mem_nil

theorem silent_oddCue : OnlyFinish oddCue := fun _ _ hi => absurd hi List.not_mem_nil

theorem odd_rejection : ∃ i ∈ (oddSession.sit 3 oddBeat oddCue (sampleStore.after [])).2.heard,
    i.prompt.rejection? = some sampleOdd ∧ i.scene.starts = ["op"] ∧
      i.scene.store.db.report "op" ≠ some sampleOverrun.toUsageFields := by
  decide +kernel

/-- The broker hands on what a validator raises as exhausted, and the runtime
certifies it by its other type: its usage is in no table. -/
theorem a_validator_hands_on_its_usage :
    ¬ ∀ (now : ℚ) (clock : Clock) (self : SQLiteRun) (runId state : Dyn String)
      (limits : RunLimits) (observation : Option (Dyn String)),
      SQLiteRun.create now clock runId state limits observation = .ok self →
      ∀ (calls : List Timed) (sn : Session) (fuel : Nat) (world : Nat → Beat) (cues : Nat → Cue),
        OnlyFinishes world → OnlyFinish cues → LockCancels world →
        ∀ i ∈ (sn.sit fuel world cues (self.after calls)).2.heard, ∀ e v,
          i.prompt = .onRejection e v →
            ∀ o before, i.scene.starts = before ++ [o] → UsageKept i.scene.store.db o e := by
  intro h
  obtain ⟨⟨prompt, scene⟩, hi, hprompt, hstarts, hreport⟩ := odd_rejection
  cases prompt with
  | onRejection e v =>
    cases hprompt
    obtain ⟨u, hu, hkept, -⟩ := h _ _ _ _ _ _ _ create_sampleStore [] oddSession 3 oddBeat oddCue
      quiet_oddBeat silent_oddCue (fun _ _ he => by cases he) _ hi _ v rfl "op" [] hstarts
      (.typed sampleOverrun) rfl
    cases hu
    exact hreport hkept
  | _ => cases hprompt

theorem only_certified_rejections_are_corrected_sample :
    ∃ i ∈ (oddSession.sit 3 oddBeat oddCue (sampleStore.after [])).2.heard,
      i.prompt.rejection? = some sampleOdd ∧ Corrected oddSession.runtime oddBeat i := by
  obtain ⟨i, hi, hprompt, -⟩ := odd_rejection
  exact ⟨i, hi, hprompt, (only_certified_rejections_are_corrected create_sampleStore [] oddSession 3
    oddBeat oddCue quiet_oddBeat silent_oddCue fun _ _ he => by cases he).1 i hi⟩

end FlynnAgents
