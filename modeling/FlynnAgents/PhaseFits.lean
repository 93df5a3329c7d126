-- What the file holds while a task of the runtime is in a phase. A request
-- of the task leads to what its next phase needs, and leaves what the phases
-- of the other tasks need.
import FlynnAgents.StepPhases
import FlynnAgents.Reservations

namespace FlynnAgents

open Relational Programs

variable {handle : Handle} {clock : Clock} {self : SQLiteRun} {t t' : Tables} {call : Call}
  {p : Phase} {o : String}

/-- The operation that a task works on, until it has its output. -/
def Phase.claim : Phase → Option String
  | .started o | .reporting o _ | .inferred o | .dispatched o _ | .executed o => some o
  | _ => none

/-- What the file holds while a task is in a phase. -/
def Fits (t : Tables) : Phase → Prop
  | .started o | .reporting o _ => (t.operation? o).isSome = true ∧ t.report o = none
  | .inferred o => (t.operation? o).isSome = true
  | .dispatched o externalAction => t.At o .dispatched ∧ t.reservations.Has (o, .tool) ∧
      (externalAction = true → t.reservations.Has (o, .external))
  | .executed o => t.At o .dispatched
  | _ => True

theorem Fits.known (hf : Fits t p) (ho : p.claim = some o) : (t.operation? o).isSome = true := by
  have hat : t.At o .dispatched → (t.operation? o).isSome = true :=
    fun ⟨_, hr, _⟩ => Option.isSome_of_eq_some hr
  cases p with
  | started | reporting =>
    cases ho
    exact hf.1
  | inferred =>
    cases ho
    exact hf
  | dispatched =>
    cases ho
    exact hat hf.1
  | executed =>
    cases ho
    exact hat hf
  | _ => cases ho

/-- What holds of every file, as far as the phases depend on it. -/
structure Ledger (t : Tables) : Prop where
  good : Good t
  reported : ∀ {o : String}, t.operation? o = none → t.report o = none

theorem ledger_fresh (run : RunRow) : Ledger (Tables.fresh run) where
  good := good_fresh run
  reported _ := rfl

theorem Ledger.change (hl : Ledger t) (h : Change handle clock t call t') : Ledger t' where
  good := hl.good.change h
  reported := by
    intro o ho
    have hn : t.operation? o = none := by
      by_contra hne
      have := (h.started_iff o).mpr (.inl (Option.isSome_iff_ne_none.mpr hne))
      rw [ho] at this
      cases this
    rcases h.report_cases o with he | ⟨_, -, -, -, row, hr, -⟩
    · rw [he, hl.reported hn]
    · rw [hn] at hr
      cases hr

theorem Ledger.exec (hl : Ledger self.db) (i : Timed) : Ledger (exec i self).2.db := by
  rcases exec_cases i self with ⟨⟨handle, t', -, hc, he⟩, -⟩ | ⟨he, -⟩
  · rw [he]
    exact hl.change hc
  · rw [he]
    exact hl

/-! ## The calls of the other tasks -/

/-- The call moves an operation on that a task in the phase works on. -/
def Call.intrudes (call : Call) (o : String) : Prop :=
  (∃ u, call = .recordUsage o (.typed u)) ∨ ∃ output, call = .returned o output

theorem Fits.change (hf : Fits t p) (h : Change handle clock t call t')
    (hc : ∀ o, p.claim = some o → ¬ call.intrudes o) : Fits t' p := by
  have hstarted : ∀ {o}, (t.operation? o).isSome = true → (t'.operation? o).isSome = true :=
    fun ho => (h.started_iff _).mpr (.inl ho)
  have hreport : ∀ {o}, p.claim = some o → t.report o = none → t'.report o = none := by
    intro o ho hr
    rcases h.report_cases o with he | ⟨u, rfl, -⟩
    · rw [he, hr]
    · exact absurd (.inl ⟨u, rfl⟩) (hc o ho)
  have hat : ∀ {o}, p.claim = some o → t.At o .dispatched → t'.At o .dispatched := by
    intro o ho ha
    rcases h.stays rfl ha with he | ⟨-, output, rfl⟩ | ⟨hs, -⟩
    · exact he
    · exact absurd (.inr ⟨_, rfl⟩) (hc o ho)
    · cases hs
  have hhas : ∀ {o kind}, t.reservations.Has (o, kind) → t'.reservations.Has (o, kind) :=
    fun hh => (h.has_iff _ _).mpr (.inl hh)
  cases p with
  | started o | reporting o u => exact ⟨hstarted hf.1, hreport rfl hf.2⟩
  | inferred o => exact hstarted hf
  | dispatched o x => exact ⟨hat rfl hf.1, hhas hf.2.1, fun hx => hhas (hf.2.2 hx)⟩
  | executed o => exact hat rfl hf
  | _ => trivial

theorem Fits.exec (hf : Fits self.db p) (i : Timed)
    (hc : ∀ o, p.claim = some o → ¬ i.call.intrudes o) : Fits (exec i self).2.db p := by
  rcases exec_cases i self with ⟨⟨handle, t', -, h, he⟩, -⟩ | ⟨he, -⟩
  · rw [he]
    exact hf.change h hc
  · rw [he]
    exact hf

/-- A task intrudes on its own operation alone. -/
theorem Phase.intrudes_claim (hp : p.mayCall call) (hi : call.intrudes o) : p.claim = some o := by
  rcases hi with ⟨u, rfl⟩ | ⟨output, rfl⟩
  · cases p <;> simp_all [Phase.mayCall, Call.isQuiet, Phase.claim]
  · cases p <;> simp_all [Phase.mayCall, Call.isQuiet, Phase.claim]

/-! ## The calls of the task -/

/-- `Calls p call x p'`: the task makes the call in the phase `p`, is answered
`x`, and is in the phase `p'`. -/
inductive Calls (p : Phase) : (call : Call) → Except Exn call.Result → Phase → Prop where
  | stays {call : Call} {x : Except Exn call.Result} (hi : ∀ o, ¬ call.intrudes o) :
      Calls p call x p
  | starts {o : String} {request : InferenceRequest} {output : Option (Dyn OutputReservation)}
      {guards : Dyn (List String)} {u : Unit} (hp : p = .idle) :
      Calls p (.start o request output guards) (.ok u) (.started o)
  | reports {o : String} {usage : InferenceUsage} {x : Except Exn Unit}
      (hp : p = .reporting o usage) : Calls p (.recordUsage o (.typed usage)) x (.inferred o)
  | dispatches {o : String} {observation externalAction : Bool} {u : Unit}
      (hp : p = .inferred o) :
      Calls p (.dispatch o observation externalAction) (.ok u) (.dispatched o externalAction)
  | fails {o : String} {output : Dyn String} {e : Exn} (hp : p = .executed o) :
      Calls p (.returned o output) (.error e) p
  | returns {call : Call} {x : Except Exn call.Result} (c : Candidate) :
      Calls p call x (.returned c)
  | finishes {call : Call} {x : Except Exn call.Result} (r : StepResult) :
      Calls p call x (.finished r)

theorem quiet_intrudes (hq : call.isQuiet = true) : ¬ call.intrudes o := by
  rintro (⟨u, rfl⟩ | ⟨output, rfl⟩) <;> cases hq

/-- A quiet call keeps the phase, or it reads a candidate. -/
theorem calls_quiet (hq : call.isQuiet = true) (x : Except Exn call.Result) :
    Calls p call x (p.next (.store call) x) := by
  have hstays : Calls p call x p := .stays fun _ => quiet_intrudes hq
  cases call with
  | pending =>
    cases p with
    | idle =>
      rcases x with e | _ | ⟨_, _, _ | c⟩
      · exact hstays
      · exact hstays
      · exact hstays
      · exact .returns c
    | _ => exact hstays
  | recordEvent | failed | outcome | read | latestObservation | checkReady | outputBudget
  | secondsRemaining => cases p <;> exact hstays
  | _ => cases hq

/-- What a call that a task may make does to its phase. -/
theorem calls_next (hp : p.mayCall call) (x : Except Exn call.Result) :
    Calls p call x (p.next (.store call) x) := by
  by_cases hq : call.isQuiet = true
  · exact calls_quiet hq x
  cases p with
  | idle =>
    rcases hp with hq' | ⟨o, r, out, g, rfl⟩ | ⟨o, rfl⟩
    · exact absurd hq' hq
    · rcases x with e | u
      · exact .stays (by simp [Call.intrudes])
      · exact .starts rfl
    · exact .stays (by simp [Call.intrudes])
  | reporting o u =>
    have hp : call = .recordUsage o (.typed u) := hp
    subst hp
    exact .reports rfl
  | inferred o =>
    rcases hp with hq' | rfl | ⟨c, rfl⟩ | ⟨g, d, rfl⟩ | ⟨b, ext, rfl⟩
    · exact absurd hq' hq
    · exact .stays (by simp [Call.intrudes])
    · exact .stays (by simp [Call.intrudes])
    · exact .stays (by simp [Call.intrudes])
    · rcases x with e | u
      · exact .stays (by simp [Call.intrudes])
      · exact .dispatches rfl
  | executed o =>
    rcases hp with hq' | ⟨out, rfl⟩
    · exact absurd hq' hq
    · rcases x with e | c
      · exact .fails rfl
      · exact .returns c
  | evaluated c e =>
    rcases hp with hq' | rfl
    · exact absurd hq' hq
    · rcases x with e' | r
      · exact .stays (by simp [Call.intrudes])
      · exact .finishes r
  | started o | dispatched o ext | returned c | finished r => exact absurd hp hq

/-! ## What a call leaves in the file -/

theorem fits_start {request : InferenceRequest} {output : Option (Dyn OutputReservation)}
    {guards : Dyn (List String)} (hl : Ledger self.db)
    (hok : (exec ⟨clock, .start o request output guards⟩ self).1.ok = true) :
    Fits (exec ⟨clock, .start o request output guards⟩ self).2.db (.started o) := by
  obtain ⟨handle, t', -, h, he⟩ := commits_of_ok rfl hok
  rw [he]
  have hn := h.fresh
  refine ⟨(h.started_iff o).mpr (.inr (by simp [Call.reserves])), ?_⟩
  rcases h.report_cases o with hr | ⟨_, hc, -⟩
  · exact hr.trans (hl.reported hn)
  · cases hc

theorem fits_dispatch {observation externalAction : Bool}
    (hok : (exec ⟨clock, .dispatch o observation externalAction⟩ self).1.ok = true) :
    Fits (exec ⟨clock, .dispatch o observation externalAction⟩ self).2.db
      (.dispatched o externalAction) := by
  obtain ⟨handle, t', -, h, he⟩ := commits_of_ok rfl hok
  rw [he]
  refine ⟨?_, (h.has_iff _ _).mpr (.inr (by simp [Call.reserves])), ?_⟩
  · rcases h.lookup o with ⟨hw, -⟩ | ⟨-, _, _, _, hc, -⟩ | ⟨row, row', -, hr, hm⟩
    · exact absurd rfl hw
    · cases hc
    · cases hm
      exact ⟨_, hr, rfl⟩
  · rintro rfl
    exact (h.has_iff _ _).mpr (.inr (by simp [Call.reserves, externalRows]))

/-- An output that is kept is answered with the candidate of its row. -/
theorem returned_answers {output : Dyn String} (hl : Ledger self.db)
    (hc : Commits clock (.returned o output) self self') :
    ∃ row c, ((Call.returned o output).answer clock self) = .ok c ∧
      self'.db.operation? o = some row ∧ row.stage = .returned ∧ row.candidate = .ok c := by
  obtain ⟨handle, t', -, h, rfl⟩ := id hc
  have hm : ∃ row, t'.operation? o = some row ∧ row.stage = .returned := by
    rcases h.lookup o with ⟨hw, -⟩ | ⟨-, _, _, _, hc, -⟩ | ⟨row, row', -, hr, hm⟩
    · exact absurd rfl hw
    · cases hc
    · cases hm
      exact ⟨_, hr, rfl⟩
  obtain ⟨row, hr, hs⟩ := hm
  have hcall := ((hl.good.change h).rows hr).called (.inr (by rw [hs]; rfl))
  obtain ⟨tool, hcall⟩ := Option.isSome_iff_exists.mp hcall
  have hcand : row.candidate = .ok ⟨row.id, row.request.base, tool, row.output⟩ := by
    rw [OperationRow.candidate, hcall]
  refine ⟨row, _, ?_, hr, hs, hcand⟩
  simp only [Call.answer, Call.method, returned_run hc, operation_any_ok.mpr hr, Except.bind, hcand]

theorem started_exec (i : Timed) (ho : (self.db.operation? o).isSome = true) :
    ((exec i self).2.db.operation? o).isSome = true := by
  rcases exec_cases i self with ⟨⟨handle, t', -, h, he⟩, -⟩ | ⟨he, -⟩
  · rw [he]
    exact (h.started_iff o).mpr (.inl ho)
  · rwa [he]

theorem ok_of_answer {call : Call} {a : call.Result} (h : call.answer clock self = .ok a) :
    (exec ⟨clock, call⟩ self).1.ok = true := by
  change (call.answer clock self).isOk = true
  rw [h]
  rfl

/-- A call of a task leads to what its next phase needs. -/
theorem Calls.fits {x : Except Exn call.Result} {p' : Phase} (h : Calls p call x p')
    (hx : call.answer clock self = x) (hl : Ledger self.db) (hf : Fits self.db p) :
    Fits (exec ⟨clock, call⟩ self).2.db p' := by
  cases h with
  | stays hi => exact hf.exec ⟨clock, call⟩ fun o _ => hi o
  | starts => exact fits_start hl (ok_of_answer hx)
  | reports hp =>
    subst hp
    exact started_exec _ hf.1
  | dispatches => exact fits_dispatch (ok_of_answer hx)
  | fails hp =>
    subst hp
    rcases exec_cases ⟨clock, _⟩ self with ⟨hc, -⟩ | ⟨he, -⟩
    · obtain ⟨_, c, hx', -⟩ := returned_answers hl hc
      rw [hx] at hx'
      cases hx'
    · rw [he]
      exact hf
  | returns | finishes => trivial

/-- A task claims an operation when it starts it, under a new identity. -/
theorem Calls.claim {x : Except Exn call.Result} {p' : Phase} (h : Calls p call x p')
    (hx : call.answer clock self = x) (ho : p'.claim = some o) :
    p.claim = some o ∨ self.db.operation? o = none := by
  cases h with
  | stays | fails => exact .inl ho
  | starts =>
    cases ho
    obtain ⟨handle, t', -, hc, -⟩ := commits_of_ok rfl (ok_of_answer hx)
    exact .inr hc.fresh
  | reports hp | dispatches hp =>
    subst hp
    exact .inl ho
  | returns | finishes => cases ho

/-- An operation that a task dispatches was not dispatched before. -/
theorem Calls.undispatched {x : Except Exn call.Result} {externalAction : Bool}
    (h : Calls p call x (.dispatched o externalAction)) (hx : call.answer clock self = x) :
    p = .dispatched o externalAction ∨ ¬ self.db.Spent o := by
  cases h with
  | stays | fails => exact .inl rfl
  | dispatches hp =>
    obtain ⟨handle, t', -, hc, -⟩ := commits_of_ok rfl (ok_of_answer hx)
    right
    rintro ⟨row, ho, hs⟩
    cases hc with
    | dispatch _ operation stage =>
      rw [ho] at operation
      cases operation
      rw [stage] at hs
      cases hs

/-! ## The asks of the task -/

/-- An ask that awaits nothing leaves the phase. -/
theorem next_plain {a : Ask} (ha : a.awaits = false) (x : a.Answer) : p.next (.ask a) x = p := by
  cases a <;> first | (cases ha; done) | (cases p <;> rfl)

theorem fits_ask {a : Ask} (hp : p.mayAsk a) (hf : Fits t p) (x : a.Answer) :
    Fits t (p.next (.ask a) x) := by
  cases a with
  | generate o request =>
    cases hp
    simp only [Phase.next]
    split
    · exact hf
    · exact hf.1
  | execute o tool arguments =>
    cases hp
    exact hf.1
  | evaluate c =>
    cases hp
    rcases x with e | e <;> trivial
  | _ => cases p <;> exact hf

/-- A task claims no operation by an ask. -/
theorem claim_ask {a : Ask} (x : a.Answer) (h : (p.next (.ask a) x).claim = some o) :
    p.claim = some o := by
  cases a with
  | generate i request =>
    cases p with
    | started o' =>
      simp only [Phase.next] at h
      split at h <;> exact h
    | _ => exact h
  | evaluate c =>
    cases p with
    | returned c' => rcases x with e | e <;> cases h
    | _ => exact h
  | _ => cases p <;> exact h

/-- The answer of an await leads to no dispatch. -/
theorem dispatched_ask {a : Ask} (hp : p.mayAsk a) (ha : a.awaits = true) (x : a.Answer)
    {externalAction : Bool} : p.next (.ask a) x ≠ .dispatched o externalAction := by
  cases a with
  | acquire | check _ _ _ _ | execute _ _ _ =>
    cases hp
    intro h
    cases h
  | generate i request =>
    cases hp
    simp only [Phase.next]
    split <;>
      intro h <;>
      cases h
  | evaluate c =>
    cases hp
    rcases x with e | e <;>
      intro h <;>
      cases h
  | _ => cases ha

theorem mayCall_ne (hp : p.mayCall call) :
    call ≠ .close ∧ call ≠ .openRun ∧ ∀ text, call ≠ .finish text := by
  refine ⟨?_, ?_, fun text => ?_⟩ <;> rintro rfl <;> revert hp <;>
    cases p <;> simp [Phase.mayCall, Call.isQuiet]

end FlynnAgents
