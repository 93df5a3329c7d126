-- A session with its store: what its runtime and its callbacks are answered,
-- and what the others call on the store in the meantime.
import FlynnAgents.Session

namespace FlynnAgents

open Programs

/-! ## The surroundings of a session -/

/-- What a session meets at one prompt: the calls that others make on the store
before the answer, and the reply. -/
structure Cue where
  others : List Timed := []
  reply : (p : Prompt) → p.Answer

/-- The prompts that run application code or suspend the task. -/
def Prompt.yields : Prompt → Bool
  | .unlock | .rejected | .expired _ => false
  | _ => true

/-- A prompt, and the scene that it met. -/
structure Heard where
  prompt : Prompt
  scene : Scene

/-- A session with the scene of its task, and the prompts that it made. -/
structure Sitting where
  scene : Scene
  heard : List Heard := []

namespace Sitting

/-- The sitting after a call of the session. -/
def call (world : Nat → Beat) (s : Sitting) (c : Call) : Sitting :=
  { s with scene := s.scene.call world c }

/-- The sitting after a prompt. -/
def prompt (cues : Nat → Cue) (s : Sitting) (p : Prompt) : Sitting where
  scene := { s.scene with
    store := if p.yields then s.scene.store.after (cues s.heard.length).others else s.scene.store }
  heard := s.heard ++ [⟨p, s.scene⟩]

/-- The answer to a prompt. The runtime itself knows the rejection. -/
def reply (cues : Nat → Cue) (s : Sitting) : (p : Prompt) → p.Answer
  | .rejected => s.scene.rejected
  | .lock => (cues s.heard.length).reply .lock
  | .unlock => ()
  | .policy view => (cues s.heard.length).reply (.policy view)
  | .onStep result => (cues s.heard.length).reply (.onStep result)
  | .onRejection error view => (cues s.heard.length).reply (.onRejection error view)
  | .expired error => (cues s.heard.length).reply (.expired error)

/-- One request is answered. -/
def answer (world : Nat → Beat) (cues : Nat → Cue) :
    (q : Req ⊕ Prompt) → Sitting → either Req.Answer Prompt.Answer q × Sitting
  | .inl q, s => ((Scene.answer world q s.scene).1,
      { s with scene := (Scene.answer world q s.scene).2 })
  | .inr p, s => (s.reply cues p, s.prompt cues p)

end Sitting

/-- What `execute` gives on a store in these surroundings, and the sitting then. -/
abbrev Session.sit (sn : Session) (fuel : Nat) (world : Nat → Beat) (cues : Nat → Cue)
    (store : SQLiteRun) : Except Exn (Option SessionTermination) × Sitting :=
  (sn.execute fuel).run (Sitting.answer world cues) { scene := { store } }

/-- The callbacks of the session, and the others, do no more than read. -/
def Silent (cues : Nat → Cue) : Prop :=
  ∀ n, ∀ i ∈ (cues n).others, i.call.onlyReads = true

/-- They do no more than read, and end the run. -/
def OnlyFinish (cues : Nat → Cue) : Prop :=
  ∀ n, ∀ i ∈ (cues n).others, i.call.onlyReads = true ∨ ∃ text, i.call = .finish text

/-- They do not close or open the run. -/
def StayOpen (cues : Nat → Cue) : Prop :=
  ∀ n, ∀ i ∈ (cues n).others, i.call ≠ .close ∧ i.call ≠ .openRun

variable {world : Nat → Beat} {cues : Nat → Cue} {s : Sitting} {c : Call} {p : Prompt} {α β : Type}

theorem OnlyFinish.stayOpen (h : OnlyFinish cues) : StayOpen cues := by
  intro n i hi
  rcases h n i hi with hr | ⟨text, ht⟩
  · exact onlyReads_open hr
  · rw [ht]
    exact ⟨by simp, by simp⟩

/-! ## Rules -/

/-- From the sitting `s` on, the program ends as `Q` says. -/
abbrev Acts (world : Nat → Beat) (cues : Nat → Cue) (x : Act α) (s : Sitting)
    (Q : Except Exn α → Sitting → Prop) : Prop :=
  x.Plays (Sitting.answer world cues) s Q

theorem acts_calls {Q : Except Exn c.Result → Sitting → Prop}
    (h : Q (c.answer (world s.scene.turn).clock s.scene.store) (s.call world c)) :
    Acts world cues (calls c) s Q := h

/-- A prompt whose answer is the value of the program. -/
theorem acts_prompted {G : p.Answer → Sitting → Prop} {B : Exn → Sitting → Prop}
    (h : G (s.reply cues p) (s.prompt cues p)) :
    Acts world cues (prompted p) s (Results G B) := h

/-- A callback, which may raise. -/
theorem acts_callback {r : p.Answer → Except Exn α} {G : α → Sitting → Prop}
    {B : Exn → Sitting → Prop}
    (hG : ∀ x, r (s.reply cues p) = .ok x → G x (s.prompt cues p))
    (hB : ∀ e, r (s.reply cues p) = .error e → B e (s.prompt cues p)) :
    Acts world cues (.ask (.inr p) fun x => .ret (r x)) s (Results G B) :=
  plays_request (plays_ret (results_any hG hB))

/-- The deadline of a session is its own question. -/
theorem acts_timeout {α : Type} {x : Act α} {G : α → Sitting → Prop} {B : Exn → Sitting → Prop}
    (hx : Acts world cues x (s.call world .secondsRemaining) (Results G B))
    (hB : ∀ e s', B e s' → B e (s'.prompt cues (.expired e)) ∧
      B timeoutError (s'.prompt cues (.expired e))) :
    Acts world cues (Session.timeout x) s (Results G B) := by
  unfold Session.timeout
  refine plays_then (G := fun _ s' => s' = s.call world .secondsRemaining)
    (acts_calls rfl) fun limit s₁ hs => ?_
  subst hs
  refine plays_catching hx (fun _ _ h => h) fun e s₂ h₂ => ?_
  split
  · refine plays_then (G := fun _ s' => s' = s₂.prompt cues (.expired e)) (acts_prompted rfl) ?_
    rintro b _ rfl
    split
    · exact plays_raise (hB e s₂ h₂).2
    · exact plays_raise (hB e s₂ h₂).1
  · exact plays_raise h₂

/-- A step of the runtime runs on the scene of the sitting. -/
theorem run_step {ε : Type} (x : Flow ε α) (s : Sitting) :
    (x.embed : Prog (Req ⊕ Prompt) (either Req.Answer Prompt.Answer) ε α).run
        (Sitting.answer world cues) s =
      ((x.run (Scene.answer world) s.scene).1,
        { s with scene := (x.run (Scene.answer world) s.scene).2 }) :=
  Prog.run_embed (Scene.answer world) Sitting.scene (fun s scene => { s with scene := scene })
    (fun _ => rfl) (fun _ _ => rfl) (fun _ _ _ => rfl) (fun _ _ => rfl) x s

theorem acts_step {ε : Type} {x : Flow ε α} {Q : Except ε α → Sitting → Prop}
    (h : Plays world x s.scene fun r scene => Q r { s with scene := scene }) :
    (x.embed : Prog (Req ⊕ Prompt) (either Req.Answer Prompt.Answer) ε α).Plays
      (Sitting.answer world cues) s Q := by
  unfold Prog.Plays
  rw [run_step]
  exact h

theorem acts_scene {ε : Type} {x : Flow ε α} {R : Except ε α → Scene → Prop}
    (h : Plays world x s.scene R) :
    (x.embed : Prog (Req ⊕ Prompt) (either Req.Answer Prompt.Answer) ε α).Plays
      (Sitting.answer world cues) s fun r s' => R r s'.scene ∧ s'.heard = s.heard :=
  acts_step (plays_weaken h fun _ _ hR => ⟨hR, rfl⟩)

/-- What each change keeps of the tables, a prompt keeps. -/
theorem prompt_keeps {I : Tables → Prop}
    (hI : ∀ handle clock t c t', I t → Change handle clock t c t' → I t')
    (h : I s.scene.store.db) (p : Prompt) : I (s.prompt cues p).scene.store.db := by
  unfold Sitting.prompt
  dsimp only
  split
  · exact after_keeps I hI h _
  · exact h

theorem prompt_handle (hc : StayOpen cues) (p : Prompt) :
    (s.prompt cues p).scene.store.handle = s.scene.store.handle := by
  unfold Sitting.prompt
  dsimp only
  split
  · exact after_handle _ (hc s.heard.length)
  · rfl

/-! ## What a session keeps -/

/-- What every call and every prompt keeps that is no correction. -/
structure Held (world : Nat → Beat) (cues : Nat → Cue) (I : Sitting → Prop) : Prop where
  call : ∀ s c, c ≠ .close → c ≠ .openRun → I s → I (s.call world c)
  prompt : ∀ s p, (∀ e v, p ≠ .onRejection e v) → I s → I (s.prompt cues p)

section Held

variable {I : Sitting → Prop}

theorem Held.calls (hk : Held world cues I) (h : I s) (hc : c ≠ .close) (ho : c ≠ .openRun) :
    Acts world cues (calls c) s (Results (fun _ s' => I s') fun _ s' => I s') :=
  acts_calls (results_any (fun _ _ => hk.call s c hc ho h) fun _ _ => hk.call s c hc ho h)

theorem Held.callback {r : p.Answer → Except Exn α} (hk : Held world cues I) (h : I s)
    (hp : ∀ e v, p ≠ .onRejection e v) :
    Acts world cues (.ask (.inr p) fun x => .ret (r x)) s
      (Results (fun _ s' => I s') fun _ s' => I s') :=
  acts_callback (fun _ _ => hk.prompt s p hp h) fun _ _ => hk.prompt s p hp h

theorem Held.checkReady (hk : Held world cues I) (h : I s) :
    Acts world cues Session.checkReady s (Results (fun _ s' => I s') fun _ s' => I s') := by
  unfold Session.checkReady
  refine plays_then (hk.calls h (by simp) (by simp)) fun _ s₁ h₁ => ?_
  exact plays_then (hk.calls h₁ (by simp) (by simp)) fun _ s₂ h₂ =>
    plays_raiseIf (fun _ => h₂) fun _ => h₂

theorem Held.view (hk : Held world cues I) (h : I s) (carry : Session.Carry) :
    Acts world cues (Session.view carry) s (Results (fun _ s' => I s') fun _ s' => I s') := by
  unfold Session.view
  refine plays_then (hk.calls h (by simp) (by simp)) fun _ s₁ h₁ => ?_
  exact plays_then (hk.calls h₁ (by simp) (by simp)) fun _ s₂ h₂ => plays_value h₂

theorem Held.decision (hk : Held world cues I) (h : I s) (carry : Session.Carry) :
    Acts world cues (Session.decision carry) s (Results (fun _ s' => I s') fun _ s' => I s') := by
  unfold Session.decision
  split
  · exact plays_value h
  · exact plays_then (hk.view h carry) fun v s₁ h₁ => hk.callback (p := .policy v) h₁ (by simp)

theorem Held.stop (hk : Held world cues I) (h : I s) (carry : Session.Carry)
    (decision : SessionStop) :
    Acts world cues (Session.stop carry decision) s
      (Results (fun _ s' => I s') fun _ s' => I s') := by
  unfold Session.stop
  refine plays_then (G := fun _ s' => I s') (plays_ret (results_any (fun _ _ => h) fun _ _ => h))
    fun t s₁ h₁ => ?_
  -- the text of the record is never looked into
  generalize t.recorded = text
  exact plays_then (hk.calls h₁ (by simp) (by simp)) fun _ s₂ h₂ => plays_value h₂

theorem Held.conclude (hk : Held world cues I) (h : I s) (baseline : Nat) (e : Exn) :
    Acts world cues (Session.conclude (α := α) baseline e) s
      (Results (fun _ _ => False) fun _ s' => I s') := by
  unfold Session.conclude
  refine plays_then (hk.calls h (by simp) (by simp)) fun k s₁ h₁ => ?_
  refine plays_then (G := fun _ s' => I s') (plays_ret (results_any (fun _ _ => h₁)
    fun _ _ => h₁)) fun t s₂ h₂ => ?_
  generalize t.recorded = text
  exact plays_then (hk.calls h₂ (by simp) (by simp)) fun _ s₃ h₃ => plays_raise h₃

/-- What every turn keeps too, the whole session keeps. -/
theorem Held.execute {sn : Session} (hk : Held world cues I)
    (hturn : ∀ carry s, I s → Acts world cues (sn.turn carry) s
      (Results (fun _ s' => I s') fun _ s' => I s')) (h : I s) (fuel : Nat) :
    Acts world cues (sn.execute fuel) s (Results (fun _ s' => I s') fun _ s' => I s') := by
  have hloop : ∀ fuel carry s, I s → Acts world cues (sn.loop fuel carry) s
      (Results (fun _ s' => I s') fun _ s' => I s') := by
    intro fuel
    induction fuel with
    | zero => exact fun carry s h => plays_value h
    | succ fuel ih =>
      intro carry s h
      refine plays_then (hturn carry s h) fun next s₁ h₁ => ?_
      cases next with
      | inl t => exact plays_value h₁
      | inr carry => exact ih carry s₁ h₁
  unfold Session.execute
  refine plays_then (G := fun _ s' => I s') (acts_prompted (hk.prompt s _ (by simp) h))
    fun locked s₁ h₁ => ?_
  refine plays_then (G := fun _ s' => I s') (plays_ret (results_any (fun _ _ => h₁)
    fun _ _ => h₁)) fun _ s₂ h₂ => ?_
  refine plays_finally (Q := Results (fun _ s' => I s') fun _ s' => I s') ?_ ?_
  · refine plays_then (hk.calls h₂ (by simp) (by simp)) fun _ s₃ h₃ => ?_
    refine plays_check (fun _ => h₃) fun _ => ?_
    refine plays_then (hk.calls h₃ (by simp) (by simp)) fun _ s₄ h₄ => ?_
    refine plays_check (fun _ => h₄) fun _ => ?_
    refine plays_then (hk.calls h₄ (by simp) (by simp)) fun baseline s₅ h₅ => ?_
    refine plays_catching (Q := Results (fun _ s' => I s') fun _ s' => I s') ?_ (fun _ _ h => h)
      fun e s₆ h₆ => plays_mono (hk.conclude h₆ baseline e) (fun _ _ hf => hf.elim) fun _ _ h => h
    unfold Session.tried
    refine plays_then (hk.checkReady h₅) fun _ s₆ h₆ => ?_
    have h₇ := hk.call s₆ .secondsRemaining (by simp) (by simp) h₆
    refine acts_timeout (hloop fuel {} _ h₇) fun e s₈ h₈ => ?_
    exact ⟨hk.prompt s₈ _ (by simp) h₈, hk.prompt s₈ _ (by simp) h₈⟩
  · rintro (e | r) s₃ h₃ <;>
      exact plays_after (G := fun _ s' => I s') (acts_prompted (hk.prompt s₃ _ (by simp) h₃))
        fun _ _ h => plays_value h

end Held

/-! ## The frame of `execute` -/

/-- `execute` gets past its refusals. -/
structure Admitted (cues : Nat → Cue) (store : SQLiteRun) : Prop where
  lock : (cues 0).reply .lock = .ok ()
  live : store.handle.isSome = true
  unended : store.db.run.outcome = none
  settled : store.db.pending = .ok none

/-- The sitting in which an admitted session comes to its `try`. -/
def Sitting.admitted (world : Nat → Beat) (cues : Nat → Cue) (s : Sitting) : Sitting :=
  (((s.prompt cues .lock).call world .outcome).call world .pending).call world .completedOperations

/-- The `try` of `execute` is left by an exception, in the sitting `s`. -/
def Session.Leaves (sn : Session) (fuel : Nat) (world : Nat → Beat) (cues : Nat → Cue)
    (store : SQLiteRun) (e : Exn) (s : Sitting) : Prop :=
  (sn.tried fuel).run (Sitting.answer world cues)
    (Sitting.admitted world cues { scene := { store } }) = (.error e, s)

/-- A session whose lock has been taken: it reads, and goes on in its `try`, and
the lock is given back. -/
theorem acts_execute {sn : Session} {fuel : Nat}
    {Q R : Except Exn (Option SessionTermination) → Sitting → Prop}
    (ha : Admitted cues (s.prompt cues .lock).scene.store) (hheard : s.heard = [])
    (htry : Acts world cues ((sn.tried fuel).catching
      (Session.conclude (s.prompt cues .lock).scene.store.db.completedOperations))
      (s.admitted world cues) Q)
    (hR : ∀ r s', Q r s' → R r (s'.prompt cues .unlock)) :
    Acts world cues (sn.execute fuel) s R := by
  obtain ⟨handle, hlive⟩ := Option.isSome_iff_exists.mp ha.live
  have hask : ∀ {c : Call} {s' : Sitting} {v : c.Result},
      s'.scene.store = (s.prompt cues .lock).scene.store →
        (∀ clock, c.answer clock (s.prompt cues .lock).scene.store = .ok v) →
          Acts world cues (calls c) s' (Results (fun v' s'' => v' = v ∧ s'.call world c = s'')
            fun _ _ => False) := by
    intro c s' v hs hv
    refine acts_calls ?_
    rw [hs, hv]
    exact ⟨rfl, rfl⟩
  have hlock : s.reply cues .lock = .ok () := by
    change (cues s.heard.length).reply .lock = _
    rw [hheard]
    exact ha.lock
  unfold Session.execute
  refine plays_after (G := fun r s' => r = .ok () ∧ s.prompt cues .lock = s')
    (acts_prompted ⟨hlock, rfl⟩) fun r s₁ ⟨hr, hs⟩ => ?_
  subst hr hs
  refine plays_after (G := fun _ s' => s.prompt cues .lock = s') (plays_ret rfl) fun _ s₁ hs => ?_
  subst hs
  refine plays_finally (Q := Q) ?_ fun r s' hq =>
    plays_after (G := fun _ s'' => R r s'')
      (acts_prompted (hR r s' hq)) fun _ _ hr => plays_value hr
  have hstore : ((s.prompt cues .lock).call world .outcome).scene.store =
      (s.prompt cues .lock).scene.store := reads_store rfl _
  refine plays_after (hask (c := .outcome) rfl fun _ =>
    congrArg Prod.fst (query_of_live hlive)) fun outcome s₂ ⟨hout, hs⟩ => ?_
  subst hs
  refine plays_passes (fun hn => hn (hout.trans ha.unended)) ?_
  refine plays_after (hask (c := .pending) hstore fun _ =>
    (congrArg Prod.fst (query_of_live hlive)).trans ha.settled) fun pending s₃ ⟨hp, hs⟩ => ?_
  subst hs
  refine plays_passes (fun hn => hn hp) ?_
  refine plays_after (hask (c := .completedOperations) ((reads_store rfl _).trans hstore) fun _ =>
    congrArg Prod.fst (query_of_live hlive)) fun baseline s₄ ⟨hb, hs⟩ => ?_
  subst hs hb
  exact htry

end FlynnAgents
