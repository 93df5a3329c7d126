-- The budget of a session. Every turn of its loop that goes on has started an
-- operation, and a start takes an inference that nothing gives back. So the
-- loop ends, whatever the policy says and whoever else writes to the run.
import FlynnAgents.SessionRecord

namespace FlynnAgents

open Programs Relational
open Text (ofString)

variable {world : Nat → Beat} {cues : Nat → Cue} {scene : Scene} {s : Sitting} {c : Call} {a : Ask}
  {N : Int} {b k n : Nat} {sn : Session} {rt : Runtime}

/-! ## What an inference costs -/

def Said.generates : Said Req Req.Answer → Bool
  | ⟨.ask (.generate _ _), _⟩ => true
  | _ => false

/-- How often the task has called the adapter. -/
def Scene.generations (s : Scene) : Nat := s.said.countP Said.generates

/-- Of the `N` inferences that were left, each start took one, and each call of
the adapter was paid by a start, with `k` to spare. The store is open, and at least
`b` operations are completed. -/
structure Funded (N : Int) (b k : Nat) (s : Scene) : Prop where
  live : s.store.handle.isSome = true
  room : 0 ≤ s.store.db.remaining .inference
  spent : s.store.db.remaining .inference + s.starts.length ≤ N
  paid : s.generations + k ≤ s.starts.length
  grown : b ≤ s.store.db.completedOperations

theorem starts_call (c : Call) :
    (scene.call world c).starts = scene.starts ++
      (Said.starts ⟨.store c, c.answer (world scene.turn).clock scene.store⟩).toList := by
  rw [Scene.starts, said_call, List.filterMap_append]
  rfl

theorem starts_ask (a : Ask) : (scene.ask world a).starts = scene.starts := by
  rw [Scene.starts, said_ask, List.filterMap_append]
  exact List.append_nil _

theorem generations_call (c : Call) : (scene.call world c).generations = scene.generations := by
  rw [Scene.generations, said_call, List.countP_append]
  rfl

theorem generations_ask (a : Ask) :
    (scene.ask world a).generations =
      scene.generations +
        (if Said.generates ⟨.ask a, (world scene.turn).reply a⟩ then 1 else 0) := by
  rw [Scene.generations, said_ask, List.countP_append, List.countP_singleton]
  rfl

theorem starts_reserves (c : Call) (x : Except Exn c.Result) :
    (Said.starts ⟨.store c, x⟩).toList.length ≤
      c.reserves.countP (fun r => decide (r.kind = .inference)) := by
  cases c with
  | start => cases x <;> simp [Said.starts, Call.reserves]
  | _ => simp [Said.starts]

/-- A start that returned has taken an inference. -/
theorem starts_pays (world : Nat → Beat) (scene : Scene) (c : Call) :
    (scene.call world c).store.db.remaining .inference +
        (Said.starts ⟨.store c, c.answer (world scene.turn).clock scene.store⟩).toList.length ≤
      scene.store.db.remaining .inference := by
  rcases call_cases world scene c with ⟨handle, hch, -⟩ | ⟨he, hno⟩
  · have := starts_reserves c (c.answer (world scene.turn).clock scene.store)
    have := hch.remaining .inference
    omega
  · have hnone : Said.starts ⟨.store c, c.answer (world scene.turn).clock scene.store⟩ = none := by
      cases c with
      | start =>
        have := hno rfl
        revert this
        generalize Call.answer _ _ _ = x
        cases x <;> simp [Said.starts, Except.isOk, Except.toBool]
      | _ => rfl
    rw [hnone, he]
    simp

theorem change_grows {t t' : Tables} {handle : Handle} {clock : Clock}
    (h : Change handle clock t c t') (hb : b ≤ t.completedOperations) :
    b ≤ t'.completedOperations := by
  have := h.completedOperations
  omega

theorem change_takes {t t' : Tables} {handle : Handle} {clock : Clock} {r : Int}
    (h : Change handle clock t c t') (hr : t.remaining .inference ≤ r) :
    t'.remaining .inference ≤ r := by
  have := h.remaining .inference
  omega

/-- A call leaves the spare, or it is a start and adds to it. -/
theorem Funded.call (h : Funded N b k scene) (hc : c ≠ .close) (ho : c ≠ .openRun) :
    Funded N b (k + (Said.starts ⟨.store c,
      c.answer (world scene.turn).clock scene.store⟩).toList.length) (scene.call world c) where
  live := (congrArg Option.isSome (exec_handle hc ho)).trans h.live
  room := call_keeps (I := fun t => 0 ≤ t.remaining .inference)
    (fun _ _ _ _ _ hr hc => hc.room hr) h.room c
  spent := by
    have := starts_pays world scene c
    have := h.spent
    rw [starts_call, List.length_append]
    omega
  paid := by
    have := h.paid
    rw [starts_call, List.length_append, generations_call]
    omega
  grown := call_keeps (I := fun t => b ≤ t.completedOperations)
    (fun _ _ _ _ _ hb hc => change_grows hc hb) h.grown c

/-- Others may take inferences, and give none back. -/
theorem Funded.others {store : SQLiteRun} (h : Funded N b k scene)
    (hlive : store.handle.isSome = true)
    (hkeeps : ∀ I : Tables → Prop,
      (∀ handle clock t c t', I t → Change handle clock t c t' → I t') →
      I scene.store.db → I store.db) : Funded N b k { scene with store } where
  live := hlive
  room := hkeeps (fun t => 0 ≤ t.remaining .inference) (fun _ _ _ _ _ hr hc => hc.room hr) h.room
  spent := by
    have := hkeeps (fun t => t.remaining .inference ≤ scene.store.db.remaining .inference)
      (fun _ _ _ _ _ hr hc => change_takes hc hr) le_rfl
    have := h.spent
    change store.db.remaining .inference + scene.starts.length ≤ N
    omega
  paid := h.paid
  grown := hkeeps (fun t => b ≤ t.completedOperations)
    (fun _ _ _ _ _ hb hc => change_grows hc hb) h.grown

/-- An ask leaves the spare, but for an inference, which takes one. -/
theorem Funded.ask (h : Funded N b (k + if Said.generates ⟨.ask a, (world scene.turn).reply a⟩
    then 1 else 0) scene) (hw : StaysOpen world) : Funded N b k (scene.ask world a) := by
  have hlive : (scene.meanwhile world a).handle.isSome = true :=
    (congrArg Option.isSome (meanwhile_handle hw a)).trans h.live
  have ho := h.others hlive fun I hI hi => meanwhile_keeps hI hi a
  refine ⟨ho.live, ho.room, ?_, ?_, ho.grown⟩
  · rw [starts_ask]
    exact ho.spent
  · have := h.paid
    rw [starts_ask, generations_ask]
    omega

/-! ## A step -/

/-- What a phase has paid for and not used. -/
def Phase.credit : Phase → Nat
  | .started _ => 1
  | _ => 0

theorem credit_call (p : Phase) (c : Call) (x : Except Exn c.Result) :
    (p.next (.store c) x).credit ≤ p.credit + (Said.starts ⟨.store c, x⟩).toList.length := by
  unfold Phase.next
  split
  · rename_i hq hx
    cases hq
    cases eq_of_heq hx
    simp [Phase.credit, Said.starts]
  all_goals simp_all [Phase.credit]

theorem credit_ask {p : Phase} (hp : p.mayAsk a) (x : a.Answer) :
    (p.next (.ask a) x).credit + (if Said.generates ⟨.ask a, x⟩ then 1 else 0) ≤ p.credit := by
  cases a with
  | generate o request =>
    cases hp
    simp only [Phase.next]
    split <;> simp [Phase.credit, Said.generates]
  | _ =>
    unfold Phase.next
    split <;> simp_all [Phase.credit, Said.generates]

theorem mayCall_open {p : Phase} (hp : p.mayCall c) : c ≠ .close ∧ c ≠ .openRun := by
  constructor <;>
    rintro rfl <;>
    cases p <;>
    simp [Phase.mayCall, Call.isQuiet] at hp

theorem Funded.less (h : Funded N b k scene) {k' : Nat} (hk : k' ≤ k) : Funded N b k' scene :=
  { h with paid := (Nat.add_le_add_left hk _).trans h.paid }

/-- A program of the runtime pays for what it asks. -/
theorem Funded.runs {ε α : Type} {x : Flow ε α} {p : Phase} {Q : Except ε α → Phase → Prop}
    (h : Funded N b p.credit scene) (hw : StaysOpen world) (hx : phases.wp x p Q) :
    Plays world x scene fun _ s' => Funded N b 0 s' := by
  have hstep : ∀ p q (s' : Scene), phases.allowed p q → Funded N b p.credit s' →
      phases.possible p q (Scene.answer world q s').1 ∧
        Funded N b (phases.next p q (Scene.answer world q s').1).credit
          (Scene.answer world q s').2 := by
    intro p q s' hp hs
    refine ⟨trivial, ?_⟩
    cases q with
    | store c =>
      obtain ⟨hc, ho⟩ := mayCall_open hp
      exact (hs.call hc ho).less (credit_call p c _)
    | ask a => exact Funded.ask (hs.less (credit_ask hp _)) hw
  obtain ⟨p', -, hf⟩ := Protocol.wp_run (Scene.answer world)
    (fun p s' => Funded N b p.credit s') hstep hx h
  exact hf.less (Nat.zero_le _)

/-- A lock raises nothing but the cancellation of the task that waits for it. -/
def LockCancels (world : Nat → Beat) : Prop :=
  ∀ n e, (world n).reply .acquire = .error e → e.bases = [.cancelledError]

theorem starts_grow_call (h : n ≤ scene.starts.length) (c : Call) :
    n ≤ (scene.call world c).starts.length := by
  rw [starts_call, List.length_append]
  omega

theorem starts_grow_ask (h : n ≤ scene.starts.length) (a : Ask) :
    n ≤ (scene.ask world a).starts.length := by
  rw [starts_ask]
  exact h

theorem plays_starts {ε α : Type} {x : Flow ε α} (h : n ≤ scene.starts.length) :
    Plays world x scene fun _ s' => n ≤ s'.starts.length :=
  plays_scene (I := fun s' => n ≤ s'.starts.length) (fun _ c hs => starts_grow_call hs c)
    (fun _ a hs => starts_grow_ask hs a) h

theorem kept_unrejected : Kept world fun s' => s'.rejected = none ∧ n ≤ s'.starts.length where
  call _ c _ h := ⟨h.1, starts_grow_call h.2 c⟩
  ask s a ha h := by
    refine ⟨?_, starts_grow_ask h.2 a⟩
    cases a <;> first | exact h.1 | cases ha

/-- A start that returns is one more. -/
theorem plays_start {o : String} {request : InferenceRequest}
    {output : Option (Dyn OutputReservation)}
    {guards : Dyn (List String)} (h : scene.rejected = none ∧ n ≤ scene.starts.length) :
    Plays world (store (.start o request output guards)) scene
      (Results (fun _ s' => n + 1 ≤ s'.starts.length)
        fun _ s' => s'.rejected = none ∨ n + 1 ≤ s'.starts.length) := by
  refine plays_store (results_any (fun u hans => ?_) fun e _ => .inl h.1)
  rw [starts_call, hans, List.length_append]
  exact Nat.succ_le_succ h.2

/-- A step that returns, or whose rejection the runtime certifies, has started an operation. -/
theorem plays_advances (hlock : LockCancels world) (objective : String)
    (grants : Option (List String)) (h : n ≤ scene.starts.length) :
    Plays world (rt.step objective grants) scene
      (Results (fun _ s' => n + 1 ≤ s'.starts.length) fun e s' =>
        e.bases = [.cancelledError] ∨ s'.rejected = none ∨ n + 1 ≤ s'.starts.length) := by
  have hask : ∀ {s' : Scene} (a : Ask), (s'.rejected = none ∨ n + 1 ≤ s'.starts.length) →
      s'.rejectedAfter a = s'.rejected →
        ((s'.ask world a).rejected = none ∨ n + 1 ≤ (s'.ask world a).starts.length) := by
    intro s' a hs hr
    exact hs.imp (fun hn => hr.trans hn) fun hn => starts_grow_ask hn a
  unfold Runtime.step
  refine plays_locked (fun e he => .inl (hlock _ e he))
    (plays_mono (G := fun _ s' => n + 1 ≤ s'.starts.length)
      (B := fun _ s' => s'.rejected = none ∨ n + 1 ≤ s'.starts.length) ?_
      (fun _ _ hp => hp) fun _ _ hp => .inr hp)
    (fun _ s' hs => starts_grow_ask hs _) fun _ s' hs => hs.imp_right fun hs => hask _ hs rfl
  refine plays_then (G := fun _ s' => s'.rejected = none ∧ n ≤ s'.starts.length)
    (plays_ask (plays_value ⟨rfl, starts_grow_ask (starts_grow_ask h _) _⟩)) fun _ s₁ h₁ => ?_
  refine plays_then (plays_raised (kept_unrejected.store h₁ rfl) fun _ _ hp => .inl hp.1)
    fun _ s₂ h₂ => ?_
  refine plays_timeout ?_
    fun e s' hs => ⟨hask _ hs rfl, hask _ hs rfl⟩
  refine plays_stepBody kept_unrejected (kept_unrejected.call _ _ rfl h₂) (fun _ _ hp => .inl hp.1)
    (fun o request output s' hp => plays_start hp) fun o request s' hp => ?_
  refine plays_weaken (plays_starts hp) ?_
  rintro (e | result) s'' hs
  · exact .inr hs
  · exact hs

/-! ## The loop -/

/-- The session has its budget, and has started at least `n` operations. -/
structure Backed (N : Int) (b n : Nat) (s : Sitting) : Prop where
  funded : Funded N b 0 s.scene
  started : n ≤ s.scene.starts.length

/-- The run has ended. -/
def Over (s : Sitting) : Prop := s.scene.store.db.run.outcome ≠ none

theorem Backed.room (h : Backed N b n s) : (n : Int) ≤ N := by
  have := h.funded.room
  have := h.funded.spent
  have := h.started
  omega

theorem Backed.fewer (h : Backed N b n s) {n' : Nat} (hn : n' ≤ n) : Backed N b n' s :=
  ⟨h.funded, hn.trans h.started⟩

theorem Backed.call (h : Backed N b n s) (hc : c ≠ .close) (ho : c ≠ .openRun) :
    Backed N b n (s.call world c) :=
  ⟨(h.funded.call hc ho).less (Nat.zero_le _), starts_grow_call h.started c⟩

theorem Backed.prompt (h : Backed N b n s) (hc : StayOpen cues) (p : Prompt) :
    Backed N b n (s.prompt cues p) :=
  ⟨h.funded.others ((congrArg Option.isSome (prompt_handle hc p)).trans h.funded.live)
    fun _ hI hi => prompt_keeps hI hi p, h.started⟩

theorem backed_held (hc : StayOpen cues) : Held world cues (Backed N b n) where
  call _ _ hclose hopen h := h.call hclose hopen
  prompt _ p _ h := h.prompt hc p

/-- A run that is asked to end with a text has ended. -/
theorem Backed.finish (h : Backed N b n s) {text : String} (ht : blank text = false) :
    Acts world cues (calls (.finish (.typed text))) s
      (Results (fun _ s' => Backed N b n s' ∧ Over s') fun _ s' => Backed N b n s' ∧ Over s') := by
  have hover : Over (s.call world (.finish (.typed text))) := by
    rcases call_cases world s.scene (.finish (.typed text)) with
      ⟨handle, hch, -⟩ | ⟨he, hno⟩
    · intro ho
      change (s.scene.call world (.finish (.typed text))).store.db.run.outcome = none at ho
      generalize (s.scene.call world (.finish (.typed text))).store.db = t' at hch ho
      cases hch
      cases ho
    · change (s.scene.call world (.finish (.typed text))).store.db.run.outcome ≠ none
      rw [he]
      intro ho
      obtain ⟨handle, hlive⟩ := Option.isSome_iff_exists.mp h.funded.live
      have hcommits : Commits (world s.scene.turn).clock (.finish (.typed text)) s.scene.store _ :=
        ⟨handle, _, hlive, .finish ho ht, rfl⟩
      have hok := ok_of_commits (i := ⟨(world s.scene.turn).clock, _⟩) rfl hcommits
      change ((Call.finish (.typed text)).answer (world s.scene.turn).clock
        s.scene.store).isOk = true at hok
      rw [hno rfl] at hok
      cases hok
  have hback : Backed N b n (s.call world (.finish (.typed text))) := h.call (by simp) (by simp)
  exact acts_calls (results_any (fun _ _ => ⟨hback, hover⟩) fun _ _ => ⟨hback, hover⟩)

theorem Backed.stop (h : Backed N b n s) (carry : Session.Carry) (decision : SessionStop) :
    Acts world cues (Session.stop carry decision) s
      (Results (fun _ s' => Backed N b n s' ∧ Over s') fun _ s' => Backed N b n s') := by
  unfold Session.stop
  refine plays_then (G := fun _ s' => Backed N b n s') (plays_ret (results_any (fun _ _ => h)
    fun _ _ => h)) fun t s₁ h₁ => ?_
  -- the text of the record is never looked into
  have hfin : Acts world cues _ _ _ :=
    plays_raised (h₁.finish (recorded_named t)) fun _ _ hp => hp.1
  generalize t.recorded = text at hfin ⊢
  exact plays_then hfin fun _ s₂ h₂ => plays_value h₂

theorem Backed.conclude {α : Type} (h : Backed N b n s) {e : Exn}
    (he : blank e.typeName = false) :
    Acts world cues (Session.conclude (α := α) b e) s
      (Results (fun _ _ => False) fun _ s' => Backed N b n s' ∧ Over s') := by
  obtain ⟨handle, hlive⟩ := Option.isSome_iff_exists.mp h.funded.live
  have hcount : Call.answer .completedOperations (world s.scene.turn).clock s.scene.store =
      .ok s.scene.store.db.completedOperations := congrArg Prod.fst (query_of_live hlive)
  unfold Session.conclude
  refine plays_then (G := fun k s' => b ≤ k ∧ Backed N b n s')
    (acts_calls (results_any (fun k hk => ?_) fun e' he' => ?_)) fun k s₁ ⟨hk, h₁⟩ => ?_
  · rw [hcount] at hk
    cases hk
    exact ⟨h.funded.grown, h.call (by simp) (by simp)⟩
  · rw [hcount] at he'
    cases he'
  have haccepted : (⟨Session.kindOf e, ofString e.typeName, (k : Int) - b⟩ :
      TerminationFields).postInit = none := by
    have hnonneg : ¬ ((k : Int) - b < 0) := by omega
    simp [TerminationFields.postInit, he, hnonneg]
  refine plays_then (G := fun _ s' => s₁ = s') (plays_ret ?_) fun t s₂ hs => ?_
  · rw [create_ok_of haccepted]
    rfl
  · subst hs
    have hfin : Acts world cues _ _ _ := h₁.finish (recorded_named t)
    generalize t.recorded = text at hfin ⊢
    exact plays_then hfin fun _ s₂ h₂ => plays_raise h₂

theorem isinstance_cancelled {e : Exn} (h : e.bases = [.cancelledError]) :
    e.isinstance .proposalRejected = false ∧ e.isinstance .inferenceRejected = false := by
  unfold Exn.isinstance
  rw [h]
  decide

/-- An exception that is corrected has come out of an operation that was started. -/
theorem Backed.correct {e : Exn} (h : Backed N b n s) (hc : StayOpen cues) (carry : Session.Carry)
    (he : e.bases = [.cancelledError] ∨ s.scene.rejected = none ∨ n + 1 ≤ s.scene.starts.length) :
    Acts world cues (sn.correct carry e) s
      (Results (fun _ s' => Backed N b (n + 1) s') fun _ s' => Backed N b n s') := by
  unfold Session.correct
  refine plays_check (fun _ => h) fun hrejection => ?_
  refine plays_check (fun _ => h) fun _ => ?_
  refine plays_then (G := fun r s' => r = s.scene.rejected ∧ s.prompt cues .rejected = s')
    (acts_prompted ⟨rfl, rfl⟩) fun r s₁ ⟨hr, hs⟩ => ?_
  subst hs
  have h₁ := h.prompt hc .rejected
  refine plays_check (fun _ => h₁) fun hsome => ?_
  rw [hr, not_not] at hsome
  have hstarted : Backed N b (n + 1) (s.prompt cues .rejected) := by
    rcases he with he | hn | hn
    · obtain ⟨hp, hi⟩ := isinstance_cancelled he
      rw [hp, hi] at hrejection
      simp at hrejection
    · rw [hn] at hsome
      cases hsome
    · exact ⟨h₁.funded, hn⟩
  refine plays_then (plays_raised ((backed_held hc).checkReady hstarted)
    fun _ _ hp => hp.fewer (Nat.le_succ n))
    fun _ s₂ h₂ => ?_
  refine plays_then (plays_raised ((backed_held hc).view h₂ carry)
    fun _ _ hp => hp.fewer (Nat.le_succ n))
    fun v s₃ h₃ => ?_
  refine plays_then (plays_raised (G := fun _ s' => Backed N b (n + 1) s')
    (B := fun _ s' => Backed N b (n + 1) s') (acts_callback (fun _ _ => h₃.prompt hc _)
      fun _ _ => h₃.prompt hc _) fun _ _ hp => hp.fewer (Nat.le_succ n)) fun d s₄ h₄ => ?_
  cases d with
  | other => exact plays_raise (h₄.fewer (Nat.le_succ n))
  | typed d => exact plays_value h₄

/-- After a turn the session has stopped, or it has started one more operation. -/
def Spends (N : Int) (b n : Nat) : SessionTermination ⊕ Session.Carry → Sitting → Prop
  | .inl _, s => Backed N b n s ∧ Over s
  | .inr _, s => Backed N b (n + 1) s

theorem Backed.turn (h : Backed N b n s) (hw : StaysOpen world) (hc : StayOpen cues)
    (hlock : LockCancels world) (carry : Session.Carry) :
    Acts world cues (sn.turn carry) s
      (Results (Spends N b n) fun _ s' => Backed N b n s') := by
  unfold Session.turn
  refine plays_then ((backed_held hc).decision h carry) fun d s₁ h₁ => ?_
  refine plays_then ((backed_held hc).checkReady h₁) fun _ s₂ h₂ => ?_
  split
  · exact plays_raise h₂
  · exact plays_then (h₂.stop _ _) fun t s₃ h₃ => plays_value h₃
  · rename_i step
    have hfunded : Plays world (sn.runtime.step step.objective (some step.grants)) s₂.scene _ :=
      h₂.funded.runs (p := .idle) hw Runtime.wp_step
    have hstarts : Plays world (sn.runtime.step step.objective (some step.grants)) s₂.scene _ :=
      plays_starts h₂.started
    have hadvances : Plays world (sn.runtime.step step.objective (some step.grants)) s₂.scene _ :=
      plays_advances hlock step.objective (some step.grants) h₂.started
    refine plays_then (plays_attempted (acts_scene (plays_and hfunded
      (plays_and hstarts hadvances)))) fun r s₃ ⟨⟨hf, hn, hr⟩, _⟩ => ?_
    have h₃ : Backed N b n s₃ := ⟨hf, hn⟩
    cases r with
    | error e => exact plays_then (h₃.correct hc _ hr) fun carry' s₄ h₄ => plays_value h₄
    | ok result =>
      have h₄ : Backed N b (n + 1) s₃ := ⟨hf, hr⟩
      dsimp only
      split
      · exact plays_then (plays_raised ((backed_held hc).callback (p := .onStep result) h₄
          (by simp)) fun _ _ hp => hp.fewer (Nat.le_succ n)) fun _ s₅ h₅ => plays_value h₅
      · exact plays_value h₄

/-- The loop stays in its budget, and it ends when there is a turn for each
inference and one more. -/
theorem Backed.loop (hw : StaysOpen world) (hc : StayOpen cues) (hlock : LockCancels world)
    (fuel : Nat) : ∀ {n : Nat} {carry : Session.Carry} {s : Sitting}, Backed N b n s →
      Acts world cues (sn.loop fuel carry) s
        (Results (fun r s' => Backed N b 0 s' ∧ (r ≠ none → Over s') ∧ (N < n + fuel → r ≠ none))
          fun _ s' => Backed N b 0 s') := by
  induction fuel with
  | zero =>
    intro n carry s h
    have := h.room
    exact plays_value ⟨h.fewer (Nat.zero_le n), by simp, by omega⟩
  | succ fuel ih =>
    intro n carry s h
    refine plays_then (plays_raised (h.turn hw hc hlock carry) fun _ _ hp =>
      hp.fewer (Nat.zero_le n)) fun next s₁ h₁ => ?_
    cases next with
    | inl t => exact plays_value ⟨h₁.1.fewer (Nat.zero_le n), fun _ => h₁.2, by simp⟩
    | inr carry =>
      refine plays_mono (ih h₁) (fun r s₂ ⟨h₂, hover, hnone⟩ => ⟨h₂, hover, fun hn => hnone ?_⟩)
        fun _ _ hp => hp
      push_cast at hn ⊢
      omega

/-! ## The whole session -/

/-- How `execute` has spent the budget after its `try` was left with `r`, in the
sitting `s₁`. -/
def Bounded (N : Int) (b fuel : Nat) (r : Except Exn (Option SessionTermination)) (s₁ : Sitting)
    (r' : Except Exn (Option SessionTermination)) (s : Sitting) : Prop :=
  Backed N b 0 s ∧ match r with
    | .ok t => r' = .ok t ∧ (t ≠ none → Over s) ∧ (N < fuel → t ≠ none)
    | .error e => r' ≠ .ok none ∧ (Over s ↔ blank e.typeName = false ∨ Over s₁)

theorem Backed.tried (h : Backed N b 0 s) (hw : StaysOpen world) (hc : StayOpen cues)
    (hlock : LockCancels world) (fuel : Nat) :
    Acts world cues (sn.tried fuel) s (Results (fun r s' => Backed N b 0 s' ∧
      (r ≠ none → Over s') ∧ (N < fuel → r ≠ none)) fun _ s' => Backed N b 0 s') := by
  unfold Session.tried
  refine plays_then ((backed_held hc).checkReady h) fun _ s₁ h₁ => ?_
  have h₂ : Backed N b 0 (s₁.call world .secondsRemaining) := h₁.call (by simp) (by simp)
  refine acts_timeout (plays_mono (Backed.loop hw hc hlock fuel h₂)
    (fun r s' ⟨hb, hover, hnone⟩ => ⟨hb, hover, fun hn => hnone ?_⟩) fun _ _ hp => hp)
    fun e s' hs => ⟨hs.prompt hc _, hs.prompt hc _⟩
  simpa using hn

theorem Backed.guarded (h : Backed N b 0 s) (hw : StaysOpen world) (hc : StayOpen cues)
    (hlock : LockCancels world) (fuel : Nat) {r : Except Exn (Option SessionTermination)}
    {s₁ : Sitting} (hr : (sn.tried fuel).run (Sitting.answer world cues) s = (r, s₁)) :
    Acts world cues ((sn.tried fuel).catching (Session.conclude b)) s
      (Bounded N b fuel r s₁) := by
  have htried : (sn.tried fuel).Plays (Sitting.answer world cues) s _ := h.tried hw hc hlock fuel
  refine plays_catching (Q := fun r₀ s₀ => (r₀ = r ∧ s₀ = s₁) ∧ Results (fun t s' =>
    Backed N b 0 s' ∧ (t ≠ none → Over s') ∧ (N < fuel → t ≠ none))
      (fun _ s' => Backed N b 0 s') r₀ s₀) ?_ ?_ ?_
  · unfold Prog.Plays at htried ⊢
    rw [hr] at htried ⊢
    exact ⟨⟨rfl, rfl⟩, htried⟩
  · rintro t s₂ ⟨⟨rfl, rfl⟩, hb, hover, hnone⟩
    exact ⟨hb, rfl, hover, hnone⟩
  · rintro e s₂ ⟨⟨rfl, rfl⟩, h₂⟩
    cases he : blank e.typeName with
    | true =>
      -- nothing is written, and the run is as the `try` has left it
      refine plays_weaken (acts_nameless he b h₂.funded.live) ?_
      rintro (e' | t) s₃ hs
      · obtain ⟨-, rfl⟩ := hs
        have hstore : (s₂.call world .completedOperations).scene.store = s₂.scene.store :=
          reads_store rfl s₂.scene
        refine ⟨h₂.call (by simp) (by simp), by simp, ?_⟩
        unfold Over
        rw [hstore, he]
        simp
      · exact hs.elim
    | false =>
      refine plays_weaken (h₂.conclude he) ?_
      rintro (e' | t) s₃ hs
      · exact ⟨hs.1, by simp, fun _ => .inl he, fun _ => hs.2⟩
      · exact hs.elim

theorem Bounded.prompt {fuel : Nat} {r r' : Except Exn (Option SessionTermination)} {s₁ : Sitting}
    (h : Bounded N b fuel r s₁ r' s) (hc : StayOpen cues) :
    Bounded N b fuel r s₁ r' (s.prompt cues .unlock) :=
  ⟨h.1.prompt hc _, h.2⟩

/-- A session whose lock has been taken in a run with `N` inferences left. -/
theorem acts_bounded (h : Backed N 0 0 (s.prompt cues .lock)) (hw : StaysOpen world)
    (hc : StayOpen cues) (hlock : LockCancels world)
    (ha : Admitted cues (s.prompt cues .lock).scene.store) (hheard : s.heard = []) {fuel : Nat}
    {r : Except Exn (Option SessionTermination)} {s₁ : Sitting}
    (hr : (sn.tried fuel).run (Sitting.answer world cues) (s.admitted world cues) = (r, s₁)) :
    Acts world cues (sn.execute fuel) s
      (Bounded N (s.prompt cues .lock).scene.store.db.completedOperations fuel r s₁) := by
  refine acts_execute (Q := Bounded N _ fuel r s₁) ha hheard ?_ fun r' s' h => h.prompt hc
  have hlocked : Backed N (s.prompt cues .lock).scene.store.db.completedOperations 0
      (s.prompt cues .lock) :=
    ⟨{ h.funded with grown := le_rfl }, Nat.zero_le _⟩
  exact (((hlocked.call (by simp) (by simp)).call (by simp) (by simp)).call (by simp)
    (by simp)).guarded hw hc hlock fuel hr

/-- In a run that is left open, whatever the policy, the callbacks, the
application and everyone else do: a session that gets past its refusals when `N`
inferences are left calls the adapter at most `N` times, what is left included,
and after at most `N + 1` turns of its loop it returns or raises. The run has then
ended, unless the `try` of `execute` is left by an exception whose class has a
blank name, and nobody else has ended the run. -/
theorem a_session_ends_on_its_budget_iff_the_failure_has_a_name {now : ℚ} {clock : Clock}
    {self : SQLiteRun} {runId state : Dyn String} {limits : RunLimits}
    {observation : Option (Dyn String)}
    (h : SQLiteRun.create now clock runId state limits observation = .ok self)
    (calls : List Timed) (sn : Session) (world : Nat → Beat) (cues : Nat → Cue)
    (hw : StaysOpen world) (hc : StayOpen cues) (hlock : LockCancels world)
    (ha : Admitted cues ((self.after calls).after (cues 0).others)) {N : Nat}
    (hN : (self.after calls).db.remaining .inference = N) (fuel : Nat) :
    (sn.sit fuel world cues (self.after calls)).2.scene.generations +
        (sn.sit fuel world cues (self.after calls)).2.scene.store.db.remaining .inference ≤ N ∧
      (sn.sit fuel world cues (self.after calls)).2.scene.generations ≤ N ∧
      (N + 1 ≤ fuel →
        (sn.sit fuel world cues (self.after calls)).1 ≠ .ok none ∧
        ((sn.sit fuel world cues (self.after calls)).2.scene.store.db.run.outcome ≠ none ↔
          ∀ e s, sn.Leaves fuel world cues (self.after calls) e s →
            blank e.typeName = false ∨ s.scene.store.db.run.outcome ≠ none)) := by
  have hfresh : Backed N 0 0 { scene := { store := self.after calls } } := by
    obtain ⟨id, text, seen, hdb, -⟩ := create_ok h
    have hroom := (reserved_after (hdb ▸ reserved_fresh) calls).room .inference
    refine ⟨⟨?_, hroom, ?_, Nat.zero_le _, Nat.zero_le _⟩, Nat.zero_le _⟩
    · exact (congrArg Option.isSome (after_handle _ (hc 0))).symm.trans ha.live
    · change (self.after calls).db.remaining .inference + 0 ≤ N
      omega
  rcases hr : (sn.tried fuel).run (Sitting.answer world cues)
    (Sitting.admitted world cues { scene := { store := self.after calls } }) with ⟨r, s₁⟩
  have hrun : Acts world cues (sn.execute fuel) { scene := { store := self.after calls } } _ :=
    acts_bounded (hfresh.prompt hc .lock) hw hc hlock ha rfl hr
  change Bounded N _ fuel r s₁ (sn.sit fuel world cues (self.after calls)).1
    (sn.sit fuel world cues (self.after calls)).2 at hrun
  obtain ⟨hb, hend⟩ := hrun
  have hspent := hb.funded.spent
  have hpaid := hb.funded.paid
  have hroom := hb.funded.room
  refine ⟨by omega, by omega, fun hfuel => ?_⟩
  unfold Session.Leaves
  rw [hr]
  rcases r with e | t
  · refine ⟨hend.1, fun hover e' s' heq => ?_, fun hall => ?_⟩
    · cases heq
      exact hend.2.mp hover
    · exact hend.2.mpr (hall e s₁ rfl)
  · obtain ⟨ht, hover, hnone⟩ := hend
    have hsome : t ≠ none := hnone (by omega)
    refine ⟨fun he => hsome (Except.ok.inj (ht.symm.trans he)), fun _ e s heq => ?_,
      fun _ => hover hsome⟩
    cases heq

theorem a_session_ends_on_its_budget_sample :
    (sampleSession.sit 4 sampleBeat sampleCue (sampleStore.after [])).2.scene.generations ≤ 3 ∧
      (sampleSession.sit 4 sampleBeat namelessCue
        (sampleStore.after [])).2.scene.store.db.run.outcome = none := by
  have hw : StaysOpen sampleBeat := fun _ _ hi => absurd hi List.not_mem_nil
  have hlock : LockCancels sampleBeat := fun _ _ he => by cases he
  have hN : (sampleStore.after []).db.remaining .inference = ((3 : Nat) : Int) := by decide +kernel
  refine ⟨?_, ?_⟩
  · exact (a_session_ends_on_its_budget_iff_the_failure_has_a_name create_sampleStore []
      sampleSession sampleBeat sampleCue hw (fun _ _ hi => absurd hi List.not_mem_nil) hlock
      ⟨rfl, rfl, rfl, by decide +kernel⟩ hN 4).2.1
  · have hnameless := (a_session_ends_on_its_budget_iff_the_failure_has_a_name create_sampleStore []
      sampleSession sampleBeat namelessCue hw (fun _ _ hi => absurd hi List.not_mem_nil) hlock
      ⟨rfl, rfl, rfl, by decide +kernel⟩ hN 4).2.2 (by decide)
    by_contra hover
    rcases hnameless.2.mp hover (otherError "" "") _ (Prod.ext (by decide +kernel) rfl) with hn | hn
    · exact absurd hn (by decide +kernel)
    · exact hn (by decide +kernel)

theorem a_failure_without_a_name_leaves_the_run_open :
    ¬ ∀ (now : ℚ) (clock : Clock) (self : SQLiteRun) (runId state : Dyn String)
        (limits : RunLimits) (observation : Option (Dyn String)),
      SQLiteRun.create now clock runId state limits observation = .ok self →
      ∀ (calls : List Timed) (sn : Session) (world : Nat → Beat) (cues : Nat → Cue),
        StaysOpen world → StayOpen cues → LockCancels world →
        Admitted cues ((self.after calls).after (cues 0).others) →
        ∀ N : Nat, (self.after calls).db.remaining .inference = N → ∀ fuel, N + 1 ≤ fuel →
          (sn.sit fuel world cues (self.after calls)).2.scene.store.db.run.outcome ≠ none := by
  intro hall
  refine hall _ _ _ _ _ _ _ create_sampleStore [] sampleSession sampleBeat namelessCue
    (fun _ _ hi => absurd hi List.not_mem_nil) (fun _ _ hi => absurd hi List.not_mem_nil)
    (fun _ _ he => by cases he) ⟨rfl, rfl, rfl, by decide +kernel⟩ 3 (by decide +kernel) 4
    (by decide) ?_
  decide +kernel

end FlynnAgents
