-- One task among others. While its application code runs and while it waits,
-- others may call the store, and what the task asked and was answered is
-- kept beside the store.
import FlynnAgents.Runtime
import FlynnAgents.StoreSteps

namespace FlynnAgents

open Programs

/-! ## The surroundings of a task -/

/-- What a task meets at one request: the calls that others make on the store
before the answer, the readings of the clocks, and the reply. -/
structure Beat where
  others : List Timed := []
  clock : Clock
  reply : (a : Ask) → a.Answer

/-- The asks that run application code or suspend the task. -/
def Ask.yields : Ask → Bool
  | .release | .setRejected _ | .newId | .appendEvent _ | .expired _ => false
  | _ => true

/-- A request with its answer, and the store that it met. -/
structure Told extends Said Req Req.Answer where
  store : SQLiteRun

/-- A task with its store: how many requests it made, what it was told, and the
`rejected_proposal` of its runtime. -/
structure Scene where
  store : SQLiteRun
  turn : Nat := 0
  told : List Told := []
  rejected : Option Exn := none

/-- What was said, without the stores. -/
def Scene.said (s : Scene) : List (Said Req Req.Answer) := s.told.map Told.toSaid

namespace Scene

/-- The scene after a call of the task. -/
def call (world : Nat → Beat) (s : Scene) (call : Call) : Scene where
  store := (exec ⟨(world s.turn).clock, call⟩ s.store).2
  turn := s.turn + 1
  told := s.told ++ [⟨⟨.store call, call.answer (world s.turn).clock s.store⟩, s.store⟩]
  rejected := s.rejected

/-- The store when an ask is answered: the others have made their calls. -/
def meanwhile (world : Nat → Beat) (s : Scene) (a : Ask) : SQLiteRun :=
  if a.yields then s.store.after (world s.turn).others else s.store

/-- The `rejected_proposal` after an ask. -/
def rejectedAfter (s : Scene) : Ask → Option Exn
  | .setRejected error => error
  | _ => s.rejected

/-- The scene after an ask. -/
def ask (world : Nat → Beat) (s : Scene) (a : Ask) : Scene where
  store := s.meanwhile world a
  turn := s.turn + 1
  told := s.told ++ [⟨⟨.ask a, (world s.turn).reply a⟩, s.store⟩]
  rejected := s.rejectedAfter a

/-- One request is answered. -/
def answer (world : Nat → Beat) : (q : Req) → Scene → q.Answer × Scene
  | .store c, s => (c.answer (world s.turn).clock s.store, s.call world c)
  | .ask a, s => ((world s.turn).reply a, s.ask world a)

end Scene

/-- The calls that change neither the file nor what its owner holds. -/
def Call.onlyReads : Call → Bool
  | .outcome | .read | .latestObservation | .remaining | .pending | .checkReady | .outputBudget
  | .usageSummary | .completedOperations | .records | .secondsRemaining => true
  | _ => false

/-- Nobody else does more than read. -/
def Quiet (world : Nat → Beat) : Prop :=
  ∀ n, ∀ i ∈ (world n).others, i.call.onlyReads = true

/-- Nobody else does more than read, and end the run. -/
def OnlyFinishes (world : Nat → Beat) : Prop :=
  ∀ n, ∀ i ∈ (world n).others, i.call.onlyReads = true ∨ ∃ text, i.call = .finish text

/-- Nobody closes or opens the run. -/
def StaysOpen (world : Nat → Beat) : Prop :=
  ∀ n, ∀ i ∈ (world n).others, i.call ≠ .close ∧ i.call ≠ .openRun

variable {world : Nat → Beat} {s : Scene} {call : Call} {a : Ask} {ε α β : Type}
  {Q : Except ε α → Scene → Prop}

theorem onlyReads_open (h : call.onlyReads = true) : call ≠ .close ∧ call ≠ .openRun := by
  constructor <;>
    rintro rfl <;>
    cases h

/-- What only reads leaves the store. -/
theorem after_onlyReads {self : SQLiteRun} {calls : List Timed}
    (h : ∀ i ∈ calls, i.call.onlyReads = true) : self.after calls = self := by
  induction calls with
  | nil => rfl
  | cons i calls ih =>
    have hi := h i List.mem_cons_self
    have hm : i.call.mutates = false := by
      revert hi
      cases i.call <;> simp [Call.onlyReads, Call.mutates]
    have hself : (exec i self).2 = self :=
      (read_run hm).2 (onlyReads_open hi).1 (onlyReads_open hi).2
    change (exec i self).2.after calls = self
    rw [hself]
    exact ih fun j hj => h j (List.mem_cons_of_mem i hj)

theorem Quiet.onlyFinishes (h : Quiet world) : OnlyFinishes world := fun n i hi => .inl (h n i hi)

theorem OnlyFinishes.staysOpen (h : OnlyFinishes world) : StaysOpen world := by
  intro n i hi
  rcases h n i hi with hr | ⟨text, ht⟩
  · exact onlyReads_open hr
  · rw [ht]
    exact ⟨by simp, by simp⟩

/-! ## Rules -/

/-- From the scene `s` on, the program ends as `Q` says. -/
abbrev Plays (world : Nat → Beat) (x : Flow ε α) (s : Scene) (Q : Except ε α → Scene → Prop) :
    Prop :=
  x.Plays (Scene.answer world) s Q

theorem plays_store {Q : Except Exn call.Result → Scene → Prop}
    (h : Q (call.answer (world s.turn).clock s.store) (s.call world call)) :
    Plays world (store call) s Q := h

/-- An ask that the application answers with a value or a raise. -/
theorem plays_ask {k : a.Answer → Flow ε α}
    (h : Plays world (k ((world s.turn).reply a)) (s.ask world a) Q) :
    Plays world (.ask (.ask a) k) s Q := h

/-- An ask whose reply ends the program. -/
theorem plays_reply {r : a.Answer → Except ε α} {G : α → Scene → Prop} {B : ε → Scene → Prop}
    (hG : ∀ x, r ((world s.turn).reply a) = .ok x → G x (s.ask world a))
    (hB : ∀ e, r ((world s.turn).reply a) = .error e → B e (s.ask world a)) :
    Plays world (.ask (.ask a) fun x => .ret (r x)) s (Results G B) :=
  plays_ask (plays_ret (results_any hG hB))

/-- The raise of a stage is labelled with it. -/
theorem plays_at {x : Flow Exn α} {G : α → Scene → Prop} {B : String × Exn → Scene → Prop}
    {label : String} (hx : Plays world x s (Results G fun e s' => B (label, e) s')) :
    Plays world (at_ label x) s (Results G B) :=
  plays_catching hx (fun _ _ h => h) fun _ _ h => plays_raise h

/-- A lock adds its two asks. -/
theorem plays_locked {x : Flow Exn α} {G : α → Scene → Prop} {B : Exn → Scene → Prop}
    (hwait : ∀ e, (world s.turn).reply .acquire = .error e → B e (s.ask world .acquire))
    (hx : Plays world x (s.ask world .acquire) (Results G B))
    (hG : ∀ a s', G a s' → G a (s'.ask world .release))
    (hB : ∀ e s', B e s' → B e (s'.ask world .release)) :
    Plays world (locked x) s (Results G B) := by
  unfold locked
  refine plays_then (G := fun _ s' => s' = s.ask world .acquire)
    (plays_reply (fun _ _ => rfl) fun e he => hwait e he) fun _ s₁ hs => ?_
  subst hs
  refine plays_finally hx ?_
  rintro (e | a) s₂ h₂
  · exact plays_ask (plays_value (hB e s₂ h₂))
  · exact plays_ask (plays_value (hG a s₂ h₂))

/-- A timeout adds a reading of the clock, and the question whether it expired. -/
theorem plays_timeout {x : Flow Exn α} {G : α → Scene → Prop} {B : Exn → Scene → Prop}
    (hx : Plays world x (s.call world .secondsRemaining) (Results G B))
    (hB : ∀ e s', B e s' → B e (s'.ask world (.expired e)) ∧
      B timeoutError (s'.ask world (.expired e))) :
    Plays world (timeout x) s (Results G B) := by
  unfold timeout
  refine plays_then (G := fun _ s' => s' = s.call world .secondsRemaining)
    (plays_store rfl) fun limit s₁ hs => ?_
  subst hs
  refine plays_catching hx (fun _ _ h => h) fun e s₂ h₂ => ?_
  split
  · refine plays_ask ?_
    dsimp only [bind, Prog.bind]
    split
    · exact plays_raise (hB e s₂ h₂).2
    · exact plays_raise (hB e s₂ h₂).1
  · exact plays_raise h₂

/-- What each call and each ask keeps, every program keeps. -/
theorem plays_scene {x : Flow ε α} {I : Scene → Prop}
    (hcall : ∀ (s : Scene) (c : Call), I s → I (s.call world c))
    (hask : ∀ (s : Scene) (a : Ask), I s → I (s.ask world a)) (h : I s) :
    Plays world x s fun _ s' => I s' := by
  refine plays_keeps (fun q s hs => ?_) h
  cases q with
  | store c => exact hcall s c hs
  | ask a => exact hask s a hs

/-! ## The way to the start -/

/-- The calls that leave every operation in its stage. -/
def Call.isStill : Call → Bool
  | .recordGuard .. | .recordEvent .. | .recordUsage .. | .outcome | .read | .latestObservation
  | .remaining | .pending | .checkReady | .outputBudget | .usageSummary | .completedOperations
  | .records | .secondsRemaining => true
  | _ => false

/-- The asks of a step before its start. -/
def Ask.isEarly : Ask → Bool
  | .prepareRequest _ | .planOutput _ _ | .newId => true
  | _ => false

/-- What a step keeps on the way to its start. -/
structure Kept (world : Nat → Beat) (P : Scene → Prop) : Prop where
  call : ∀ s c, c.isStill = true → P s → P (s.call world c)
  ask : ∀ s a, a.isEarly = true → P s → P (s.ask world a)

section Kept

variable {P : Scene → Prop} {rt : Runtime} {objective : String} {grants : Option (List String)}

theorem Kept.store (hk : Kept world P) (hs : P s) (hc : call.isStill = true) :
    Plays world (store call) s (Results (fun _ s' => P s') fun _ s' => P s') :=
  plays_store (results_any (fun _ _ => hk.call s call hc hs) fun _ _ => hk.call s call hc hs)

theorem Kept.reply {r : a.Answer → Except Exn α} (hk : Kept world P) (hs : P s)
    (ha : a.isEarly = true) :
    Plays world (.ask (.ask a) fun x => .ret (r x)) s
      (Results (fun _ s' => P s') fun _ s' => P s') :=
  plays_reply (fun _ _ => hk.ask s a ha hs) fun _ _ => hk.ask s a ha hs

theorem Kept.request (hk : Kept world P) (hs : P s) (state : State) (effective : List String) :
    Plays world (rt.request objective state effective) s
      (Results (fun _ s' => P s') fun _ s' => P s') := by
  unfold Runtime.request
  refine plays_then (hk.store hs rfl) fun _ s₁ h₁ => ?_
  refine plays_then (G := fun _ s' => P s') ?_ fun _ s₂ h₂ => ?_
  · unfold Runtime.prepared
    split
    · exact hk.reply h₁ rfl
    · exact plays_value h₁
  · refine plays_check (fun _ => h₂) fun _ => ?_
    exact plays_check (fun _ => h₂) fun _ => plays_value h₂

theorem Kept.reservation (hk : Kept world P) (hs : P s) (request : InferenceRequest) :
    Plays world (rt.reservation request) s (Results (fun _ s' => P s') fun _ s' => P s') := by
  unfold Runtime.reservation
  refine plays_then (hk.store hs rfl) fun budget s₁ h₁ => ?_
  split
  · exact plays_value h₁
  · refine plays_check (fun _ => h₁) fun _ => ?_
    refine plays_then (G := fun _ s' => P s') (hk.reply h₁ rfl) fun reservation s₂ h₂ => ?_
    split
    · exact plays_raise h₂
    · exact plays_check (fun _ => h₂) fun _ => plays_value h₂

/-- A step goes to its start, starts, and runs its body. -/
theorem plays_stepBody {G : StepResult → Scene → Prop} {B : Exn → Scene → Prop}
    {started : String → InferenceRequest → Scene → Prop} (hk : Kept world P) (hs : P s)
    (hB : ∀ e s', P s' → B e s')
    (hstart : ∀ o request output s', P s' →
      Plays world (store (.start o request output (.typed (rt.guards.map DispatchGuard.id)))) s'
        (Results (fun _ => started o request) B))
    (hbody : ∀ o request s', started o request s' →
      Plays world ((rt.attempt o request).catching (rt.recordFailure o)) s' (Results G B)) :
    Plays world (rt.stepBody objective grants) s (Results G B) := by
  unfold Runtime.stepBody
  have hkeep : ∀ {α : Type} {x : Flow Exn α} {s : Scene},
      Plays world x s (Results (fun _ s' => P s') fun _ s' => P s') →
        Plays world x s (Results (fun _ s' => P s') B) :=
    fun h => plays_raised h hB
  refine plays_check (fun _ => hB _ _ hs) fun _ => ?_
  refine plays_then (hkeep (hk.store hs rfl)) fun state s₁ h₁ => ?_
  refine plays_then (hkeep (hk.request h₁ state _)) fun request s₂ h₂ => ?_
  refine plays_then (hkeep (hk.reservation h₂ request)) fun plan s₃ h₃ => ?_
  refine plays_then (G := fun _ s' => P s') (plays_ask (plays_value (hk.ask _ _ rfl h₃)))
    fun o s₄ h₄ => ?_
  exact plays_then (hstart o plan.2 plan.1 s₄ h₄) fun _ s₅ h₅ => hbody o plan.2 s₅ h₅

end Kept

/-! ## What a call does -/

/-- A change that passed its checks is made. -/
theorem call_commits {handle : Handle} {t' : Tables} (hh : s.store.handle = some handle)
    (hch : Change handle (world s.turn).clock s.store.db call t') (hl : call.raisesLate = false) :
    (call.answer (world s.turn).clock s.store).isOk = true ∧
      (s.call world call).store = { s.store with db := t' } := by
  have hcommits : Commits (world s.turn).clock call s.store { s.store with db := t' } :=
    ⟨handle, t', hh, hch, rfl⟩
  exact ⟨ok_of_commits (i := ⟨(world s.turn).clock, call⟩) hl hcommits,
    exec_of_commits (i := ⟨(world s.turn).clock, call⟩) hcommits⟩

/-- A writing call that returned has made its change. -/
theorem call_changes {x : call.Result} (hm : call.mutates = true)
    (hans : call.answer (world s.turn).clock s.store = .ok x) :
    ∃ handle, s.store.handle = some handle ∧
      Change handle (world s.turn).clock s.store.db call (s.call world call).store.db := by
  have hok : (exec ⟨(world s.turn).clock, call⟩ s.store).1.ok = true := by
    change (call.answer (world s.turn).clock s.store).isOk = true
    rw [hans]
    rfl
  obtain ⟨handle, t', hh, hch, he⟩ := commits_of_ok hm hok
  refine ⟨handle, hh, ?_⟩
  rw [Scene.call, he]
  exact hch

/-! ## What others do -/

/-- What each change keeps of the tables, the surroundings keep. -/
theorem meanwhile_keeps {I : Tables → Prop}
    (hI : ∀ handle clock t call t', I t → Change handle clock t call t' → I t')
    (h : I s.store.db) (a : Ask) : I (s.meanwhile world a).db := by
  unfold Scene.meanwhile
  split
  · exact after_keeps I hI h _
  · exact h

theorem after_handle {calls : List Timed} (self : SQLiteRun)
    (h : ∀ i ∈ calls, i.call ≠ .close ∧ i.call ≠ .openRun) :
    (self.after calls).handle = self.handle := by
  induction calls generalizing self with
  | nil => rfl
  | cons i calls ih =>
    obtain ⟨hc, ho⟩ := h i List.mem_cons_self
    exact (ih _ fun j hj => h j (List.mem_cons_of_mem i hj)).trans (exec_handle hc ho)

theorem meanwhile_handle (hw : StaysOpen world) (a : Ask) :
    (s.meanwhile world a).handle = s.store.handle := by
  unfold Scene.meanwhile
  split
  · exact after_handle _ (hw s.turn)
  · rfl

theorem meanwhile_quiet (hw : Quiet world) (a : Ask) : s.meanwhile world a = s.store := by
  unfold Scene.meanwhile
  split
  · exact after_onlyReads (hw s.turn)
  · rfl

/-- A call that only reads leaves the store. -/
theorem reads_store {c : Call} (hr : c.onlyReads = true) (s : Scene) :
    (s.call world c).store = s.store :=
  @after_onlyReads _ [⟨(world s.turn).clock, c⟩] fun i hi => by
    rw [List.mem_singleton.mp hi]
    exact hr

end FlynnAgents
