-- Programs that ask. A program ends with a value or a raise, or asks its
-- surroundings something and goes on with the answer. A protocol says what
-- may be asked in each phase of a program, and the rules here prove that a
-- program keeps to it.
import FlynnAgents.Lib.Machine

namespace Programs

/-- A program that asks requests of `Req` and is answered in `Resp`. -/
inductive Prog (Req : Type) (Resp : Req → Type) (ε α : Type) : Type where
  | ret (r : Except ε α)
  | ask (q : Req) (k : Resp q → Prog Req Resp ε α)

variable {Req : Type} {Resp : Req → Type} {ε ε' α β : Type}

namespace Prog

def bind : Prog Req Resp ε α → (α → Prog Req Resp ε β) → Prog Req Resp ε β
  | ret (.ok a), f => f a
  | ret (.error e), _ => ret (.error e)
  | ask q k, f => ask q fun x => bind (k x) f

instance : Monad (Prog Req Resp ε) where
  pure a := ret (.ok a)
  bind := bind

def raise (e : ε) : Prog Req Resp ε α := ret (.error e)

/-- The value that a pure computation gives, or its raise. -/
def ofExcept (r : Except ε α) : Prog Req Resp ε α := ret r

/-- `if p: raise e` -/
def raiseIf (p : Prop) [Decidable p] (e : ε) : Prog Req Resp ε Unit :=
  if p then raise e else pure ()

/-- `try: x except: f` -/
def catching : Prog Req Resp ε α → (ε → Prog Req Resp ε' α) → Prog Req Resp ε' α
  | ret (.ok a), _ => ret (.ok a)
  | ret (.error e), f => f e
  | ask q k, f => ask q fun x => catching (k x) f

/-- Every raise of the program, changed by `f`. -/
def mapError (f : ε → ε') (x : Prog Req Resp ε α) : Prog Req Resp ε' α :=
  x.catching fun e => raise (f e)

/-- `try: x finally: y` -/
def finally_ (x : Prog Req Resp ε α) (y : Prog Req Resp ε Unit) : Prog Req Resp ε α := do
  let a ← x.catching fun e => do
    y
    raise e
  y
  return a

/-- The program for each element, in order. -/
def forEach {τ : Type} (f : τ → Prog Req Resp ε Unit) : List τ → Prog Req Resp ε Unit
  | [] => pure ()
  | a :: as => do
    f a
    forEach f as

/-- The request that the program is about to make. -/
def upcoming : Prog Req Resp ε α → Option Req
  | ret _ => none
  | ask q _ => some q

/-- The program with its raise as a value: a `try` whose handler goes on. -/
def attempted : Prog Req Resp ε α → Prog Req Resp ε' (Except ε α)
  | ret r => ret (.ok r)
  | ask q k => ask q fun x => attempted (k x)

/-- The program has ended. -/
def ended : Prog Req Resp ε α → Option (Except ε α)
  | ret r => some r
  | ask _ _ => none

end Prog

/-! ## Protocols -/

/-- What a program may ask in each phase, which answers it can get, and the
phase that follows. -/
structure Protocol (Req : Type) (Resp : Req → Type) (Phase : Type) where
  allowed : Phase → Req → Prop
  possible : Phase → (q : Req) → Resp q → Prop
  next : Phase → (q : Req) → Resp q → Phase

namespace Protocol

variable {Phase : Type} (P : Protocol Req Resp Phase)

/-- From the phase on, the program keeps to the protocol, and ends as `Q` says. -/
def wp : Prog Req Resp ε α → Phase → (Except ε α → Phase → Prop) → Prop
  | .ret r, p, Q => Q r p
  | .ask q k, p, Q => P.allowed p q ∧ ∀ x, P.possible p q x → wp (k x) (P.next p q x) Q

variable {P} {p : Phase}

@[simp] theorem wp_ret {r : Except ε α} {Q : Except ε α → Phase → Prop} :
    P.wp (.ret r : Prog Req Resp ε α) p Q ↔ Q r p := Iff.rfl

@[simp] theorem wp_pure {a : α} {Q : Except ε α → Phase → Prop} :
    P.wp (pure a : Prog Req Resp ε α) p Q ↔ Q (.ok a) p := Iff.rfl

@[simp] theorem wp_raise {e : ε} {Q : Except ε α → Phase → Prop} :
    P.wp (Prog.raise e : Prog Req Resp ε α) p Q ↔ Q (.error e) p := Iff.rfl

@[simp] theorem wp_ofExcept {r : Except ε α} {Q : Except ε α → Phase → Prop} :
    P.wp (Prog.ofExcept r : Prog Req Resp ε α) p Q ↔ Q r p := Iff.rfl

theorem wp_ask {q : Req} {k : Resp q → Prog Req Resp ε α} {Q : Except ε α → Phase → Prop} :
    P.wp (.ask q k) p Q ↔
      P.allowed p q ∧ ∀ x, P.possible p q x → P.wp (k x) (P.next p q x) Q := Iff.rfl

@[simp] theorem wp_raiseIf {c : Prop} [Decidable c] {e : ε} {Q : Except ε Unit → Phase → Prop} :
    P.wp (Prog.raiseIf c e : Prog Req Resp ε Unit) p Q ↔
      if c then Q (.error e) p else Q (.ok ()) p := by
  unfold Prog.raiseIf
  split <;> rfl

/-- A request that the program is about to make is allowed. -/
theorem wp_upcoming {x : Prog Req Resp ε α} {q : Req} {Q : Except ε α → Phase → Prop}
    (h : P.wp x p Q) (hq : x.upcoming = some q) : P.allowed p q := by
  rcases x with r | ⟨q', k⟩
  · cases hq
  · cases hq
    exact h.1

theorem wp_mono {x : Prog Req Resp ε α} {Q R : Except ε α → Phase → Prop} (h : P.wp x p Q)
    (hQR : ∀ r p, Q r p → R r p) : P.wp x p R := by
  induction x generalizing p with
  | ret r => exact hQR r p h
  | ask q k ih => exact ⟨h.1, fun a ha => ih a (h.2 a ha)⟩

/-- A value goes on, and a raise ends the program. -/
theorem wp_bind {x : Prog Req Resp ε α} {f : α → Prog Req Resp ε β}
    {Q : Except ε β → Phase → Prop} :
    P.wp (x >>= f) p Q ↔ P.wp x p fun r p' =>
      match r with
      | .ok a => P.wp (f a) p' Q
      | .error e => Q (.error e) p' := by
  change P.wp (x.bind f) p Q ↔ _
  induction x generalizing p with
  | ret r => cases r <;> rfl
  | ask q k ih =>
    simp only [Prog.bind, wp_ask, ih]

/-- A raise goes to the handler. -/
theorem wp_catching {x : Prog Req Resp ε α} {f : ε → Prog Req Resp ε' α}
    {Q : Except ε' α → Phase → Prop} :
    P.wp (x.catching f) p Q ↔ P.wp x p fun r p' =>
      match r with
      | .ok a => Q (.ok a) p'
      | .error e => P.wp (f e) p' Q := by
  induction x generalizing p with
  | ret r => cases r <;> rfl
  | ask q k ih =>
    simp only [Prog.catching, wp_ask, ih]

@[simp] theorem wp_mapError {f : ε → ε'} {x : Prog Req Resp ε α}
    {Q : Except ε' α → Phase → Prop} :
    P.wp (x.mapError f) p Q ↔ P.wp x p fun r p' => Q (r.mapError f) p' := by
  rw [Prog.mapError, wp_catching]
  refine ⟨fun h => wp_mono h ?_, fun h => wp_mono h ?_⟩ <;> rintro (e | a) p' h' <;> exact h'

/-- A loop keeps what each turn keeps of the elements that are done. -/
theorem wp_forEach_done {τ : Type} {f : τ → Prog Req Resp ε Unit} {as : List τ}
    {Q : Except ε Unit → Phase → Prop} (I : List τ → Phase → Prop) (hp : I [] p)
    (hf : ∀ done a, done ++ [a] <+: as → ∀ p, I done p → P.wp (f a) p fun r p' =>
      match r with
      | .ok _ => I (done ++ [a]) p'
      | .error e => Q (.error e) p')
    (hQ : ∀ p, I as p → Q (.ok ()) p) : P.wp (Prog.forEach f as) p Q := by
  have h : ∀ rest done p, done ++ rest = as → I done p → P.wp (Prog.forEach f rest) p Q := by
    intro rest
    induction rest with
    | nil =>
      intro done p hd hI
      rw [List.append_nil] at hd
      exact hQ p (hd ▸ hI)
    | cons a rest ih =>
      intro done p hd hI
      have hd' : (done ++ [a]) ++ rest = as := by simp [← hd]
      rw [Prog.forEach, wp_bind]
      refine wp_mono (hf done a ⟨rest, hd'⟩ p hI) ?_
      rintro (e | u) p' h'
      · exact h'
      · exact ih (done ++ [a]) p' hd' h'
  exact h as [] p rfl hp

/-- A loop keeps what each turn keeps. -/
theorem wp_forEach {τ : Type} {f : τ → Prog Req Resp ε Unit} {as : List τ}
    {Q : Except ε Unit → Phase → Prop} (I : Phase → Prop) (hp : I p)
    (hf : ∀ a ∈ as, ∀ p, I p → P.wp (f a) p fun r p' =>
      match r with
      | .ok _ => I p'
      | .error e => Q (.error e) p')
    (hQ : ∀ p, I p → Q (.ok ()) p) : P.wp (Prog.forEach f as) p Q :=
  wp_forEach_done (fun _ p => I p) hp
    (fun _ a ha => hf a (ha.subset (by simp))) hQ

end Protocol

/-! ## Runs

A run answers each request in a state, and goes on in the next one. -/

variable {σ τ : Type} (answer : (q : Req) → σ → Resp q × σ)

namespace Prog

/-- What the program gives when it is answered to its end, and the state then. -/
def run : Prog Req Resp ε α → σ → Except ε α × σ
  | ret r, s => (r, s)
  | ask q k, s => run (k (answer q s).1) (answer q s).2

/-- What is left of the program after its first `n` requests, and the state
then. -/
def drive : Nat → Prog Req Resp ε α → σ → Prog Req Resp ε α × σ
  | 0, x, s => (x, s)
  | _ + 1, ret r, s => (ret r, s)
  | n + 1, ask q k, s => drive n (k (answer q s).1) (answer q s).2

theorem run_bind (x : Prog Req Resp ε α) (f : α → Prog Req Resp ε β) (s : σ) :
    run answer (x >>= f) s =
      match run answer x s with
      | (.ok a, t) => run answer (f a) t
      | (.error e, t) => (.error e, t) := by
  change run answer (x.bind f) s = _
  induction x generalizing s with
  | ret r => cases r <;> rfl
  | ask q k ih => exact ih _ _

theorem bind_bind {γ : Type} (x : Prog Req Resp ε α) (f : α → Prog Req Resp ε β)
    (g : β → Prog Req Resp ε γ) : x >>= f >>= g = x >>= fun a => f a >>= g := by
  change (x.bind f).bind g = x.bind fun a => (f a).bind g
  induction x with
  | ret r => cases r <;> rfl
  | ask q k ih =>
    simp only [Prog.bind]
    exact congrArg (ask q) (funext ih)

theorem run_catching (x : Prog Req Resp ε α) (f : ε → Prog Req Resp ε' α) (s : σ) :
    run answer (x.catching f) s =
      match run answer x s with
      | (.ok a, t) => (.ok a, t)
      | (.error e, t) => run answer (f e) t := by
  induction x generalizing s with
  | ret r => cases r <;> rfl
  | ask q k ih => exact ih _ _

variable {answer}

/-- After a value, the run goes on with the rest. -/
theorem run_bind_of {x : Prog Req Resp ε α} {f : α → Prog Req Resp ε β} {s t : σ} {a : α}
    (h : run answer x s = (.ok a, t)) : run answer (x >>= f) s = run answer (f a) t := by
  rw [run_bind, h]

/-- After a raise, it ends. -/
theorem run_bind_error {x : Prog Req Resp ε α} {f : α → Prog Req Resp ε β} {s t : σ} {e : ε}
    (h : run answer x s = (.error e, t)) : run answer (x >>= f) s = (.error e, t) := by
  rw [run_bind, h]

theorem run_bind_ok {x : Prog Req Resp ε α} {f : α → Prog Req Resp ε β} {s u : σ} {b : β}
    (h : run answer (x >>= f) s = (.ok b, u)) :
    ∃ a t, run answer x s = (.ok a, t) ∧ run answer (f a) t = (.ok b, u) := by
  rw [run_bind] at h
  rcases hx : run answer x s with ⟨e | a, t⟩ <;> rw [hx] at h
  · cases h
  · exact ⟨a, t, rfl, h⟩

theorem run_attempted (x : Prog Req Resp ε α) (s : σ) :
    run answer (x.attempted : Prog Req Resp ε' (Except ε α)) s =
      (.ok (run answer x s).1, (run answer x s).2) := by
  induction x generalizing s with
  | ret r => rfl
  | ask q k ih => exact ih _ _

/-- Two runs that agree go on alike. -/
theorem run_bind_congr {x y : Prog Req Resp ε α} {f : α → Prog Req Resp ε β} {s t : σ}
    (h : run answer x s = run answer y t) : run answer (x >>= f) s = run answer (y >>= f) t := by
  rw [run_bind, run_bind, h]

theorem run_catching_congr {x y : Prog Req Resp ε α} {f : ε → Prog Req Resp ε' α} {s t : σ}
    (h : run answer x s = run answer y t) :
    run answer (x.catching f) s = run answer (y.catching f) t := by
  rw [run_catching, run_catching, h]

theorem run_finally_congr {x x' : Prog Req Resp ε α} {y : Prog Req Resp ε Unit} {s t : σ}
    (h : run answer x s = run answer x' t) :
    run answer (x.finally_ y) s = run answer (x'.finally_ y) t :=
  run_bind_congr (run_catching_congr h)

variable (answer)

/-- A run goes on from any point of it. -/
theorem run_drive (n : Nat) (x : Prog Req Resp ε α) (s : σ) :
    run answer (drive answer n x s).1 (drive answer n x s).2 = run answer x s := by
  induction n generalizing x s with
  | zero => rfl
  | succ n ih =>
    cases x with
    | ret r => rfl
    | ask q k => exact ih _ _

/-! ## A view of the state -/

variable (view : σ → τ)

/-- From every state that looks like `v`, the run of the program ends as `Q`
says, in what can be seen of the state. -/
def Meets (x : Prog Req Resp ε α) (v : τ) (Q : Except ε α → τ → Prop) : Prop :=
  ∀ s, view s = v → Q (run answer x s).1 (view (run answer x s).2)

variable {answer view} {v : τ}

theorem meets_mono {x : Prog Req Resp ε α} {Q R : Except ε α → τ → Prop}
    (h : Meets answer view x v Q) (hQR : ∀ r w, Q r w → R r w) : Meets answer view x v R :=
  fun s hs => hQR _ _ (h s hs)

theorem meets_ret {r : Except ε α} {Q : Except ε α → τ → Prop} (h : Q r v) :
    Meets answer view (ret r) v Q := by
  rintro s rfl
  exact h

theorem meets_raiseIf {c : Prop} [Decidable c] {e : ε} {Q : Except ε Unit → τ → Prop}
    (h : if c then Q (.error e) v else Q (.ok ()) v) :
    Meets answer view (raiseIf c e : Prog Req Resp ε Unit) v Q := by
  unfold raiseIf
  split at h
  · rw [if_pos ‹_›]
    exact meets_ret h
  · rw [if_neg ‹_›]
    exact meets_ret h

theorem meets_ask {q : Req} {k : Resp q → Prog Req Resp ε α} {Q : Except ε α → τ → Prop}
    (h : ∀ s, view s = v → Meets answer view (k (answer q s).1) (view (answer q s).2) Q) :
    Meets answer view (ask q k) v Q :=
  fun s hs => h s hs _ rfl

theorem meets_bind {x : Prog Req Resp ε α} {f : α → Prog Req Resp ε β}
    {Q : Except ε β → τ → Prop}
    (h : Meets answer view x v fun r w =>
      match r with
      | .ok a => Meets answer view (f a) w Q
      | .error e => Q (.error e) w) : Meets answer view (x >>= f) v Q := by
  intro s hs
  have hx := h s hs
  rw [run_bind]
  rcases hr : run answer x s with ⟨e | a, t⟩ <;> rw [hr] at hx
  · exact hx
  · exact hx t rfl

theorem meets_catching {x : Prog Req Resp ε α} {f : ε → Prog Req Resp ε' α}
    {Q : Except ε' α → τ → Prop}
    (h : Meets answer view x v fun r w =>
      match r with
      | .ok a => Q (.ok a) w
      | .error e => Meets answer view (f e) w Q) : Meets answer view (x.catching f) v Q := by
  intro s hs
  have hx := h s hs
  rw [run_catching]
  rcases hr : run answer x s with ⟨e | a, t⟩ <;> rw [hr] at hx
  · exact hx t rfl
  · exact hx

end Prog

/-! ## How a run ends -/

/-- From the state, the run of the program ends as `Q` says. -/
def Prog.Plays (x : Prog Req Resp ε α) (s : σ) (Q : Except ε α → σ → Prop) : Prop :=
  Q (x.run answer s).1 (x.run answer s).2

/-- A value is as `G` says, and a raise as `B` says. -/
def Results (G : α → σ → Prop) (B : ε → σ → Prop) : Except ε α → σ → Prop
  | .ok a, s => G a s
  | .error e, s => B e s

section Plays

variable {answer} {s : σ} {x : Prog Req Resp ε α} {Q R : Except ε α → σ → Prop}
  {G G' : α → σ → Prop} {H : β → σ → Prop} {B B' : ε → σ → Prop}

theorem Prog.Plays.run (h : x.Plays answer s Q) : Q (x.run answer s).1 (x.run answer s).2 := h

theorem plays_ret {r : Except ε α} (h : Q r s) :
    (Prog.ret r : Prog Req Resp ε α).Plays answer s Q :=
  h

theorem plays_value {a : α} (h : G a s) :
    (pure a : Prog Req Resp ε α).Plays answer s (Results G B) := h

theorem plays_raise {e : ε} (h : B e s) :
    (Prog.raise e : Prog Req Resp ε α).Plays answer s (Results G B) := h

theorem plays_request {q : Req} {k : Resp q → Prog Req Resp ε α}
    (h : (k (answer q s).1).Plays answer (answer q s).2 Q) : (Prog.ask q k).Plays answer s Q := h

theorem plays_weaken (h : x.Plays answer s Q) (hQR : ∀ r t, Q r t → R r t) :
    x.Plays answer s R := hQR _ _ h

theorem plays_and (hq : x.Plays answer s Q) (hr : x.Plays answer s R) :
    x.Plays answer s fun r t => Q r t ∧ R r t := ⟨hq, hr⟩

theorem results_any {r : Except ε α} (hG : ∀ a, r = .ok a → G a s)
    (hB : ∀ e, r = .error e → B e s) : Results G B r s := by
  rcases r with e | a
  · exact hB e rfl
  · exact hG a rfl

theorem plays_mono (h : x.Plays answer s (Results G B)) (hG : ∀ a t, G a t → G' a t)
    (hB : ∀ e t, B e t → B' e t) : x.Plays answer s (Results G' B') := by
  refine plays_weaken h ?_
  rintro (e | a) t ht
  · exact hB e t ht
  · exact hG a t ht

theorem plays_raised (h : x.Plays answer s (Results G B)) (hB : ∀ e t, B e t → B' e t) :
    x.Plays answer s (Results G B') :=
  plays_mono h (fun _ _ hG => hG) hB

/-- A program that never returns. -/
theorem Prog.Plays.raises (h : x.Plays answer s (Results (fun _ _ => False) B)) :
    ∃ e t, x.run answer s = (.error e, t) ∧ B e t := by
  unfold Prog.Plays at h
  rcases hr : x.run answer s with ⟨e | a, t⟩ <;> rw [hr] at h
  · exact ⟨e, t, rfl, h⟩
  · exact h.elim

/-- A program that never raises. -/
theorem Prog.Plays.returns (h : x.Plays answer s (Results G fun _ _ => False)) :
    ∃ a t, x.run answer s = (.ok a, t) ∧ G a t := by
  unfold Prog.Plays at h
  rcases hr : x.run answer s with ⟨e | a, t⟩ <;> rw [hr] at h
  · exact h.elim
  · exact ⟨a, t, rfl, h⟩

theorem plays_bind {f : α → Prog Req Resp ε β} {R : Except ε β → σ → Prop}
    (hx : x.Plays answer s Q) (hok : ∀ a t, Q (.ok a) t → (f a).Plays answer t R)
    (herror : ∀ e t, Q (.error e) t → R (.error e) t) : (x >>= f).Plays answer s R := by
  unfold Prog.Plays at hx ⊢
  rw [Prog.run_bind]
  rcases hr : x.run answer s with ⟨e | a, t⟩ <;> rw [hr] at hx
  · exact herror e t hx
  · exact hok a t hx

/-- A value goes on, and a raise ends the program. -/
theorem plays_then {f : α → Prog Req Resp ε β} (hx : x.Plays answer s (Results G B))
    (hf : ∀ a t, G a t → (f a).Plays answer t (Results H B)) :
    (x >>= f).Plays answer s (Results H B) :=
  plays_bind hx hf fun _ _ h => h

/-- After a program that never raises. -/
theorem plays_after {f : α → Prog Req Resp ε β} {R : Except ε β → σ → Prop}
    (hx : x.Plays answer s (Results G fun _ _ => False))
    (hf : ∀ a t, G a t → (f a).Plays answer t R) : (x >>= f).Plays answer s R :=
  plays_bind hx hf fun _ _ hn => hn.elim

theorem plays_catching {f : ε → Prog Req Resp ε' α} {R : Except ε' α → σ → Prop}
    (hx : x.Plays answer s Q) (hok : ∀ a t, Q (.ok a) t → R (.ok a) t)
    (herror : ∀ e t, Q (.error e) t → (f e).Plays answer t R) :
    (x.catching f).Plays answer s R := by
  unfold Prog.Plays at hx ⊢
  rw [Prog.run_catching]
  rcases hr : x.run answer s with ⟨e | a, t⟩ <;> rw [hr] at hx
  · exact herror e t hx
  · exact hok a t hx

theorem plays_raiseIf {c : Prop} [Decidable c] {e : ε} {Q : Except ε Unit → σ → Prop}
    (htrue : c → Q (.error e) s) (hfalse : ¬ c → Q (.ok ()) s) :
    (Prog.raiseIf c e : Prog Req Resp ε Unit).Plays answer s Q := by
  unfold Prog.raiseIf
  split
  · exact htrue ‹_›
  · exact hfalse ‹_›

/-- A check raises, or the program goes on. -/
theorem plays_check {c : Prop} [Decidable c] {e : ε} {f : Unit → Prog Req Resp ε β}
    (hB : c → B e s) (hf : ¬ c → (f ()).Plays answer s (Results H B)) :
    (Prog.raiseIf c e >>= f).Plays answer s (Results H B) := by
  refine plays_then (G := fun _ t => ¬ c ∧ t = s)
    (plays_raiseIf hB fun hc => ⟨hc, rfl⟩) fun _ t ⟨hc, hs⟩ => ?_
  subst hs
  exact hf hc

/-- A check that does not raise. -/
theorem plays_passes {c : Prop} [Decidable c] {e : ε} {f : Unit → Prog Req Resp ε β}
    {R : Except ε β → σ → Prop} (hc : ¬ c) (hf : (f ()).Plays answer s R) :
    (Prog.raiseIf c e >>= f).Plays answer s R := by
  unfold Prog.raiseIf
  rw [if_neg hc]
  exact hf

/-- A last part that always ends runs after a value and after a raise. -/
theorem plays_finally {y : Prog Req Resp ε Unit} (hx : x.Plays answer s Q)
    (hy : ∀ r t, Q r t → y.Plays answer t (Results (fun _ t' => R r t') fun _ _ => False)) :
    (x.finally_ y).Plays answer s R := by
  unfold Prog.finally_
  refine plays_bind (Q := fun r t => match r with
    | .ok a => Q (.ok a) t
    | .error e => R (.error e) t) (plays_catching hx (fun _ _ h => h) fun e t h => ?_)
    (fun a t h => ?_) fun _ _ h => h
  · exact plays_bind (hy _ t h) (fun _ _ h => plays_ret h) fun _ _ h => h.elim
  · exact plays_bind (hy _ t h) (fun _ _ h => plays_ret h) fun _ _ h => h.elim

/-- A loop keeps what each turn keeps of the elements that are done. -/
theorem plays_forEach {ρ : Type} {f : ρ → Prog Req Resp ε Unit} {as : List ρ}
    (I : List ρ → σ → Prop) (hs : I [] s)
    (hf : ∀ done a, done ++ [a] <+: as → ∀ t, I done t →
      (f a).Plays answer t (Results (fun _ t' => I (done ++ [a]) t') B)) :
    (Prog.forEach f as).Plays answer s (Results (fun _ t => I as t) B) := by
  have h : ∀ rest done t, done ++ rest = as → I done t →
      (Prog.forEach f rest).Plays answer t (Results (fun _ t => I as t) B) := by
    intro rest
    induction rest with
    | nil =>
      intro done t hd hI
      rw [List.append_nil] at hd
      exact plays_value (hd ▸ hI)
    | cons a rest ih =>
      intro done t hd hI
      have hd' : (done ++ [a]) ++ rest = as := by simp [← hd]
      exact plays_then (hf done a ⟨rest, hd'⟩ t hI) fun _ t' ht => ih (done ++ [a]) t' hd' ht
  exact h as [] s rfl hs

/-- A raise goes on as a value. -/
theorem plays_attempted {B : ε' → σ → Prop} (h : x.Plays answer s Q) :
    (x.attempted : Prog Req Resp ε' (Except ε α)).Plays answer s
      (Results Q B) := by
  induction x generalizing s with
  | ret r => exact h
  | ask q k ih => exact ih _ h

/-- What each request keeps, every program keeps. -/
theorem plays_keeps {I : σ → Prop} (hI : ∀ q s, I s → I (answer q s).2) (h : I s) :
    x.Plays answer s fun _ t => I t := by
  induction x generalizing s with
  | ret r => exact h
  | ask q k ih => exact ih _ (hI q s h)

theorem run_keeps {I : σ → Prop} (hI : ∀ q s, I s → I (answer q s).2) (h : I s) {t : σ}
    {r : Except ε α} (hr : x.run answer s = (r, t)) : I t := by
  have hx : x.Plays answer s fun _ t => I t := plays_keeps hI h
  unfold Prog.Plays at hx
  rwa [hr] at hx

end Plays

namespace Protocol

variable {Phase : Type} {P : Protocol Req Resp Phase} {p : Phase} {x : Prog Req Resp ε α}
  {Q : Except ε α → Phase → Prop} {s : σ}

/-- What each answer keeps of the phase and the state, every part of a run
keeps. -/
theorem wp_drive (I : Phase → σ → Prop)
    (hI : ∀ p q s, P.allowed p q → I p s →
      P.possible p q (answer q s).1 ∧ I (P.next p q (answer q s).1) (answer q s).2)
    (h : P.wp x p Q) (hp : I p s) (n : Nat) :
    ∃ p', P.wp (x.drive answer n s).1 p' Q ∧ I p' (x.drive answer n s).2 := by
  induction n generalizing x p s with
  | zero => exact ⟨p, h, hp⟩
  | succ n ih =>
    cases x with
    | ret r => exact ⟨p, h, hp⟩
    | ask q k =>
      obtain ⟨hposs, hnext⟩ := hI p q s h.1 hp
      exact ih (h.2 _ hposs) hnext

theorem wp_run (I : Phase → σ → Prop)
    (hI : ∀ p q s, P.allowed p q → I p s →
      P.possible p q (answer q s).1 ∧ I (P.next p q (answer q s).1) (answer q s).2)
    (h : P.wp x p Q) (hp : I p s) : ∃ p', Q (x.run answer s).1 p' ∧ I p' (x.run answer s).2 := by
  induction x generalizing p s with
  | ret r => exact ⟨p, h, hp⟩
  | ask q k ih =>
    obtain ⟨hposs, hnext⟩ := hI p q s h.1 hp
    exact ih _ (h.2 _ hposs) hnext

end Protocol

/-! ## Histories -/

/-- A request that was made, and its answer. -/
structure Said (Req : Type) (Resp : Req → Type) where
  request : Req
  answer : Resp request

/-- The protocol whose phase is all that was said. -/
def histories (allowed : List (Said Req Resp) → Req → Prop) :
    Protocol Req Resp (List (Said Req Resp)) where
  allowed := allowed
  possible _ _ _ := True
  next h q x := h ++ [⟨q, x⟩]

/-! ## What a program may ask -/

namespace Prog

/-- Every request that the program may make is as `P` says. -/
def Asks (P : Req → Prop) : Prog Req Resp ε α → Prop
  | ret _ => True
  | ask q k => P q ∧ ∀ x, Asks P (k x)

variable {P : Req → Prop} {x : Prog Req Resp ε α}

theorem asks_bind {f : α → Prog Req Resp ε β} (hx : x.Asks P) (hf : ∀ a, (f a).Asks P) :
    (x >>= f).Asks P := by
  change (x.bind f).Asks P
  induction x with
  | ret r =>
    cases r with
    | ok a => exact hf a
    | error e => trivial
  | ask q k ih => exact ⟨hx.1, fun a => ih a (hx.2 a)⟩

theorem asks_catching {f : ε → Prog Req Resp ε' α} (hx : x.Asks P) (hf : ∀ e, (f e).Asks P) :
    (x.catching f).Asks P := by
  induction x with
  | ret r =>
    cases r with
    | ok a => trivial
    | error e => exact hf e
  | ask q k ih => exact ⟨hx.1, fun a => ih a (hx.2 a)⟩

theorem asks_mapError {f : ε → ε'} (hx : x.Asks P) : (x.mapError f).Asks P :=
  asks_catching hx fun _ => trivial

theorem asks_raiseIf {c : Prop} [Decidable c] {e : ε} :
    (raiseIf c e : Prog Req Resp ε Unit).Asks P := by
  unfold raiseIf
  split <;> trivial

theorem asks_forEach {τ : Type} {f : τ → Prog Req Resp ε Unit} {as : List τ}
    (hf : ∀ a, (f a).Asks P) : (forEach f as).Asks P := by
  induction as with
  | nil => trivial
  | cons a as ih => exact asks_bind (hf a) fun _ => ih

end Prog

/-- A program whose requests are all allowed only adds to what was said. -/
theorem Prog.Asks.wp {P : Req → Prop} {x : Prog Req Resp ε α}
    {allowed : List (Said Req Resp) → Req → Prop} (hx : x.Asks P) (hP : ∀ h q, P q → allowed h q)
    (h : List (Said Req Resp)) : (histories allowed).wp x h fun _ h' => h <+: h' := by
  induction x generalizing h with
  | ret r => exact List.prefix_rfl
  | ask q k ih =>
    refine ⟨hP h q hx.1, fun a _ => ?_⟩
    exact Protocol.wp_mono (ih a (hx.2 a) _) fun _ _ hp => (List.prefix_append _ _).trans hp

/-! ## Parts of a larger program -/

/-- What a request of either signature is answered. -/
@[reducible] def either {Req' : Type} (Resp : Req → Type) (Resp' : Req' → Type) : Req ⊕ Req' → Type
  | .inl q => Resp q
  | .inr q => Resp' q

namespace Prog

variable {Req' : Type} {Resp' : Req' → Type}

/-- A program as a part of one that asks more. -/
def embed : Prog Req Resp ε α → Prog (Req ⊕ Req') (either Resp Resp') ε α
  | ret r => ret r
  | ask q k => ask (.inl q) fun x => embed (k x)

/-- An embedded program runs on its part of the state. -/
theorem run_embed {answer' : (q : Req ⊕ Req') → τ → either Resp Resp' q × τ} (get : τ → σ)
    (put : τ → σ → τ) (hsame : ∀ t, put t (get t) = t) (hget : ∀ t s, get (put t s) = s)
    (hput : ∀ t s s', put (put t s) s' = put t s')
    (h : ∀ q t, answer' (.inl q) t = ((answer q (get t)).1, put t (answer q (get t)).2))
    (x : Prog Req Resp ε α) (t : τ) :
    run answer' x.embed t = ((run answer x (get t)).1, put t (run answer x (get t)).2) := by
  induction x generalizing t with
  | ret r => simp only [embed, run, hsame]
  | ask q k ih =>
    simp only [embed, run, h]
    rw [ih, hget, hput]

end Prog

end Programs
