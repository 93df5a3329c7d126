-- Transactions and methods. A transaction works on a copy of the state and
-- may refuse: a refusal leaves nothing behind. A method works on the state
-- itself, so what it did before it raises stays done.
import FlynnAgents.Lib.Table

namespace Transactional

variable {σ ε α β : Type}

/-! ## Transactions -/

/-- A transaction body: a value and the new state, or a raise. -/
def Txn (σ ε α : Type) := σ → Except ε (α × σ)

namespace Txn

def run (x : Txn σ ε α) (s : σ) : Except ε (α × σ) := x s

instance : Monad (Txn σ ε) where
  pure a := fun s => .ok (a, s)
  bind x f := fun s =>
    match x s with
    | .ok (a, t) => f a t
    | .error e => .error e

def get : Txn σ ε σ := fun s => .ok (s, s)

def modify (f : σ → σ) : Txn σ ε Unit := fun s => .ok ((), f s)

def raise (e : ε) : Txn σ ε α := fun _ => .error e

/-- `if p: raise e` -/
def raiseIf (p : Prop) [Decidable p] (e : ε) : Txn σ ε Unit :=
  if p then raise e else pure ()

/-- The value that a pure computation gives, or its raise. -/
def ofExcept : Except ε α → Txn σ ε α
  | .ok a => pure a
  | .error e => raise e

/-- A transaction for each element, in order. -/
def forEach (f : α → Txn σ ε Unit) : List α → Txn σ ε Unit
  | [] => pure ()
  | a :: as => do
    f a
    forEach f as

@[simp] theorem run_pure (a : α) (s : σ) : (pure a : Txn σ ε α).run s = .ok (a, s) := rfl

@[simp] theorem run_get (s : σ) : (get : Txn σ ε σ).run s = .ok (s, s) := rfl

@[simp] theorem run_modify (f : σ → σ) (s : σ) :
    (modify f : Txn σ ε Unit).run s = .ok ((), f s) := rfl

@[simp] theorem run_raise (e : ε) (s : σ) : (raise e : Txn σ ε α).run s = .error e := rfl

theorem run_bind (x : Txn σ ε α) (f : α → Txn σ ε β) (s : σ) :
    (x >>= f).run s =
      match x.run s with
      | .ok (a, t) => (f a).run t
      | .error e => .error e := rfl

@[simp] theorem run_get_bind (f : σ → Txn σ ε α) (s : σ) : (get >>= f).run s = (f s).run s := rfl

@[simp] theorem run_modify_bind (g : σ → σ) (f : Unit → Txn σ ε α) (s : σ) :
    (modify g >>= f).run s = (f ()).run (g s) := rfl

/-- A body commits exactly when each of its steps does. -/
theorem run_bind_ok {x : Txn σ ε α} {f : α → Txn σ ε β} {r : β × σ} {s : σ} :
    (x >>= f).run s = .ok r ↔ ∃ a t, x.run s = .ok (a, t) ∧ (f a).run t = .ok r := by
  rw [run_bind]
  rcases x.run s with e | ⟨a, t⟩
  · simp
  · simp only [Except.ok.injEq, Prod.mk.injEq]
    constructor
    · intro h; exact ⟨a, t, ⟨rfl, rfl⟩, h⟩
    · rintro ⟨_, _, ⟨rfl, rfl⟩, h⟩; exact h

/-- A step that gives no value hands on the state alone. -/
theorem run_bind_unit_ok {x : Txn σ ε Unit} {f : Unit → Txn σ ε β} {r : β × σ} {s : σ} :
    (x >>= f).run s = .ok r ↔ ∃ t, x.run s = .ok ((), t) ∧ (f ()).run t = .ok r := by
  rw [run_bind_ok]
  constructor
  · rintro ⟨_, t, hx, hf⟩; exact ⟨t, hx, hf⟩
  · rintro ⟨t, hx, hf⟩; exact ⟨(), t, hx, hf⟩

@[simp] theorem run_raiseIf_ok {p : Prop} [Decidable p] {e : ε} {s t : σ} :
    (raiseIf p e).run s = .ok ((), t) ↔ ¬ p ∧ t = s := by
  by_cases h : p
  · simp [raiseIf, h]
  · simp [raiseIf, h, eq_comm]

@[simp] theorem run_ofExcept_bind_ok {x : Except ε α} {f : α → Txn σ ε β} {s : σ} {r : β × σ} :
    (ofExcept x >>= f).run s = .ok r ↔ ∃ a, x = .ok a ∧ (f a).run s = .ok r := by
  cases x with
  | error e => simp [ofExcept, run_bind]
  | ok a => simp [ofExcept, run_bind]

/-- What a body may raise. -/
def Raises (P : ε → Prop) (x : Txn σ ε α) : Prop := ∀ s e, x.run s = .error e → P e

variable {P : ε → Prop}

theorem raises_get : (get : Txn σ ε σ).Raises P := fun _ _ h => by cases h

theorem raises_modify (f : σ → σ) : (modify f : Txn σ ε Unit).Raises P := fun _ _ h => by cases h

theorem raises_ofExcept {x : Except ε α} (h : ∀ e, x = .error e → P e) :
    (ofExcept x : Txn σ ε α).Raises P := by
  intro s e he
  rcases x with e' | a
  · cases he
    exact h _ rfl
  · cases he

theorem raises_raiseIf {p : Prop} [Decidable p] {e : ε} (h : P e) :
    (raiseIf p e : Txn σ ε Unit).Raises P := by
  intro s e' he
  unfold raiseIf at he
  split at he
  · cases he
    exact h
  · cases he

theorem raises_bind {x : Txn σ ε α} {f : α → Txn σ ε β} (hx : x.Raises P)
    (hf : ∀ a, (f a).Raises P) : (x >>= f).Raises P := by
  intro s e he
  rw [run_bind] at he
  rcases hr : x.run s with e' | ⟨a, t⟩ <;> rw [hr] at he
  · cases he
    exact hx s _ hr
  · exact hf a t e he

end Txn

/-! ## Methods -/

/-- A method of an object: it may raise after it has changed the object. -/
def Method (σ ε α : Type) := σ → Except ε α × σ

namespace Method

def run (x : Method σ ε α) (s : σ) : Except ε α × σ := x s

instance : Monad (Method σ ε) where
  pure a := fun s => (.ok a, s)
  bind x f := fun s =>
    match x s with
    | (.ok a, t) => f a t
    | (.error e, t) => (.error e, t)

def raise (e : ε) : Method σ ε α := fun s => (.error e, s)

/-- `if p: raise e` -/
def raiseIf (p : Prop) [Decidable p] (e : ε) : Method σ ε Unit :=
  if p then raise e else pure ()

/-- The value that a pure computation gives, or its raise. -/
def ofExcept (r : Except ε α) : Method σ ε α := fun s => (r, s)

@[simp] theorem run_pure (a : α) (s : σ) : (pure a : Method σ ε α).run s = (.ok a, s) := rfl

@[simp] theorem run_raise (e : ε) (s : σ) : (raise e : Method σ ε α).run s = (.error e, s) := rfl

@[simp] theorem run_ofExcept (r : Except ε α) (s : σ) :
    (ofExcept r : Method σ ε α).run s = (r, s) := rfl

theorem run_bind (x : Method σ ε α) (f : α → Method σ ε β) (s : σ) :
    (x >>= f).run s =
      match x.run s with
      | (.ok a, t) => (f a).run t
      | (.error e, t) => (.error e, t) := rfl

@[simp] theorem run_raiseIf (p : Prop) [Decidable p] (e : ε) (s : σ) :
    (raiseIf p e : Method σ ε Unit).run s = (if p then .error e else .ok (), s) := by
  unfold raiseIf
  split <;> rfl

/-- A raise leaves the state as it was. -/
def Atomic (x : Method σ ε α) : Prop := ∀ s e t, x.run s = (.error e, t) → t = s

theorem atomic_raise (e : ε) : (raise e : Method σ ε α).Atomic := by
  intro s e t h
  cases h
  rfl

theorem atomic_ite {p : Prop} [Decidable p] {x y : Method σ ε α} (hx : x.Atomic) (hy : y.Atomic) :
    (if p then x else y).Atomic := by
  split
  · exact hx
  · exact hy

/-- What a method may raise. -/
def Raises (P : ε → Prop) (x : Method σ ε α) : Prop := ∀ s e, (x.run s).1 = .error e → P e

variable {P : ε → Prop}

theorem raises_pure (a : α) : (pure a : Method σ ε α).Raises P := fun _ _ h => by cases h

theorem raises_raise {e : ε} (h : P e) : (raise e : Method σ ε α).Raises P := by
  intro s e' he
  cases he
  exact h

theorem raises_raiseIf {p : Prop} [Decidable p] {e : ε} (h : P e) :
    (raiseIf p e : Method σ ε Unit).Raises P := by
  unfold raiseIf
  split
  · exact raises_raise h
  · exact raises_pure ()

theorem raises_bind {x : Method σ ε α} {f : α → Method σ ε β} (hx : x.Raises P)
    (hf : ∀ a, (f a).Raises P) : (x >>= f).Raises P := by
  intro s e he
  rw [run_bind] at he
  rcases hr : x.run s with ⟨e' | a, t⟩ <;> rw [hr] at he
  · cases he
    exact hx s _ (by rw [hr])
  · exact hf a t e he

/-- Related states give one answer, and stay related. -/
def Respects (R : σ → σ → Prop) (x : Method σ ε α) : Prop :=
  ∀ s t, R s t → (x.run s).1 = (x.run t).1 ∧ R (x.run s).2 (x.run t).2

variable {R : σ → σ → Prop}

theorem respects_pure (a : α) : (pure a : Method σ ε α).Respects R := fun _ _ h => ⟨rfl, h⟩

theorem respects_raise (e : ε) : (raise e : Method σ ε α).Respects R := fun _ _ h => ⟨rfl, h⟩

theorem respects_ite {p : Prop} [Decidable p] {x y : Method σ ε α} (hx : x.Respects R)
    (hy : y.Respects R) : (if p then x else y).Respects R := by
  split
  · exact hx
  · exact hy

theorem respects_raiseIf (p : Prop) [Decidable p] (e : ε) :
    (raiseIf p e : Method σ ε Unit).Respects R :=
  respects_ite (respects_raise e) (respects_pure ())

theorem respects_bind {x : Method σ ε α} {f : α → Method σ ε β} (hx : x.Respects R)
    (hf : ∀ a, (f a).Respects R) : (x >>= f).Respects R := by
  intro s t h
  obtain ⟨he, hr⟩ := hx s t h
  rw [run_bind, run_bind]
  rcases hs : x.run s with ⟨e | a, s'⟩ <;> rcases ht : x.run t with ⟨e' | a', t'⟩ <;>
    rw [hs, ht] at he hr <;> simp only [Except.error.injEq, Except.ok.injEq, reduceCtorEq] at he
  · subst he
    exact ⟨rfl, hr⟩
  · subst he
    exact hf a s' t' hr

end Method

end Transactional
