-- Ledgers of accepted values. One attempt is under way at a time: it asks, acts, gives an
-- answer, and is published, kept or given up. Each ask and each act is paid for.
import Mathlib

namespace Ledgers

variable {ι υ ω κ α τ : Type}

/-- What is paid of each kind for an ask, and for an act of each sort. -/
structure Tariff (κ α : Type) where
  ask : κ → ℕ
  act : α → κ → ℕ

/-- How far an attempt is. -/
inductive Progress (ω : Type) where
  | asked
  | acting
  | answered (output : ω)
  deriving DecidableEq

/-- The attempt under way, and how many values were accepted when it asked. -/
structure Attempt (ι ω : Type) where
  id : ι
  base : ℕ
  progress : Progress ω
  deriving DecidableEq

structure Ledger (ι υ ω κ τ : Type) where
  accepted : List υ
  asked : List ι
  attempt : Option (Attempt ι ω)
  left : κ → ℕ
  ended : Option τ

/-- An entry of the ledger. -/
inductive Act (ι υ ω α τ : Type) where
  | ask (id : ι)
  | act (sort : α)
  | answer (output : ω)
  | publish (value : υ)
  | keep
  | giveUp
  | finish (outcome : τ)
  deriving DecidableEq

namespace Act

def cost (tariff : Tariff κ α) : Act ι υ ω α τ → κ → ℕ
  | .ask _ => tariff.ask
  | .act sort => tariff.act sort
  | _ => fun _ => 0

@[simp] def isAsk : Act ι υ ω α τ → Bool
  | .ask _ => true
  | _ => false

@[simp] def isAct : Act ι υ ω α τ → Bool
  | .act _ => true
  | _ => false

@[simp] def isAnswer : Act ι υ ω α τ → Bool
  | .answer _ => true
  | _ => false

/-- The entry ends an attempt that has its answer. -/
@[simp] def settles : Act ι υ ω α τ → Bool
  | .publish _ => true
  | .keep => true
  | _ => false

@[simp] def givesUp : Act ι υ ω α τ → Bool
  | .giveUp => true
  | _ => false

@[simp] def isFinish : Act ι υ ω α τ → Bool
  | .finish _ => true
  | _ => false

@[simp] def asks? : Act ι υ ω α τ → Option ι
  | .ask id => some id
  | _ => none

@[simp] def publishes? : Act ι υ ω α τ → Option υ
  | .publish value => some value
  | _ => none

end Act

namespace Ledger

/-- A ledger with no entries. -/
def opened (budget : κ → ℕ) : Ledger ι υ ω κ τ where
  accepted := []
  asked := []
  attempt := none
  left := budget
  ended := none

/-- A step needs the attempt where it is, the units that it costs, and, but for late answers
and attempts that are given up, a ledger that has not ended. -/
inductive Step (tariff : Tariff κ α) (l : Ledger ι υ ω κ τ) :
    Act ι υ ω α τ → Ledger ι υ ω κ τ → Prop where
  | ask {id : ι} (isOpen : l.ended = none) (idle : l.attempt = none) (fresh : id ∉ l.asked)
      (paid : ∀ k, tariff.ask k ≤ l.left k) :
      Step tariff l (.ask id)
        { l with
          asked := l.asked ++ [id]
          attempt := some ⟨id, l.accepted.length, .asked⟩
          left := fun k => l.left k - tariff.ask k }
  | act {id : ι} {base : ℕ} {sort : α} (isOpen : l.ended = none)
      (asked : l.attempt = some ⟨id, base, .asked⟩) (paid : ∀ k, tariff.act sort k ≤ l.left k) :
      Step tariff l (.act sort)
        { l with
          attempt := some ⟨id, base, .acting⟩
          left := fun k => l.left k - tariff.act sort k }
  | answer {id : ι} {base : ℕ} {output : ω} (acting : l.attempt = some ⟨id, base, .acting⟩) :
      Step tariff l (.answer output) { l with attempt := some ⟨id, base, .answered output⟩ }
  | publish {id : ι} {base : ℕ} {output : ω} {value : υ} (isOpen : l.ended = none)
      (answered : l.attempt = some ⟨id, base, .answered output⟩)
      (current : base = l.accepted.length) :
      Step tariff l (.publish value)
        { l with accepted := l.accepted ++ [value], attempt := none }
  | keep {id : ι} {base : ℕ} {output : ω} (isOpen : l.ended = none)
      (answered : l.attempt = some ⟨id, base, .answered output⟩) :
      Step tariff l .keep { l with attempt := none }
  | giveUp {id : ι} {base : ℕ} (asked : l.attempt = some ⟨id, base, .asked⟩) :
      Step tariff l .giveUp { l with attempt := none }
  | finish {outcome : τ} (isOpen : l.ended = none) :
      Step tariff l (.finish outcome) { l with ended := some outcome }

/-- The ledgers that a list of entries leads to. -/
inductive Run (tariff : Tariff κ α) (l : Ledger ι υ ω κ τ) :
    List (Act ι υ ω α τ) → Ledger ι υ ω κ τ → Prop where
  | nil : Run tariff l [] l
  | snoc {acts : List (Act ι υ ω α τ)} {a : Act ι υ ω α τ} {m n : Ledger ι υ ω κ τ}
      (run : Run tariff l acts m) (step : Step tariff m a n) : Run tariff l (acts ++ [a]) n

/-! ## What the entries say -/

/-- The units of a kind that some entries cost. -/
def spent (tariff : Tariff κ α) (acts : List (Act ι υ ω α τ)) (k : κ) : ℕ :=
  (acts.map fun a => a.cost tariff k).sum

/-- The attempt has acted. -/
def hasActed (l : Ledger ι υ ω κ τ) : Bool :=
  match l.attempt with
  | some ⟨_, _, .acting⟩ => true
  | some ⟨_, _, .answered _⟩ => true
  | _ => false

/-- The attempt has its answer. -/
def hasAnswer (l : Ledger ι υ ω κ τ) : Bool :=
  match l.attempt with
  | some ⟨_, _, .answered _⟩ => true
  | _ => false

/-- A ledger, and the entries that it was made by. -/
structure Balanced (tariff : Tariff κ α) (budget : κ → ℕ) (acts : List (Act ι υ ω α τ))
    (l : Ledger ι υ ω κ τ) : Prop where
  paid : ∀ k, l.left k + spent tariff acts k = budget k
  accepted : l.accepted = acts.filterMap Act.publishes?
  asked : l.asked = acts.filterMap Act.asks?
  once : l.asked.Nodup
  base : ∀ a, l.attempt = some a → a.base = l.accepted.length
  asks : acts.countP Act.isAsk = acts.countP Act.settles + acts.countP Act.givesUp +
    l.attempt.isSome.toNat
  acted : acts.countP Act.isAct = acts.countP Act.settles + l.hasActed.toNat
  answered : acts.countP Act.isAnswer = acts.countP Act.settles + l.hasAnswer.toNat
  finished : acts.countP Act.isFinish = l.ended.isSome.toNat

section

variable {tariff : Tariff κ α} {budget : κ → ℕ} {acts : List (Act ι υ ω α τ)}
  {l m : Ledger ι υ ω κ τ} {a : Act ι υ ω α τ}

theorem spent_snoc (k : κ) :
    spent tariff (acts ++ [a]) k = spent tariff acts k + a.cost tariff k := by
  simp [spent]

theorem balanced_opened : Balanced tariff budget [] (opened budget : Ledger ι υ ω κ τ) where
  paid _ := rfl
  accepted := rfl
  asked := rfl
  once := List.nodup_nil
  base _ h := by cases h
  asks := rfl
  acted := rfl
  answered := rfl
  finished := rfl

/-! What a step does to each account. -/

theorem Step.paid (h : Step tariff l a m) (k : κ) : m.left k + a.cost tariff k = l.left k := by
  cases h with
  | ask _ _ _ paid => exact Nat.sub_add_cancel (paid k)
  | act _ _ paid => exact Nat.sub_add_cancel (paid k)
  | _ => rfl

theorem Step.accepted (h : Step tariff l a m) :
    m.accepted = l.accepted ++ a.publishes?.toList := by
  cases h <;> simp

theorem Step.asked (h : Step tariff l a m) : m.asked = l.asked ++ a.asks?.toList := by
  cases h <;> simp

theorem Step.once (h : Step tariff l a m) (hl : l.asked.Nodup) : m.asked.Nodup := by
  cases h with
  | ask _ _ fresh =>
    refine List.nodup_append.mpr ⟨hl, List.nodup_singleton _, fun x hx y hy => ?_⟩
    rw [List.mem_singleton.mp hy]
    rintro rfl
    exact fresh hx
  | _ => exact hl

theorem Step.base (h : Step tariff l a m)
    (hl : ∀ b, l.attempt = some b → b.base = l.accepted.length) :
    ∀ b, m.attempt = some b → b.base = m.accepted.length := by
  cases h with
  | ask =>
    rintro b ⟨⟩
    rfl
  | act _ asked =>
    rintro b ⟨⟩
    have hb := hl _ asked
    exact hb
  | answer acting =>
    rintro b ⟨⟩
    have hb := hl _ acting
    exact hb
  | finish => exact hl
  | _ => exact fun b hb => by cases hb

theorem Step.asks (h : Step tariff l a m) : a.isAsk.toNat + l.attempt.isSome.toNat =
    a.settles.toNat + a.givesUp.toNat + m.attempt.isSome.toNat := by
  cases h <;> simp [*]

theorem Step.acted (h : Step tariff l a m) :
    a.isAct.toNat + l.hasActed.toNat = a.settles.toNat + m.hasActed.toNat := by
  cases h <;> simp [hasActed, *]

theorem Step.answered (h : Step tariff l a m) :
    a.isAnswer.toNat + l.hasAnswer.toNat = a.settles.toNat + m.hasAnswer.toNat := by
  cases h <;> simp [hasAnswer, *]

theorem Step.finished (h : Step tariff l a m) :
    a.isFinish.toNat + l.ended.isSome.toNat = m.ended.isSome.toNat := by
  cases h <;> simp [*]

theorem countP_snoc (p : Act ι υ ω α τ → Bool) :
    (acts ++ [a]).countP p = acts.countP p + (p a).toNat := by
  rw [List.countP_append, List.countP_singleton]
  cases p a <;> rfl

/-- A step keeps the balance. -/
theorem Balanced.step (h : Balanced tariff budget acts l) (hs : Step tariff l a m) :
    Balanced tariff budget (acts ++ [a]) m where
  paid k := by
    have hk := h.paid k
    have hcost := hs.paid k
    rw [spent_snoc]
    omega
  accepted := by
    rw [hs.accepted, h.accepted, List.filterMap_append]
    cases a <;> rfl
  asked := by
    rw [hs.asked, h.asked, List.filterMap_append]
    cases a <;> rfl
  once := hs.once h.once
  base := hs.base h.base
  asks := by
    have hl := h.asks
    have hm := hs.asks
    simp only [countP_snoc]
    omega
  acted := by
    have hl := h.acted
    have hm := hs.acted
    simp only [countP_snoc]
    omega
  answered := by
    have hl := h.answered
    have hm := hs.answered
    simp only [countP_snoc]
    omega
  finished := by
    have hl := h.finished
    have hm := hs.finished
    simp only [countP_snoc]
    omega

/-- Every run is balanced. -/
theorem Run.balanced (h : Run tariff (opened budget) acts l) : Balanced tariff budget acts l := by
  induction h with
  | nil => exact balanced_opened
  | snoc _ step ih => exact ih.step step

/-! ## Bounds -/

/-- Entries that cost one unit of a kind each, where no others cost any, are what was spent. -/
theorem countP_eq_spent {p : Act ι υ ω α τ → Bool} {k : κ}
    (hp : ∀ a, (p a).toNat = Act.cost tariff a k) : acts.countP p = spent tariff acts k := by
  induction acts with
  | nil => rfl
  | cons a acts ih =>
    have ha := hp a
    unfold spent at ih ⊢
    rw [List.countP_cons, List.map_cons, List.sum_cons, ← ih, ← ha, Nat.add_comm]
    cases p a <;> rfl

theorem publishes_settle : (acts.filterMap Act.publishes?).length ≤ acts.countP Act.settles := by
  induction acts with
  | nil => exact Nat.le_refl _
  | cons a acts ih =>
    rw [List.filterMap_cons, List.countP_cons]
    cases a <;> simp <;> omega

theorem length_acts : acts.length = acts.countP Act.isAsk + acts.countP Act.isAct +
    acts.countP Act.isAnswer + acts.countP Act.settles + acts.countP Act.givesUp +
    acts.countP Act.isFinish := by
  induction acts with
  | nil => rfl
  | cons a acts ih =>
    rw [List.length_cons, ih]
    simp only [List.countP_cons]
    cases a <;> simp <;> omega

/-- A ledger is paid for: no value is accepted without an act, no act without an ask, and
there are at most four entries for each ask, and one for the end. -/
theorem Balanced.bounds (h : Balanced tariff budget acts l) :
    l.accepted.length ≤ acts.countP Act.isAct ∧
      acts.countP Act.isAct ≤ acts.countP Act.isAsk ∧
      acts.length ≤ 4 * acts.countP Act.isAsk + 1 := by
  have hasks := h.asks
  have hacted := h.acted
  have hanswered := h.answered
  have hfinished := h.finished
  have hpublished := @publishes_settle _ _ _ _ _ acts
  have hlength := @length_acts _ _ _ _ _ acts
  rw [← h.accepted] at hpublished
  have hended : l.ended.isSome.toNat ≤ 1 := Bool.toNat_le _
  have hsome : l.hasActed.toNat ≤ l.attempt.isSome.toNat := by
    unfold hasActed
    rcases l.attempt with _ | ⟨id, base, _ | _ | output⟩ <;> simp
  have hsome' : l.hasAnswer.toNat ≤ l.hasActed.toNat := by
    unfold hasAnswer hasActed
    rcases l.attempt with _ | ⟨id, base, _ | _ | output⟩ <;> simp
  refine ⟨?_, ?_, ?_⟩ <;> omega

end

end Ledger

end Ledgers
