-- Advisory locks of one file. An open file description is shared by the
-- processes that inherited a descriptor of it, and its exclusive lock is free
-- again when its last descriptor is closed.
import Mathlib.Data.List.Basic

namespace Flocks

/-- Which process has a descriptor of which description, the description that
holds the lock, and the number of the next description. -/
structure Descriptors (P : Type) where
  refs : List (P × Nat) := []
  holder : Option Nat := none
  next : Nat := 0

namespace Descriptors

variable {P : Type} {l : Descriptors P} {p q : P} {d d' : Nat}

/-- `open`: a new description, under the number `next`. -/
def opened (l : Descriptors P) (p : P) : Descriptors P :=
  { l with refs := (p, l.next) :: l.refs, next := l.next + 1 }

/-- `flock(LOCK_EX | LOCK_NB)` of the description succeeds. -/
def grants (l : Descriptors P) (d : Nat) : Bool := decide (l.holder = none ∨ l.holder = some d)

def locked (l : Descriptors P) (d : Nat) : Descriptors P := { l with holder := some d }

/-- The lock goes with the last descriptor of its description. -/
def settle (l : Descriptors P) : Descriptors P :=
  if l.holder.any (fun d => l.refs.all fun r => decide (r.2 ≠ d)) then { l with holder := none }
  else l

/-- Every description has been opened, and the lock is held by one that is open. -/
structure Sound (l : Descriptors P) : Prop where
  below : ∀ r ∈ l.refs, r.2 < l.next
  held : ∀ d, l.holder = some d → ∃ p, (p, d) ∈ l.refs

theorem sound_empty : Sound ({} : Descriptors P) :=
  ⟨fun _ h => (by cases h), fun _ h => (by cases h)⟩

/-! ## What an operation leaves -/

@[simp] theorem refs_settle : l.settle.refs = l.refs := by
  unfold settle
  split <;> rfl

@[simp] theorem next_settle : l.settle.next = l.next := by
  unfold settle
  split <;> rfl

/-- The holder stays as long as one of its descriptors does. -/
theorem holder_settle (h : l.holder = some d) (hr : (p, d) ∈ l.refs) :
    l.settle.holder = some d := by
  unfold settle
  rw [if_neg]
  · exact h
  · rw [h]
    simp only [Option.any_some, List.all_eq_true, decide_eq_true_eq]
    exact fun hall => hall (p, d) hr rfl

theorem held_settle (h : l.settle.holder = some d) : ∃ p, (p, d) ∈ l.refs := by
  unfold settle at h
  split at h
  · cases h
  · rename_i hn
    rw [h] at hn
    simp only [Option.any_some, List.all_eq_true, decide_eq_true_eq, not_forall, not_not] at hn
    obtain ⟨⟨p, _⟩, hr, rfl⟩ := hn
    exact ⟨p, hr⟩

theorem Sound.opened (h : l.Sound) (p : P) : (l.opened p).Sound where
  below r hr := by
    rcases List.mem_cons.mp hr with rfl | hr
    · exact Nat.lt_succ_self _
    · exact Nat.lt_succ_of_lt (h.below r hr)
  held d hd := by
    obtain ⟨q, hq⟩ := h.held d hd
    exact ⟨q, List.mem_cons_of_mem _ hq⟩

theorem Sound.locked (h : l.Sound) (hr : (p, d) ∈ l.refs) : (l.locked d).Sound where
  below := h.below
  held d' hd := by
    cases hd
    exact ⟨p, hr⟩

variable [DecidableEq P]

/-- `close` -/
def closed (l : Descriptors P) (p : P) (d : Nat) : Descriptors P :=
  settle { l with refs := l.refs.filter fun r => decide (r ≠ (p, d)) }

/-- `fork`: the child gets a descriptor of each description of its parent. -/
def forked (l : Descriptors P) (p child : P) : Descriptors P :=
  { l with
    refs := l.refs ++ (l.refs.filter fun r => decide (r.1 = p)).map fun r => (child, r.2) }

/-- The process ends, and its descriptors with it. -/
def exited (l : Descriptors P) (p : P) : Descriptors P :=
  settle { l with refs := l.refs.filter fun r => decide (r.1 ≠ p) }

@[simp] theorem mem_refs_closed {r : P × Nat} :
    r ∈ (l.closed p d).refs ↔ r ∈ l.refs ∧ r ≠ (p, d) := by
  simp [closed]

@[simp] theorem mem_refs_exited {r : P × Nat} : r ∈ (l.exited p).refs ↔ r ∈ l.refs ∧ r.1 ≠ p := by
  simp [exited]

theorem mem_refs_forked {r : P × Nat} :
    r ∈ (l.forked p q).refs ↔ r ∈ l.refs ∨ ((p, r.2) ∈ l.refs ∧ r.1 = q) := by
  unfold forked
  simp only [List.mem_append, List.mem_map, List.mem_filter, decide_eq_true_eq]
  refine or_congr_right ⟨?_, ?_⟩
  · rintro ⟨⟨a, b⟩, ⟨hm, rfl⟩, rfl⟩
    exact ⟨hm, rfl⟩
  · rintro ⟨hm, hq⟩
    exact ⟨(p, r.2), ⟨hm, rfl⟩, Prod.ext hq.symm rfl⟩

theorem holder_closed (h : l.holder = some d') (hr : (q, d') ∈ l.refs) (hne : (q, d') ≠ (p, d)) :
    (l.closed p d).holder = some d' :=
  holder_settle h (List.mem_filter.mpr ⟨hr, decide_eq_true hne⟩)

theorem holder_exited (h : l.holder = some d) (hr : (q, d) ∈ l.refs) (hne : q ≠ p) :
    (l.exited p).holder = some d :=
  holder_settle h (List.mem_filter.mpr ⟨hr, decide_eq_true hne⟩)

theorem Sound.closed (h : l.Sound) (p : P) (d : Nat) : (l.closed p d).Sound where
  below r hr := by
    have hr := (mem_refs_closed.mp hr).1
    unfold Descriptors.closed
    rw [next_settle]
    exact h.below r hr
  held d' hd := by
    obtain ⟨q, hq⟩ := held_settle hd
    refine ⟨q, ?_⟩
    unfold Descriptors.closed
    rw [refs_settle]
    exact hq

theorem Sound.exited (h : l.Sound) (p : P) : (l.exited p).Sound where
  below r hr := by
    have hr := (mem_refs_exited.mp hr).1
    unfold Descriptors.exited
    rw [next_settle]
    exact h.below r hr
  held d hd := by
    obtain ⟨q, hq⟩ := held_settle hd
    refine ⟨q, ?_⟩
    unfold Descriptors.exited
    rw [refs_settle]
    exact hq

theorem Sound.forked (h : l.Sound) (p q : P) : (l.forked p q).Sound where
  below r hr := by
    rcases mem_refs_forked.mp hr with hr | ⟨hr, -⟩
    · exact h.below r hr
    · exact h.below (p, r.2) hr
  held d hd := by
    obtain ⟨p', hp⟩ := h.held d hd
    exact ⟨p', mem_refs_forked.mpr (.inl hp)⟩

end Descriptors

end Flocks
