-- When two decoded values are the same: dicts by what stands under each key, in
-- whatever order, and numbers and booleans by their type too.
import FlynnAgents.Values

namespace FlynnAgents

open JsonText (Decimal Constant Tree)

variable {S : Type}

namespace Value

/-! ## Sameness -/

section
variable [DecidableEq S]

mutual

/-- `v == w`, of two values of one type. -/
def same : Value S → Value S → Bool
  | .none, .none => true
  | .bool a, .bool b => decide (a = b)
  | .int m, .int n => decide (m = n)
  | .float x, .float y => decide (x = y)
  | .str s, .str t => decide (s = t)
  | .list vs, .list ws => sameItems vs ws
  | .dict a, .dict b => decide (a.length = b.length) && sameFields a b
  | _, _ => false

def sameItems : List (Value S) → List (Value S) → Bool
  | [], [] => true
  | v :: vs, w :: ws => same v w && sameItems vs ws
  | _, _ => false

/-- Each field is among the fields of another dict. -/
def sameFields : List (S × Value S) → List (S × Value S) → Bool
  | [], _ => true
  | (k, v) :: fields, b =>
    (match get k b with
      | some w => same v w
      | .none => false) && sameFields fields b

end

mutual

/-- No dict of the value repeats a key. -/
def unique : Value S → Bool
  | .list vs => uniqueItems vs
  | .dict fields => decide (fields.map Prod.fst).Nodup && uniqueFields fields
  | _ => true

def uniqueItems : List (Value S) → Bool
  | [] => true
  | v :: vs => unique v && uniqueItems vs

def uniqueFields : List (S × Value S) → Bool
  | [] => true
  | (_, v) :: fields => unique v && uniqueFields fields

end

@[simp] theorem same_str {v : Value S} {s : S} : v.same (.str s) = true ↔ v = .str s := by
  cases v <;> simp [same]

@[simp] theorem same_none {v : Value S} : v.same .none = true ↔ v = .none := by
  cases v <;> simp [same]

@[simp] theorem same_int {v : Value S} {n : Int} : v.same (.int n) = true ↔ v = .int n := by
  cases v <;> simp [same]

theorem same_list {v : Value S} {ws : List (Value S)} :
    v.same (.list ws) = true ↔ ∃ vs, v = .list vs ∧ sameItems vs ws = true := by
  cases v <;> simp [same]

/-! ## Fields -/

theorem get_eq_some_iff {β : Type} {fields : List (S × β)} (h : (fields.map Prod.fst).Nodup)
    {k : S} {v : β} : get k fields = some v ↔ (k, v) ∈ fields := by
  induction fields with
  | nil => simp [get]
  | cons f fields ih =>
    obtain ⟨k', v'⟩ := f
    rw [List.map_cons, List.nodup_cons] at h
    by_cases hk : k' = k
    · subst hk
      rw [get_here, List.mem_cons]
      constructor
      · intro he
        cases he
        exact .inl rfl
      · rintro (he | hm)
        · cases he
          rfl
        · exact absurd (List.mem_map.mpr ⟨_, hm, rfl⟩) h.1
    · rw [get_there hk, ih h.2, List.mem_cons]
      constructor
      · exact .inr
      · rintro (he | hm)
        · cases he
          exact absurd rfl hk
        · exact hm

theorem get_isSome_iff {β : Type} {fields : List (S × β)} {k : S} :
    (get k fields).isSome = true ↔ k ∈ fields.map Prod.fst := by
  induction fields with
  | nil => simp [get]
  | cons f fields ih =>
    obtain ⟨k', v'⟩ := f
    by_cases hk : k' = k
    · subst hk
      rw [get_here]
      simp
    · rw [get_there hk, ih, List.map_cons, List.mem_cons]
      simp [Ne.symm hk]

theorem sameFields_iff {a b : List (S × Value S)} :
    sameFields a b = true ↔ ∀ k v, (k, v) ∈ a → ∃ w, get k b = some w ∧ v.same w = true := by
  induction a with
  | nil => simp [sameFields]
  | cons f a ih =>
    obtain ⟨k, v⟩ := f
    rw [sameFields, Bool.and_eq_true, ih]
    constructor
    · rintro ⟨hhead, htail⟩ k' v' hm
      rcases List.mem_cons.mp hm with he | hm
      · cases he
        cases hw : get k b with
        | none =>
          rw [hw] at hhead
          cases hhead
        | some w =>
          rw [hw] at hhead
          exact ⟨w, rfl, hhead⟩
      · exact htail k' v' hm
    · intro h
      obtain ⟨w, hw, hs⟩ := h k v List.mem_cons_self
      exact ⟨by rw [hw]; exact hs, fun k' v' hm => h k' v' (List.mem_cons_of_mem _ hm)⟩

theorem sameNames_iff {names keys : List S} :
    sameNames names keys = true ↔ ∀ k, k ∈ names ↔ k ∈ keys := by
  unfold sameNames
  simp only [Bool.and_eq_true, List.all_eq_true, decide_eq_true_eq]
  constructor
  · rintro ⟨hn, hk⟩ k
    exact ⟨hn k, hk k⟩
  · intro h
    exact ⟨fun k => (h k).mp, fun k => (h k).mpr⟩

/-- A dict is the same as a record when it has the keys of the record, and the same under
each of them. -/
theorem same_dict {a b : List (S × Value S)} (ha : (a.map Prod.fst).Nodup)
    (hb : (b.map Prod.fst).Nodup) :
    same (.dict a) (.dict b) = true ↔ keysAre (b.map Prod.fst) a = true ∧
      ∀ k w, (k, w) ∈ b → ∃ v, get k a = some v ∧ v.same w = true := by
  rw [same, Bool.and_eq_true, decide_eq_true_eq, sameFields_iff, keysAre, sameNames_iff]
  constructor
  · rintro ⟨hlength, hall⟩
    have hsub : a.map Prod.fst ⊆ b.map Prod.fst := by
      intro k hk
      obtain ⟨⟨k, v⟩, hm, rfl⟩ := List.mem_map.mp hk
      obtain ⟨w, hw, -⟩ := hall k v hm
      exact get_isSome_iff.mp (Option.isSome_of_eq_some hw)
    have hperm : (a.map Prod.fst).Perm (b.map Prod.fst) :=
      (List.subperm_of_subset ha hsub).perm_of_length_le (by simp [hlength])
    refine ⟨fun k => hperm.mem_iff.symm, fun k w hm => ?_⟩
    have hk : k ∈ a.map Prod.fst := hperm.mem_iff.mpr (List.mem_map.mpr ⟨_, hm, rfl⟩)
    obtain ⟨⟨k, v⟩, hmv, rfl⟩ := List.mem_map.mp hk
    obtain ⟨w', hw', hs⟩ := hall k v hmv
    rw [(get_eq_some_iff hb).mpr hm] at hw'
    cases hw'
    exact ⟨v, (get_eq_some_iff ha).mpr hmv, hs⟩
  · rintro ⟨hkeys, hall⟩
    have hperm := (List.perm_ext_iff_of_nodup hb ha).mpr hkeys
    refine ⟨by simpa using hperm.length_eq.symm, fun k v hm => ?_⟩
    have hk : k ∈ b.map Prod.fst := (hkeys k).mpr (List.mem_map.mpr ⟨_, hm, rfl⟩)
    obtain ⟨⟨k, w⟩, hmw, rfl⟩ := List.mem_map.mp hk
    obtain ⟨v', hv', hs⟩ := hall k w hmw
    rw [(get_eq_some_iff ha).mpr hm] at hv'
    cases hv'
    exact ⟨w, (get_eq_some_iff hb).mpr hmw, hs⟩

theorem unique_of_get {fields : List (S × Value S)} (h : uniqueFields fields = true) {k : S}
    {v : Value S} (hv : get k fields = some v) : v.unique = true := by
  induction fields with
  | nil => cases hv
  | cons f fields ih =>
    obtain ⟨k', v'⟩ := f
    rw [uniqueFields, Bool.and_eq_true] at h
    by_cases hk : k' = k
    · subst hk
      rw [get_here] at hv
      cases hv
      exact h.1
    · rw [get_there hk] at hv
      exact ih h.2 hv

end

end Value

/-! ## What is decoded repeats no key -/

/-- The hook gives dicts that repeat no key, of values that repeat none. -/
def Hooks.KeysUnique (hooks : Hooks) : Prop :=
  ∀ pairs v, hooks.objectPairs pairs = some v → Value.uniqueFields pairs = true →
    v.unique = true

theorem keysUnique_of {hooks : Hooks} (hunique : hooks.objectPairs = uniqueObject) :
    hooks.KeysUnique := by
  intro pairs v h hpairs
  rw [hunique] at h
  obtain ⟨hnodup, rfl⟩ := uniqueObject_eq_some h
  rw [Value.unique, decide_eq_true hnodup, hpairs]
  rfl

variable {hooks : Hooks}

mutual

theorem decode_unique (hk : hooks.KeysUnique) : ∀ {t : Tree} {v : Value Text},
    hooks.decode t = some v → v.unique = true
  | .null, v, h => by cases h; rfl
  | .bool b, v, h => by cases h; rfl
  | .int n, v, h => by cases h; rfl
  | .str s, v, h => by cases h; rfl
  | .float number, v, h => by
    rw [Hooks.decode] at h
    obtain ⟨x, -, rfl⟩ := Option.map_eq_some_iff.mp h
    rfl
  | .constant name, v, h => by
    rw [Hooks.decode] at h
    obtain ⟨x, -, rfl⟩ := Option.map_eq_some_iff.mp h
    rfl
  | .arr items, v, h => by
    rw [Hooks.decode] at h
    obtain ⟨vs, hvs, rfl⟩ := Option.map_eq_some_iff.mp h
    rw [Value.unique]
    exact decodeItems_unique hk hvs
  | .obj fields, v, h => by
    rw [Hooks.decode] at h
    obtain ⟨vs, hvs, hv⟩ := Option.bind_eq_some_iff.mp h
    exact hk vs v hv (decodeFields_unique hk hvs)

theorem decodeItems_unique (hk : hooks.KeysUnique) : ∀ {items : List Tree} {vs : List (Value Text)},
    hooks.decodeItems items = some vs → Value.uniqueItems vs = true
  | [], vs, h => by cases h; rfl
  | item :: items, vs, h => by
    obtain ⟨v, rest, hv, hrest, rfl⟩ := decodeItems_cons h
    rw [Value.uniqueItems, decode_unique hk hv, decodeItems_unique hk hrest]
    rfl

theorem decodeFields_unique (hk : hooks.KeysUnique) : ∀ {fields : List (Text × Tree)}
    {vs : List (Text × Value Text)}, hooks.decodeFields fields = some vs →
      Value.uniqueFields vs = true
  | [], vs, h => by cases h; rfl
  | (key, value) :: fields, vs, h => by
    obtain ⟨v, rest, hv, hrest, rfl⟩ := decodeFields_cons h
    rw [Value.uniqueFields, decode_unique hk hv, decodeFields_unique hk hrest]
    rfl

end

end FlynnAgents
