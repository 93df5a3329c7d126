-- Keyed tables: the rows in the order of insertion, no two with one key.
-- An insert refuses a key that is present, an update keeps every key, and
-- no row is ever deleted.
import Mathlib

namespace Relational

variable {ρ κ : Type}

/-- The rows of a table with a unique key, oldest first. -/
structure Table (key : ρ → κ) where
  rows : List ρ
  keysNodup : (rows.map key).Nodup

namespace Table

variable {key : ρ → κ}

@[ext] theorem ext {t u : Table key} (h : t.rows = u.rows) : t = u := by
  cases t; cases u; cases h; rfl

def empty : Table key := ⟨[], by simp⟩

instance : Inhabited (Table key) := ⟨empty⟩

instance [DecidableEq ρ] : DecidableEq (Table key) := fun t u =>
  decidable_of_iff (t.rows = u.rows) ⟨Table.ext, fun h => h ▸ rfl⟩

/-- Some row has the key `k`. -/
def Has (t : Table key) (k : κ) : Prop := ∃ r ∈ t.rows, key r = k

/-- An update of every row that leaves the keys alone. -/
def mapRows (t : Table key) (f : ρ → ρ) (hf : ∀ r, key (f r) = key r) : Table key :=
  ⟨t.rows.map f, by
    have h : key ∘ f = key := funext hf
    rw [List.map_map, h]
    exact t.keysNodup⟩

variable [DecidableEq κ]

/-- The row with the key `k`. -/
def lookup (t : Table key) (k : κ) : Option ρ := t.rows.find? (fun r => decide (key r = k))

instance (t : Table key) (k : κ) : Decidable (t.Has k) :=
  inferInstanceAs (Decidable (∃ r ∈ t.rows, key r = k))

/-- An insert at the end. It gives nothing when the key is present. -/
def insert (t : Table key) (r : ρ) : Option (Table key) :=
  if h : t.Has (key r) then none
  else some ⟨t.rows ++ [r], by
    rw [List.map_append, List.nodup_append]
    refine ⟨t.keysNodup, List.nodup_singleton _, ?_⟩
    intro k hk k' hk' he
    simp only [List.map_cons, List.map_nil, List.mem_singleton] at hk'
    obtain ⟨q, hq, hkq⟩ := List.mem_map.mp hk
    exact h ⟨q, hq, by rw [hkq, he, hk']⟩⟩

/-- Inserts of several rows, in order. -/
def insertAll (t : Table key) : List ρ → Option (Table key)
  | [] => some t
  | r :: rs => (t.insert r).bind fun u => insertAll u rs

/-- The rows with the key `k`, changed by `f`. -/
def update (t : Table key) (k : κ) (f : ρ → ρ) (hf : ∀ r, key (f r) = key r) : Table key :=
  t.mapRows (fun r => if key r = k then f r else r) (fun r => by split <;> simp [hf])

/-! ## Reading a table -/

theorem lookup_some {t : Table key} {k : κ} {r : ρ} (h : t.lookup k = some r) :
    r ∈ t.rows ∧ key r = k := by
  refine ⟨List.mem_of_find?_eq_some h, ?_⟩
  simpa using List.find?_some h

omit [DecidableEq κ] in
theorem eq_of_key {t : Table key} {r q : ρ} (hr : r ∈ t.rows) (hq : q ∈ t.rows)
    (h : key r = key q) : r = q :=
  List.inj_on_of_nodup_map t.keysNodup hr hq h

theorem lookup_of_mem {t : Table key} {r : ρ} (h : r ∈ t.rows) : t.lookup (key r) = some r := by
  rcases hf : t.lookup (key r) with _ | q
  · have := List.find?_eq_none.mp hf r h
    simp at this
  · obtain ⟨hq, hk⟩ := lookup_some hf
    rw [eq_of_key hq h hk]

theorem lookup_eq_some_iff {t : Table key} {k : κ} {r : ρ} :
    t.lookup k = some r ↔ r ∈ t.rows ∧ key r = k := by
  constructor
  · exact lookup_some
  · rintro ⟨h, rfl⟩
    exact lookup_of_mem h

theorem lookup_eq_none_iff {t : Table key} {k : κ} : t.lookup k = none ↔ ¬ t.Has k := by
  simp [lookup, Has, List.find?_eq_none]

theorem has_iff_lookup {t : Table key} {k : κ} : t.Has k ↔ ∃ r, t.lookup k = some r := by
  simp only [lookup_eq_some_iff, Has]

omit [DecidableEq κ] in
@[simp] theorem rows_empty : (empty : Table key).rows = [] := rfl

@[simp] theorem lookup_empty (k : κ) : (empty : Table key).lookup k = none := rfl

/-! ## An insert -/

theorem insert_eq_some_iff {t u : Table key} {r : ρ} :
    t.insert r = some u ↔ ¬ t.Has (key r) ∧ u.rows = t.rows ++ [r] := by
  unfold insert
  split
  · simp [*]
  · constructor
    · intro h
      cases h
      exact ⟨‹_›, rfl⟩
    · rintro ⟨-, h⟩
      exact congrArg some (Table.ext h.symm)

theorem lookup_insert {t u : Table key} {r : ρ} (h : t.insert r = some u) (k : κ) :
    u.lookup k = if key r = k then some r else t.lookup k := by
  obtain ⟨hnew, hrows⟩ := insert_eq_some_iff.mp h
  simp only [lookup, hrows, List.find?_append]
  by_cases hk : key r = k
  · subst hk
    have : t.lookup (key r) = none := lookup_eq_none_iff.mpr hnew
    simp only [lookup] at this
    simp [this]
  · simp [hk]

theorem has_insert {t u : Table key} {r : ρ} (h : t.insert r = some u) (k : κ) :
    u.Has k ↔ key r = k ∨ t.Has k := by
  simp only [has_iff_lookup, lookup_insert h]
  by_cases hk : key r = k <;> simp [hk]

theorem mem_insert {t u : Table key} {r q : ρ} (h : t.insert r = some u) :
    q ∈ u.rows ↔ q ∈ t.rows ∨ q = r := by
  rw [(insert_eq_some_iff.mp h).2]
  simp

@[simp] theorem insertAll_nil (t : Table key) : t.insertAll [] = some t := rfl

@[simp] theorem insertAll_singleton (t : Table key) (r : ρ) : t.insertAll [r] = t.insert r := by
  simp [insertAll]

theorem insertAll_rows {t u : Table key} {rs : List ρ} (h : t.insertAll rs = some u) :
    u.rows = t.rows ++ rs := by
  induction rs generalizing t with
  | nil => cases h; simp
  | cons r rs ih =>
    obtain ⟨v, hv, hu⟩ := Option.bind_eq_some_iff.mp h
    rw [ih hu, (insert_eq_some_iff.mp hv).2, List.append_assoc]
    rfl

/-- A new row with a key of its own goes in. -/
theorem insert_of_fresh {t : Table key} {r : ρ} (h : ¬ t.Has (key r)) :
    ∃ u, t.insert r = some u := by
  unfold insert
  rw [dif_neg h]
  exact ⟨_, rfl⟩

/-- New rows with keys of their own all go in. -/
theorem insertAll_of_fresh {t : Table key} {l : List ρ} (hnodup : (l.map key).Nodup)
    (hnew : ∀ r ∈ l, ¬ t.Has (key r)) : ∃ u, t.insertAll l = some u := by
  induction l generalizing t with
  | nil => exact ⟨t, rfl⟩
  | cons r rs ih =>
    rw [List.map_cons, List.nodup_cons] at hnodup
    obtain ⟨v, hv⟩ := insert_of_fresh (hnew r (by simp))
    obtain ⟨u, hu⟩ := ih (t := v) hnodup.2 (fun q hq hh => by
      rcases (has_insert hv _).mp hh with he | hh
      · exact hnodup.1 (he ▸ List.mem_map_of_mem hq)
      · exact hnew q (List.mem_cons_of_mem _ hq) hh)
    exact ⟨u, by simp [insertAll, hv, hu]⟩

theorem mem_insertAll {t u : Table key} {rs : List ρ} (h : t.insertAll rs = some u) {q : ρ} :
    q ∈ u.rows ↔ q ∈ t.rows ∨ q ∈ rs := by
  rw [insertAll_rows h, List.mem_append]

theorem has_insertAll {t u : Table key} {rs : List ρ} (h : t.insertAll rs = some u) (k : κ) :
    u.Has k ↔ t.Has k ∨ ∃ r ∈ rs, key r = k := by
  simp only [Has, insertAll_rows h, List.mem_append]
  constructor
  · rintro ⟨r, hr | hr, hk⟩
    · exact .inl ⟨r, hr, hk⟩
    · exact .inr ⟨r, hr, hk⟩
  · rintro (⟨r, hr, hk⟩ | ⟨r, hr, hk⟩)
    · exact ⟨r, .inl hr, hk⟩
    · exact ⟨r, .inr hr, hk⟩

/-! ## Counting -/

omit [DecidableEq κ] in
/-- A row is in the table once, or not at all. -/
theorem count_eq [DecidableEq ρ] (t : Table key) (r : ρ) :
    t.rows.count r = if r ∈ t.rows then 1 else 0 :=
  List.Nodup.count t.keysNodup.of_map

/-- Two lists without repetition in some field have one length when the
field takes the same values in both. -/
theorem length_eq_of_same_values {τ υ : Type} {l : List ρ} {m : List τ} {f : ρ → υ} {g : τ → υ}
    (hl : (l.map f).Nodup) (hm : (m.map g).Nodup) (h : ∀ k, k ∈ l.map f ↔ k ∈ m.map g) :
    l.length = m.length := by
  have := ((List.perm_ext_iff_of_nodup hl hm).mpr h).length_eq
  simpa using this

/-! ## An update -/

theorem lookup_update {t : Table key} {k : κ} {f : ρ → ρ} {hf : ∀ r, key (f r) = key r} (k' : κ) :
    (t.update k f hf).lookup k' = if k = k' then (t.lookup k').map f else t.lookup k' := by
  have hkey : ∀ r, key (if key r = k then f r else r) = key r := fun r => by
    split <;> simp [hf]
  have hp : ((fun r => decide (key r = k')) ∘ fun r => if key r = k then f r else r) =
      fun r => decide (key r = k') := funext fun r => by
    simp only [Function.comp_apply, hkey]
  simp only [lookup, update, mapRows, List.find?_map, hp]
  rcases hl : t.rows.find? (fun r => decide (key r = k')) with _ | r
  · simp
  · have hk : key r = k' := by simpa using List.find?_some hl
    by_cases h : k = k'
    · simp [h, hk]
    · have hne : ¬ k' = k := fun he => h he.symm
      simp [h, hk, hne]

@[simp] theorem has_update {t : Table key} {k k' : κ} {f : ρ → ρ} {hf : ∀ r, key (f r) = key r} :
    (t.update k f hf).Has k' ↔ t.Has k' := by
  simp only [has_iff_lookup, lookup_update]
  by_cases h : k = k' <;> simp [h]

@[simp] theorem length_update {t : Table key} {k : κ} {f : ρ → ρ} {hf : ∀ r, key (f r) = key r} :
    (t.update k f hf).rows.length = t.rows.length := by
  simp [update, mapRows]

theorem update_of_absent {l : List ρ} {k : κ} {f : ρ → ρ} (h : ∀ r ∈ l, key r ≠ k) :
    l.map (fun r => if key r = k then f r else r) = l := by
  refine (List.map_congr_left fun r hr => ?_).trans (List.map_id l)
  rw [if_neg (h r hr)]
  rfl

/-- An update counts the changed row for the old one. -/
theorem countP_update {t : Table key} {k : κ} {f : ρ → ρ} {hf : ∀ r, key (f r) = key r} {r : ρ}
    (h : t.lookup k = some r) (p : ρ → Bool) :
    (t.update k f hf).rows.countP p + (if p r then 1 else 0) =
      t.rows.countP p + (if p (f r) then 1 else 0) := by
  obtain ⟨hm, rfl⟩ := lookup_some h
  obtain ⟨as, bs, hrows⟩ := List.append_of_mem hm
  have hnodup := t.keysNodup
  rw [hrows, List.map_append, List.map_cons, List.nodup_append, List.nodup_cons] at hnodup
  obtain ⟨-, ⟨hbs, -⟩, has⟩ := hnodup
  have ha : ∀ q ∈ as, key q ≠ key r :=
    fun q hq => has _ (List.mem_map_of_mem hq) _ (by simp)
  have hb : ∀ q ∈ bs, key q ≠ key r := fun q hq he => hbs (he ▸ List.mem_map_of_mem hq)
  have hupdate : (t.update (key r) f hf).rows = as ++ f r :: bs := by
    simp only [update, mapRows, hrows, List.map_append, List.map_cons, if_pos, update_of_absent ha,
      update_of_absent hb]
  rw [hupdate, hrows]
  simp only [List.countP_append, List.countP_cons]
  omega

/-- Where no row with `p` is lost, the rows with `p` are the old ones and the new ones. -/
theorem countP_since {t u : Table key} {p : ρ → Bool}
    (h : ∀ k, (t.lookup k).any p = true → (u.lookup k).any p = true) :
    u.rows.countP p =
      t.rows.countP p + u.rows.countP (fun r => p r && !(t.lookup (key r)).any p) := by
  have hold : ((u.rows.filter fun r => p r && (t.lookup (key r)).any p).map key).Perm
      ((t.rows.filter p).map key) := by
    refine (List.perm_ext_iff_of_nodup (u.keysNodup.sublist (List.filter_sublist.map key))
      (t.keysNodup.sublist (List.filter_sublist.map key))).mpr fun k => ?_
    simp only [List.mem_map, List.mem_filter, Bool.and_eq_true, Option.any_eq_true]
    constructor
    · rintro ⟨r, ⟨-, -, q, hq, hp⟩, rfl⟩
      exact ⟨q, ⟨(lookup_some hq).1, hp⟩, (lookup_some hq).2⟩
    · rintro ⟨q, ⟨hq, hp⟩, rfl⟩
      obtain ⟨r, hr, hpr⟩ :=
        (Option.any_eq_true _ _).mp (h (key q) (by rw [lookup_of_mem hq]; exact hp))
      obtain ⟨hm, hk⟩ := lookup_some hr
      exact ⟨r, ⟨hm, hpr, q, by rw [hk, lookup_of_mem hq], hp⟩, hk⟩
  have hlen := hold.length_eq
  rw [List.length_map, List.length_map, ← List.countP_eq_length_filter,
    ← List.countP_eq_length_filter] at hlen
  rw [← hlen, List.countP_eq_length_filter, List.length_eq_length_filter_add
    (fun r => (t.lookup (key r)).any p), List.filter_filter, List.filter_filter]
  simp only [List.countP_eq_length_filter, Bool.and_comm]

/-! ## A sum over some keys -/

/-- A sum over some of the keys is at most the sum over the rows. -/
theorem sum_keys_le {t : Table key} {f : κ → Int} {g : ρ → Int} {keys : List κ}
    (hn : keys.Nodup) (hk : ∀ k ∈ keys, ∃ r ∈ t.rows, key r = k ∧ f k ≤ g r)
    (hg : ∀ r ∈ t.rows, 0 ≤ g r) : (keys.map f).sum ≤ (t.rows.map g).sum := by
  obtain ⟨weight, hweight⟩ : ∃ weight : κ → Int, ∀ r ∈ t.rows, weight (key r) = g r :=
    ⟨fun k => (t.lookup k).elim 0 g, fun r hr => by simp [lookup_of_mem hr]⟩
  have hsubset : keys ⊆ t.rows.map key := by
    intro k hmem
    obtain ⟨r, hr, he, -⟩ := hk k hmem
    exact List.mem_map.mpr ⟨r, hr, he⟩
  obtain ⟨some_keys, hperm, hsub⟩ := List.subperm_of_subset hn hsubset
  calc (keys.map f).sum ≤ (keys.map weight).sum := by
        refine List.sum_le_sum fun k hmem => ?_
        obtain ⟨r, hr, rfl, hle⟩ := hk k hmem
        rwa [hweight r hr]
    _ = (some_keys.map weight).sum := (hperm.map weight).symm.sum_eq
    _ ≤ ((t.rows.map key).map weight).sum := by
        refine (hsub.map weight).sum_le_sum fun x hx => ?_
        obtain ⟨k, hmem, rfl⟩ := List.mem_map.mp hx
        obtain ⟨r, hr, rfl⟩ := List.mem_map.mp hmem
        rw [hweight r hr]
        exact hg r hr
    _ = (t.rows.map g).sum := by
        rw [List.map_map]
        exact congrArg List.sum (List.map_congr_left hweight)

/-- What a table says of the keys of another, summed over either of the two. -/
theorem sum_lookup {ρ' : Type} {key' : ρ' → κ} (t : Table key) (u : Table key') (g : ρ' → Int)
    (h : ∀ r ∈ u.rows, t.Has (key' r)) :
    (t.rows.map fun r => (u.lookup (key r)).elim 0 g).sum = (u.rows.map g).sum := by
  have hkeys : ∀ {τ : Type} {key'' : τ → κ} (v : Table key''),
      ((v.rows.map key'').map fun k => (u.lookup k).elim 0 g).sum =
        ∑ k ∈ (v.rows.map key'').toFinset, (u.lookup k).elim 0 g :=
    fun v => (List.sum_toFinset _ v.keysNodup).symm
  have hsubset : (u.rows.map key').toFinset ⊆ (t.rows.map key).toFinset := by
    intro k hk
    rw [List.mem_toFinset] at hk ⊢
    obtain ⟨r, hr, rfl⟩ := List.mem_map.mp hk
    obtain ⟨q, hq, he⟩ := h r hr
    exact List.mem_map.mpr ⟨q, hq, he⟩
  calc (t.rows.map fun r => (u.lookup (key r)).elim 0 g).sum
      = ∑ k ∈ (t.rows.map key).toFinset, (u.lookup k).elim 0 g := by
        rw [← hkeys t, List.map_map]
        rfl
    _ = ∑ k ∈ (u.rows.map key').toFinset, (u.lookup k).elim 0 g := by
        refine (Finset.sum_subset hsubset fun k _ hk => ?_).symm
        have hnone : u.lookup k = none := lookup_eq_none_iff.mpr fun ⟨r, hr, he⟩ =>
          hk (List.mem_toFinset.mpr (List.mem_map.mpr ⟨r, hr, he⟩))
        rw [hnone]
        rfl
    _ = (u.rows.map g).sum := by
        rw [← hkeys u, List.map_map]
        refine congrArg List.sum (List.map_congr_left fun r hr => ?_)
        simp [lookup_of_mem hr]

end Table

end Relational
