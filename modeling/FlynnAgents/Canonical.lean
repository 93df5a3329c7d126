-- The canonical text of a JSON value: json.dumps with its keys in order, and what
-- json.loads makes of it again.
import FlynnAgents.ParseJson
import FlynnAgents.Lib.Binary64
import FlynnAgents.Lib.JsonPlain
import Mathlib.Data.List.Lex

namespace FlynnAgents

open JsonText (Decimal Constant Tree joinTree joinItems joinFields)
open Text (joined HasPair)
open Value (same sameItems sameFields unique uniqueItems uniqueFields)

/-! ## Floats -/

/-- `float(literal)`: a float stands as the decimal that its `repr` writes. -/
def floatOf (number : Decimal) : Double :=
  (Binary64.round number).elim (.infinite number.negative) .finite

/-- `json.loads`, or nothing where it raises. -/
def loads (text : Text) : Option (Value Text) := (plainHooks floatOf).loads text

/-! ## Printing -/

mutual

/-- What is written of a value. -/
def Value.document : Value Text → Tree
  | .none => .null
  | .bool b => .bool b
  | .int n => .int n
  | .float (.finite r) => .float r
  | .float (.infinite negative) => .constant (if negative then .minusInfinity else .infinity)
  | .float .nan => .constant .nan
  | .str s => .str s
  | .list vs => .arr (documentItems vs)
  | .dict fields => .obj (documentFields fields)

def Value.documentItems : List (Value Text) → List Tree
  | [] => []
  | v :: vs => v.document :: documentItems vs

def Value.documentFields : List (Text × Value Text) → List (Text × Tree)
  | [] => []
  | (k, v) :: fields => (k, v.document) :: documentFields fields

end

/-- The order of two items by their keys. -/
def keyLe (a b : Text × Value Text) : Bool := decide (a.1 ≤ b.1)

mutual

/-- The value with the items of every dict in the order of their keys. -/
def Value.sorted : Value Text → Value Text
  | .list vs => .list (sortedItems vs)
  | .dict fields => .dict ((sortedFields fields).mergeSort keyLe)
  | v => v

def Value.sortedItems : List (Value Text) → List (Value Text)
  | [] => []
  | v :: vs => v.sorted :: sortedItems vs

def Value.sortedFields : List (Text × Value Text) → List (Text × Value Text)
  | [] => []
  | (k, v) :: fields => (k, v.sorted) :: sortedFields fields

end

/-- `json.dumps` with sorted keys, compact separators and `allow_nan=False`, or nothing
where it raises. -/
def Value.dumpsSorted (v : Value Text) : Option Text :=
  JsonText.write JsonText.compact v.sorted.document

/-! ## Sorting -/

open Value (sorted sortedItems sortedFields document documentItems documentFields)

theorem keyLe_trans (a b c : Text × Value Text) (hab : keyLe a b = true) (hbc : keyLe b c = true) :
    keyLe a c = true := by
  unfold keyLe at *
  rw [decide_eq_true_iff] at *
  exact le_trans hab hbc

theorem keyLe_total (a b : Text × Value Text) : (keyLe a b || keyLe b a) = true := by
  unfold keyLe
  rw [Bool.or_eq_true, decide_eq_true_iff, decide_eq_true_iff]
  exact le_total a.1 b.1

theorem sortedFields_eq (fields : List (Text × Value Text)) :
    sortedFields fields = fields.map fun f => (f.1, f.2.sorted) := by
  induction fields with
  | nil => rfl
  | cons f fields ih =>
    obtain ⟨k, v⟩ := f
    rw [sortedFields, ih]
    rfl

theorem sortedFields_keys (fields : List (Text × Value Text)) :
    (sortedFields fields).map Prod.fst = fields.map Prod.fst := by
  rw [sortedFields_eq, List.map_map]
  rfl

theorem sortedFields_mem {fields : List (Text × Value Text)} {k : Text} {w : Value Text} :
    (k, w) ∈ sortedFields fields ↔ ∃ v, (k, v) ∈ fields ∧ v.sorted = w := by
  rw [sortedFields_eq, List.mem_map]
  constructor
  · rintro ⟨f, hf, heq⟩
    cases heq
    exact ⟨f.2, hf, rfl⟩
  · rintro ⟨v, hv, rfl⟩
    exact ⟨(k, v), hv, rfl⟩

/-- Items with distinct keys have one order. -/
theorem mergeSort_eq_iff {a b : List (Text × Value Text)} (ha : (a.map Prod.fst).Nodup) :
    a.mergeSort keyLe = b.mergeSort keyLe ↔ a.Perm b := by
  constructor
  · intro h
    exact (List.mergeSort_perm a keyLe).symm.trans (h ▸ List.mergeSort_perm b keyLe)
  · intro h
    have hperm : (a.mergeSort keyLe).Perm (b.mergeSort keyLe) :=
      (List.mergeSort_perm a keyLe).trans (h.trans (List.mergeSort_perm b keyLe).symm)
    refine hperm.eq_of_pairwise (fun x y hx hy hxy hyx => ?_)
      (List.pairwise_mergeSort keyLe_trans keyLe_total a)
      (List.pairwise_mergeSort keyLe_trans keyLe_total b)
    have hxa : x ∈ a := (List.mergeSort_perm a keyLe).subset hx
    have hya : y ∈ a := h.symm.subset ((List.mergeSort_perm b keyLe).subset hy)
    unfold keyLe at hxy hyx
    rw [decide_eq_true_iff] at hxy hyx
    exact List.inj_on_of_nodup_map ha hxa hya (le_antisymm hxy hyx)

mutual

/-- Values are the same exactly if they are equal once sorted. -/
theorem same_iff_sorted : ∀ {v w : Value Text}, v.unique = true → w.unique = true →
    (v.same w = true ↔ v.sorted = w.sorted)
  | .none, w, _, _ => by cases w <;> simp [same, sorted]
  | .bool b, w, _, _ => by cases w <;> simp [same, sorted]
  | .int n, w, _, _ => by cases w <;> simp [same, sorted]
  | .float x, w, _, _ => by cases w <;> simp [same, sorted]
  | .str s, w, _, _ => by cases w <;> simp [same, sorted]
  | .list vs, w, hv, hw => by
    cases w with
    | list ws =>
      rw [same, sorted, sorted, Value.list.injEq]
      exact sameItems_iff_sorted hv hw
    | _ => simp [same, sorted]
  | .dict a, w, hv, hw => by
    cases w with
    | dict b =>
      rw [unique, Bool.and_eq_true, decide_eq_true_iff] at hv hw
      have hfields := sameFields_iff_sorted hv.2 hw.1 hw.2
      have hakeys : ((sortedFields a).map Prod.fst).Nodup := by
        rw [sortedFields_keys]
        exact hv.1
      rw [same, sorted, sorted, Value.dict.injEq, mergeSort_eq_iff hakeys, Bool.and_eq_true,
        decide_eq_true_iff, hfields]
      have hla : (sortedFields a).length = a.length := by rw [sortedFields_eq, List.length_map]
      have hlb : (sortedFields b).length = b.length := by rw [sortedFields_eq, List.length_map]
      constructor
      · rintro ⟨hlength, hsub⟩
        exact (List.subperm_of_subset (List.Nodup.of_map _ hakeys) hsub).perm_of_length_le
          (by omega)
      · intro hperm
        exact ⟨by rw [← hla, ← hlb, hperm.length_eq], hperm.subset⟩
    | _ => simp [same, sorted]

theorem sameItems_iff_sorted : ∀ {vs ws : List (Value Text)}, uniqueItems vs = true →
    uniqueItems ws = true → (sameItems vs ws = true ↔ sortedItems vs = sortedItems ws)
  | [], ws, _, _ => by cases ws <;> simp [sameItems, sortedItems]
  | v :: vs, ws, hv, hw => by
    cases ws with
    | nil => simp [sameItems, sortedItems]
    | cons w ws =>
      rw [uniqueItems, Bool.and_eq_true] at hv hw
      rw [sameItems, sortedItems, sortedItems, Bool.and_eq_true, same_iff_sorted hv.1 hw.1,
        sameItems_iff_sorted hv.2 hw.2, List.cons.injEq]

theorem sameFields_iff_sorted : ∀ {a b : List (Text × Value Text)}, uniqueFields a = true →
    (b.map Prod.fst).Nodup → uniqueFields b = true →
    (sameFields a b = true ↔ sortedFields a ⊆ sortedFields b)
  | [], b, _, _, _ => by simp [sameFields, sortedFields]
  | (k, v) :: a, b, ha, hn, hb => by
    rw [uniqueFields, Bool.and_eq_true] at ha
    rw [sameFields, sortedFields, Bool.and_eq_true, sameFields_iff_sorted ha.2 hn hb,
      List.cons_subset]
    refine and_congr_left fun _ => ?_
    rw [sortedFields_mem]
    cases hw : Value.get k b with
    | none =>
      simp only [Bool.false_eq_true, false_iff, not_exists, not_and]
      intro w hm
      rw [(Value.get_eq_some_iff hn).mpr hm] at hw
      cases hw
    | some w =>
      simp only
      rw [same_iff_sorted ha.1 (Value.unique_of_get hb hw)]
      constructor
      · intro hs
        exact ⟨w, (Value.get_eq_some_iff hn).mp hw, hs.symm⟩
      · rintro ⟨w', hm, hs⟩
        rw [(Value.get_eq_some_iff hn).mpr hm] at hw
        cases hw
        exact hs.symm

end

/-! ## What is sorted stays so -/

theorem uniqueFields_iff {fields : List (Text × Value Text)} :
    uniqueFields fields = true ↔ ∀ f ∈ fields, f.2.unique = true := by
  induction fields with
  | nil => simp [uniqueFields]
  | cons f fields ih =>
    obtain ⟨k, v⟩ := f
    rw [uniqueFields, Bool.and_eq_true, ih, List.forall_mem_cons]

mutual

theorem sorted_unique : ∀ {v : Value Text}, v.unique = true → v.sorted.unique = true
  | .none, _ => rfl
  | .bool _, _ => rfl
  | .int _, _ => rfl
  | .float _, _ => rfl
  | .str _, _ => rfl
  | .list vs, h => by
    rw [sorted, unique]
    exact sortedItems_unique h
  | .dict fields, h => by
    rw [unique, Bool.and_eq_true, decide_eq_true_iff] at h
    have hperm := List.mergeSort_perm (sortedFields fields) keyLe
    have hfields := uniqueFields_iff.mp (sortedFields_unique h.2)
    rw [sorted, unique, Bool.and_eq_true, decide_eq_true_iff, (hperm.map Prod.fst).nodup_iff,
      sortedFields_keys]
    exact ⟨h.1, uniqueFields_iff.mpr fun f hf => hfields f (hperm.subset hf)⟩

theorem sortedItems_unique : ∀ {vs : List (Value Text)}, uniqueItems vs = true →
    uniqueItems (sortedItems vs) = true
  | [], _ => rfl
  | v :: vs, h => by
    rw [uniqueItems, Bool.and_eq_true] at h
    rw [sortedItems, uniqueItems, sorted_unique h.1, sortedItems_unique h.2]
    rfl

theorem sortedFields_unique : ∀ {fields : List (Text × Value Text)}, uniqueFields fields = true →
    uniqueFields (sortedFields fields) = true
  | [], _ => rfl
  | (k, v) :: fields, h => by
    rw [uniqueFields, Bool.and_eq_true] at h
    rw [sortedFields, uniqueFields, sorted_unique h.1, sortedFields_unique h.2]
    rfl

end

/-- Items whose values are sorted are left as they are. -/
theorem sortedFields_fixed {fields : List (Text × Value Text)}
    (h : ∀ f ∈ fields, f.2.sorted = f.2) : sortedFields fields = fields := by
  rw [sortedFields_eq]
  have hid : fields.map (fun f => (f.1, f.2.sorted)) = fields.map id :=
    List.map_congr_left fun f hf => Prod.ext rfl (h f hf)
  rw [hid, List.map_id]

mutual

theorem sorted_sorted : ∀ v : Value Text, v.sorted.sorted = v.sorted
  | .none => rfl
  | .bool _ => rfl
  | .int _ => rfl
  | .float _ => rfl
  | .str _ => rfl
  | .list vs => by
    rw [sorted, sorted, sortedItems_sorted vs]
  | .dict fields => by
    have hperm := List.mergeSort_perm (sortedFields fields) keyLe
    have hfixed : sortedFields ((sortedFields fields).mergeSort keyLe) =
        (sortedFields fields).mergeSort keyLe :=
      sortedFields_fixed fun f hf => sortedFields_sorted fields f (hperm.subset hf)
    rw [sorted, sorted, hfixed, List.mergeSort_of_pairwise
      (List.pairwise_mergeSort keyLe_trans keyLe_total _)]

theorem sortedItems_sorted : ∀ vs : List (Value Text),
    sortedItems (sortedItems vs) = sortedItems vs
  | [] => rfl
  | v :: vs => by
    rw [sortedItems, sortedItems, sorted_sorted v, sortedItems_sorted vs]

theorem sortedFields_sorted : ∀ fields : List (Text × Value Text),
    ∀ f ∈ sortedFields fields, f.2.sorted = f.2
  | [], f, hf => by cases hf
  | (k, v) :: fields, f, hf => by
    rw [sortedFields] at hf
    rcases List.mem_cons.mp hf with rfl | hf
    · exact sorted_sorted v
    · exact sortedFields_sorted fields f hf

end

/-! ## Values that come back -/

mutual

/-- A value that is read again as it is written: no string spells a surrogate pair, and
every float is the one that its decimal is rounded to. -/
def Value.Readable : Value Text → Prop
  | .float (.finite r) => floatOf r = Double.finite r
  | .str s => ¬ HasPair s
  | .list vs => ReadableItems vs
  | .dict fields => ReadableFields fields
  | _ => True

def Value.ReadableItems : List (Value Text) → Prop
  | [] => True
  | v :: vs => v.Readable ∧ ReadableItems vs

def Value.ReadableFields : List (Text × Value Text) → Prop
  | [] => True
  | (k, v) :: fields => ¬ HasPair k ∧ v.Readable ∧ ReadableFields fields

end

open Value (Readable ReadableItems ReadableFields)

theorem readableFields_iff {fields : List (Text × Value Text)} :
    ReadableFields fields ↔ ∀ f ∈ fields, ¬ HasPair f.1 ∧ f.2.Readable := by
  induction fields with
  | nil => simp [ReadableFields]
  | cons f fields ih =>
    obtain ⟨k, v⟩ := f
    rw [ReadableFields, ih, List.forall_mem_cons, and_assoc]

mutual

theorem sorted_readable : ∀ {v : Value Text}, v.Readable → v.sorted.Readable
  | .none, _ => trivial
  | .bool _, _ => trivial
  | .int _, _ => trivial
  | .float _, h => h
  | .str _, h => h
  | .list vs, h => by
    rw [sorted, Readable]
    exact sortedItems_readable h
  | .dict fields, h => by
    have hperm := List.mergeSort_perm (sortedFields fields) keyLe
    have hfields := readableFields_iff.mp (sortedFields_readable h)
    rw [sorted, Readable]
    exact readableFields_iff.mpr fun f hf => hfields f (hperm.subset hf)

theorem sortedItems_readable : ∀ {vs : List (Value Text)}, ReadableItems vs →
    ReadableItems (sortedItems vs)
  | [], _ => trivial
  | _ :: _, h => ⟨sorted_readable h.1, sortedItems_readable h.2⟩

theorem sortedFields_readable : ∀ {fields : List (Text × Value Text)}, ReadableFields fields →
    ReadableFields (sortedFields fields)
  | [], _ => trivial
  | (_, _) :: _, h => ⟨h.1, sorted_readable h.2.1, sortedFields_readable h.2.2⟩

end

mutual

/-- Joining leaves a readable document as it is. -/
theorem joinTree_document : ∀ {v : Value Text}, v.Readable → joinTree v.document = v.document
  | .none, _ => rfl
  | .bool _, _ => rfl
  | .int _, _ => rfl
  | .float (.finite _), _ => rfl
  | .float (.infinite _), _ => rfl
  | .float .nan, _ => rfl
  | .str s, h => by
    rw [document, joinTree, (Text.joined_eq_iff s).mpr h]
  | .list vs, h => by
    rw [document, joinTree, joinItems_document h]
  | .dict fields, h => by
    rw [document, joinTree, joinFields_document h]

theorem joinItems_document : ∀ {vs : List (Value Text)}, ReadableItems vs →
    joinItems (documentItems vs) = documentItems vs
  | [], _ => rfl
  | v :: vs, h => by
    rw [documentItems, joinItems, joinTree_document h.1, joinItems_document h.2]

theorem joinFields_document : ∀ {fields : List (Text × Value Text)}, ReadableFields fields →
    joinFields (documentFields fields) = documentFields fields
  | [], _ => rfl
  | (k, v) :: fields, h => by
    rw [documentFields, joinFields, (Text.joined_eq_iff k).mpr h.1, joinTree_document h.2.1,
      joinFields_document h.2.2]

end

mutual

/-- What is written of a readable value is decoded as the value. -/
theorem decode_document : ∀ {v : Value Text}, v.unique = true → v.Readable →
    (plainHooks floatOf).decode v.document = some v
  | .none, _, _ => rfl
  | .bool _, _, _ => rfl
  | .int _, _, _ => rfl
  | .float (.finite r), _, h => congrArg (fun x => some (Value.float x)) h
  | .float (.infinite true), _, _ => rfl
  | .float (.infinite false), _, _ => rfl
  | .float .nan, _, _ => rfl
  | .str _, _, _ => rfl
  | .list vs, hu, h => by
    rw [document, Hooks.decode, decodeItems_document hu h]
    rfl
  | .dict fields, hu, h => by
    rw [unique, Bool.and_eq_true, decide_eq_true_iff] at hu
    rw [document, Hooks.decode, decodeFields_document hu.2 h]
    exact congrArg (fun fields => some (Value.dict fields)) (dictOf_eq hu.1)

theorem decodeItems_document : ∀ {vs : List (Value Text)}, uniqueItems vs = true →
    ReadableItems vs → (plainHooks floatOf).decodeItems (documentItems vs) = some vs
  | [], _, _ => rfl
  | v :: vs, hu, h => by
    rw [uniqueItems, Bool.and_eq_true] at hu
    rw [documentItems, Hooks.decodeItems, decode_document hu.1 h.1, decodeItems_document hu.2 h.2]
    rfl

theorem decodeFields_document : ∀ {fields : List (Text × Value Text)}, uniqueFields fields = true →
    ReadableFields fields → (plainHooks floatOf).decodeFields (documentFields fields) = some fields
  | [], _, _ => rfl
  | (k, v) :: fields, hu, h => by
    rw [uniqueFields, Bool.and_eq_true] at hu
    rw [documentFields, Hooks.decodeFields, decode_document hu.1 h.2.1,
      decodeFields_document hu.2 h.2.2]
    rfl

end

/-- What is written of a readable value, in whatever style, is read as the value. -/
theorem loads_write {style : JsonText.Style} {v : Value Text} {text : Text}
    (hu : v.unique = true) (h : v.Readable) (hw : JsonText.write style v.document = some text) :
    loads text = some v := by
  unfold loads Hooks.loads
  rw [JsonText.scan_write hw, Option.bind_some, joinTree_document h]
  exact decode_document hu h

theorem loads_dumpsSorted {v : Value Text} {text : Text} (hu : v.unique = true) (h : v.Readable)
    (hd : v.dumpsSorted = some text) : loads text = some v.sorted :=
  loads_write (sorted_unique hu) (sorted_readable h) hd

/-! ## What is read is readable -/

theorem floatOf_finite {number r : Decimal} (h : Binary64.round number = some r) :
    floatOf number = Double.finite r := by
  unfold floatOf
  rw [h, Option.elim_some]

theorem floatOf_readable (number : Decimal) :
    (Value.float (S := Text) (floatOf number)).Readable := by
  cases hr : Binary64.round number with
  | none =>
    have hfloat : floatOf number = Double.infinite number.negative := by
      unfold floatOf
      rw [hr, Option.elim_none]
    rw [hfloat]
    trivial
  | some r =>
    rw [floatOf_finite hr]
    exact floatOf_finite (Binary64.round_round hr)

theorem setItem_readable {key : Text} {value : Value Text} {fields : List (Text × Value Text)}
    (hk : ¬ HasPair key) (hv : value.Readable) (h : ReadableFields fields) :
    ReadableFields (setItem key value fields) := by
  induction fields with
  | nil => exact ⟨hk, hv, trivial⟩
  | cons f fields ih =>
    obtain ⟨k, v⟩ := f
    rw [setItem]
    split
    · exact ⟨h.1, hv, h.2.2⟩
    · exact ⟨h.1, h.2.1, ih h.2.2⟩

theorem dictOf_readable {pairs : List (Text × Value Text)} (h : ReadableFields pairs) :
    ReadableFields (dictOf pairs) :=
  dictOf_keeps (p := ReadableFields) trivial fun pair hm _ hfields =>
    setItem_readable (readableFields_iff.mp h pair hm).1 (readableFields_iff.mp h pair hm).2 hfields

mutual

theorem decode_readable : ∀ {t : Tree} {v : Value Text}, t.PairFree →
    (plainHooks floatOf).decode t = some v → v.Readable
  | .null, v, _, h => by cases h; trivial
  | .bool b, v, _, h => by cases h; trivial
  | .int n, v, _, h => by cases h; trivial
  | .float number, v, _, h => by
    cases h
    exact floatOf_readable number
  | .constant name, v, _, h => by
    cases h
    cases name <;> trivial
  | .str s, v, ht, h => by
    cases h
    exact ht
  | .arr items, v, ht, h => by
    rw [Hooks.decode] at h
    obtain ⟨vs, hvs, rfl⟩ := Option.map_eq_some_iff.mp h
    exact decodeItems_readable ht hvs
  | .obj fields, v, ht, h => by
    rw [Hooks.decode] at h
    obtain ⟨vs, hvs, hv⟩ := Option.bind_eq_some_iff.mp h
    cases hv
    exact dictOf_readable (decodeFields_readable ht hvs)

theorem decodeItems_readable : ∀ {items : List Tree} {vs : List (Value Text)},
    Tree.PairFreeItems items → (plainHooks floatOf).decodeItems items = some vs → ReadableItems vs
  | [], vs, _, h => by cases h; trivial
  | item :: items, vs, ht, h => by
    obtain ⟨v, rest, hv, hrest, rfl⟩ := decodeItems_cons h
    exact ⟨decode_readable ht.1 hv, decodeItems_readable ht.2 hrest⟩

theorem decodeFields_readable : ∀ {fields : List (Text × Tree)} {vs : List (Text × Value Text)},
    Tree.PairFreeFields fields → (plainHooks floatOf).decodeFields fields = some vs →
      ReadableFields vs
  | [], vs, _, h => by cases h; trivial
  | (key, value) :: fields, vs, ht, h => by
    obtain ⟨v, rest, hv, hrest, rfl⟩ := decodeFields_cons h
    exact ⟨ht.1, decode_readable ht.2.1 hv, decodeFields_readable ht.2.2 hrest⟩

end

/-- What is read of a text without surrogates. -/
theorem loads_readable {text : Text} {v : Value Text} (ht : Text.Plain text)
    (h : loads text = some v) : v.unique = true ∧ v.Readable := by
  obtain ⟨t, hscan, hdecode⟩ := Option.bind_eq_some_iff.mp h
  exact ⟨decode_unique (plain_keysUnique floatOf) hdecode,
    decode_readable (JsonText.scan_pairFree ht hscan) hdecode⟩

/-- Two values are printed alike exactly if they are the same. -/
theorem dumpsSorted_eq_iff {v w : Value Text} {text : Text} (hv : v.unique = true)
    (hw : w.unique = true) (hrv : v.Readable) (hrw : w.Readable)
    (hd : v.dumpsSorted = some text) : w.dumpsSorted = some text ↔ v.same w = true := by
  rw [same_iff_sorted hv hw]
  constructor
  · intro h
    have hread := loads_dumpsSorted hv hrv hd
    rw [loads_dumpsSorted hw hrw h] at hread
    exact (Option.some.inj hread).symm
  · intro h
    rw [Value.dumpsSorted, ← h]
    exact hd

/-- What is printed of a value that was printed is the same text. -/
theorem dumpsSorted_sorted (v : Value Text) : v.sorted.dumpsSorted = v.dumpsSorted := by
  rw [Value.dumpsSorted, Value.dumpsSorted, sorted_sorted]

theorem dumpsSorted_ascii {v : Value Text} {text : Text} (h : v.dumpsSorted = some text) :
    JsonText.Ascii text := JsonText.write_ascii h

end FlynnAgents
