-- Codecs of records that are kept as JSON text: what `_json(asdict(x))` writes
-- (sqlite_run.py), and what a constructor makes of `json.loads` of it again.
import FlynnAgents.Fingerprint

namespace FlynnAgents

open Text (ofString)

/-! ## Strings -/

/-- The character of a code point that is no surrogate. -/
def charOf (c : CodePoint) : Option Char :=
  if h : c.val.isValidChar then some (Char.ofNatAux c.val h) else none

/-- The string of a text without surrogates. -/
def stringOf (t : Text) : Option String := (t.mapM charOf).map String.ofList

theorem charOf_ofChar (c : Char) : charOf (Text.ofChar c) = some c := by
  have hval := Text.ofChar_val c
  have hvalid : (Text.ofChar c).val.isValidChar := by
    rw [hval]
    exact c.valid
  unfold charOf
  rw [dif_pos hvalid, Option.some.injEq]
  apply Char.ext
  apply UInt32.toNat_inj.mp
  rw [← Char.toNat, ← Char.toNat, ← hval]
  rfl

theorem stringOf_ofString (s : String) : stringOf (ofString s) = some s := by
  have hchars : ∀ l : List Char, (l.map Text.ofChar).mapM charOf = some l := by
    intro l
    induction l with
    | nil => rfl
    | cons c l ih =>
      rw [List.map_cons, List.mapM_cons, charOf_ofChar, ih]
      rfl
  unfold stringOf ofString
  rw [hchars, Option.map_some, String.ofList_toList]

/-! ## Dicts with their keys in order -/

open Value (sorted sortedItems sortedFields Readable ReadableItems unique uniqueItems)

/-- Sorting keeps what stands under each key. -/
theorem get_sorted {fields : List (Text × Value Text)} (h : (fields.map Prod.fst).Nodup)
    (k : Text) : Value.get k ((sortedFields fields).mergeSort keyLe) =
      (Value.get k fields).map sorted := by
  have hperm := List.mergeSort_perm (sortedFields fields) keyLe
  have hnodup : (((sortedFields fields).mergeSort keyLe).map Prod.fst).Nodup := by
    refine (hperm.map Prod.fst).nodup_iff.mpr ?_
    rwa [sortedFields_keys]
  ext w
  rw [Value.get_eq_some_iff hnodup, hperm.mem_iff, sortedFields_mem, Option.map_eq_some_iff]
  simp only [Value.get_eq_some_iff h]

/-- What stands under a key of a dict of the source. -/
theorem get_ofString (name : String) (fields : List (String × Value Text)) :
    Value.get (ofString name) (fields.map fun f => (ofString f.1, f.2)) =
      Value.get name fields := by
  induction fields with
  | nil => rfl
  | cons f fields ih =>
    obtain ⟨k, v⟩ := f
    rw [List.map_cons]
    by_cases hk : k = name
    · subst hk
      rw [Value.get_here, Value.get_here]
    · rw [Value.get_there hk, Value.get_there (fun h => hk (ofString_inj.mp h)), ih]

theorem dictValue_keys (fields : List (String × Value Text)) :
    (fields.map fun f => (ofString f.1, f.2)).map Prod.fst =
      (fields.map Prod.fst).map ofString := by
  rw [List.map_map, List.map_map]
  rfl

theorem ofString_nodup {names : List String} (h : names.Nodup) : (names.map ofString).Nodup :=
  h.map fun _ _ heq => ofString_inj.mp heq

/-- No key of the dict is another than these. -/
def Value.knownKeys {S β : Type} [DecidableEq S] (names : List S) (fields : List (S × β)) : Bool :=
  (fields.map Prod.fst).all fun k => decide (k ∈ names)

/-- The keys of a sorted dict are the keys. -/
theorem knownKeys_sorted {names : List String} {fields : List (String × Value Text)}
    (h : fields.map Prod.fst = names) : Value.knownKeys (names.map ofString)
      ((sortedFields (fields.map fun f => (ofString f.1, f.2))).mergeSort keyLe) = true := by
  unfold Value.knownKeys
  rw [List.all_eq_true]
  intro k hk
  have hperm := List.mergeSort_perm
    (sortedFields (fields.map fun f => (ofString f.1, f.2))) keyLe
  rw [(hperm.map Prod.fst).mem_iff, sortedFields_keys, dictValue_keys, h] at hk
  simpa using hk

/-- Where the items of a dict of the source go. -/
theorem sorted_dictValue {fields ordered : List (String × Value Text)}
    (hnodup : (fields.map Prod.fst).Nodup)
    (hperm : (fields.map fun f => (f.1, f.2.sorted)).Perm ordered)
    (hordered : ((ordered.map Prod.fst).map ofString).Pairwise fun k k' => decide (k ≤ k') = true) :
    (dictValue fields).sorted = dictValue ordered := by
  have hsorted : sortedFields (fields.map fun f => (ofString f.1, f.2)) =
      (fields.map fun f => (f.1, f.2.sorted)).map fun f => (ofString f.1, f.2) := by
    rw [sortedFields_eq, List.map_map, List.map_map]
    rfl
  have hkeys : (((fields.map fun f => (f.1, f.2.sorted)).map
      fun f => (ofString f.1, f.2)).map Prod.fst).Nodup := by
    have hnames : (fields.map fun f => (f.1, f.2.sorted)).map Prod.fst = fields.map Prod.fst :=
      List.map_map
    rw [dictValue_keys, hnames]
    exact ofString_nodup hnodup
  unfold dictValue
  rw [Value.sorted, hsorted, (mergeSort_eq_iff hkeys).mpr (hperm.map _)]
  rw [← dictValue_keys] at hordered
  exact congrArg Value.dict (List.mergeSort_of_pairwise (List.pairwise_map.mp hordered))

/-! ## Values that can be written -/

mutual

/-- Every integer is short enough to be converted, and no float is infinite or NaN. -/
def Value.Short : Value Text → Prop
  | .int n => tooLong n = false
  | .float (.finite _) => True
  | .float _ => False
  | .list vs => ShortItems vs
  | .dict fields => ShortFields fields
  | _ => True

def Value.ShortItems : List (Value Text) → Prop
  | [] => True
  | v :: vs => v.Short ∧ ShortItems vs

def Value.ShortFields : List (Text × Value Text) → Prop
  | [] => True
  | (_, v) :: fields => v.Short ∧ ShortFields fields

end

open Value (Short ShortItems ShortFields)

theorem shortItems_iff {vs : List (Value Text)} : ShortItems vs ↔ ∀ v ∈ vs, v.Short := by
  induction vs with
  | nil => simp [ShortItems]
  | cons v vs ih => rw [ShortItems, ih, List.forall_mem_cons]

theorem shortFields_iff {fields : List (Text × Value Text)} :
    ShortFields fields ↔ ∀ f ∈ fields, f.2.Short := by
  induction fields with
  | nil => simp [ShortFields]
  | cons f fields ih => rw [ShortFields, ih, List.forall_mem_cons]

mutual

theorem sorted_short : ∀ {v : Value Text}, v.Short → v.sorted.Short
  | .none, h | .bool _, h | .int _, h | .float _, h | .str _, h => h
  | .list _, h => sortedItems_short h
  | .dict fields, h => by
    rw [sorted, Short, shortFields_iff]
    intro f hf
    have hmem := (List.mergeSort_perm (sortedFields fields) keyLe).subset hf
    exact shortFields_iff.mp (sortedFields_short h) f hmem

theorem sortedItems_short : ∀ {vs : List (Value Text)}, ShortItems vs →
    ShortItems (sortedItems vs)
  | [], _ => trivial
  | _ :: _, h => ⟨sorted_short h.1, sortedItems_short h.2⟩

theorem sortedFields_short : ∀ {fields : List (Text × Value Text)}, ShortFields fields →
    ShortFields (sortedFields fields)
  | [], _ => trivial
  | (_, _) :: _, h => ⟨sorted_short h.1, sortedFields_short h.2⟩

end

open Value (document documentItems documentFields)

mutual

theorem writable_short : ∀ {v : Value Text}, v.Short → JsonText.writable v.document = true
  | .none, _ | .bool _, _ | .str _, _ | .float (.finite _), _ => rfl
  | .int n, h => by
    unfold Short at h
    rw [document, JsonText.writable, shortInt_eq, h]
    rfl
  | .list _, h => writableItems_short h
  | .dict _, h => writableFields_short h

theorem writableItems_short : ∀ {vs : List (Value Text)}, ShortItems vs →
    JsonText.writableItems (documentItems vs) = true
  | [], _ => rfl
  | _ :: _, h => Bool.and_eq_true_iff.mpr ⟨writable_short h.1, writableItems_short h.2⟩

theorem writableFields_short : ∀ {fields : List (Text × Value Text)}, ShortFields fields →
    JsonText.writableFields (documentFields fields) = true
  | [], _ => rfl
  | (_, _) :: _, h => Bool.and_eq_true_iff.mpr ⟨writable_short h.1, writableFields_short h.2⟩

end

theorem dictValue_short {fields : List (String × Value Text)} (h : ∀ f ∈ fields, f.2.Short) :
    (dictValue fields).Short := by
  rw [dictValue, Short, shortFields_iff]
  intro f hf
  obtain ⟨g, hg, rfl⟩ := List.mem_map.mp hf
  exact h g hg

/-! ## Codecs -/

/-- A way to keep the values of a type as JSON. What is written of a value is read
again as the value, with its keys in whatever order they come back. -/
structure Codec (α : Type) where
  encode : α → Value Text
  decode : Value Text → Option α
  unique : ∀ a, (encode a).unique = true
  readable : ∀ a, (encode a).Readable
  decoded : ∀ a, decode (encode a).sorted = some a

attribute [simp] Codec.unique Codec.readable Codec.decoded

namespace Codec

variable {α β : Type}

/-- `_json(asdict(a))`, or nothing where it raises. -/
def text (c : Codec α) (a : α) : Option Text := (c.encode a).dumpsSorted

/-- The record of a text, or nothing where `json.loads` or the constructor raises. -/
def read (c : Codec α) (text : Text) : Option α := (loads text).bind c.decode

theorem loads_text {c : Codec α} {a : α} {text : Text} (h : c.text a = some text) :
    loads text = some (c.encode a).sorted :=
  loads_dumpsSorted (c.unique a) (c.readable a) h

/-- What is written is read again. -/
theorem read_text {c : Codec α} {a : α} {text : Text} (h : c.text a = some text) :
    c.read text = some a := by
  unfold read
  rw [loads_text h, Option.bind_some, c.decoded]

/-- A value whose integers are short has a text. -/
theorem text_of_short {c : Codec α} {a : α} (h : (c.encode a).Short) :
    ∃ text, c.text a = some text :=
  ⟨_, JsonText.write_eq_some.mpr ⟨writable_short (sorted_short h), rfl⟩⟩

/-- A text is written of one value. -/
theorem text_inj {c : Codec α} {a b : α} {text : Text} (ha : c.text a = some text)
    (hb : c.text b = some text) : a = b := by
  have h := read_text ha
  rw [read_text hb] at h
  exact (Option.some.inj h).symm

/-! ## Scalars -/

def str : Codec String where
  encode := strValue
  decode v := v.asStr.bind stringOf
  unique _ := rfl
  readable s := Text.ofString_no_pair s
  decoded s := stringOf_ofString s

def int : Codec Int where
  encode n := .int n
  decode
    | .int n => some n
    | _ => none
  unique _ := rfl
  readable _ := trivial
  decoded _ := rfl

def bool : Codec Bool where
  encode b := .bool b
  decode
    | .bool b => some b
    | _ => none
  unique _ := rfl
  readable _ := trivial
  decoded _ := rfl

/-- The codec of a type whose values are written as others. -/
def wrap (c : Codec α) (f : β → α) (g : α → Option β) (h : ∀ b, g (f b) = some b) : Codec β where
  encode b := c.encode (f b)
  decode v := (c.decode v).bind g
  unique b := c.unique (f b)
  readable b := c.readable (f b)
  decoded b := by rw [c.decoded, Option.bind_some, h]

/-- A value or `None`, of a type that is never written as `None`. -/
def option (c : Codec α) (h : ∀ a, (c.encode a).sorted ≠ .none) : Codec (Option α) where
  encode
    | none => .none
    | some a => c.encode a
  decode
    | .none => some none
    | v => (c.decode v).map some
  unique
    | none => rfl
    | some a => c.unique a
  readable
    | none => trivial
    | some a => c.readable a
  decoded
    | none => rfl
    | some a => by
      have hdecoded := c.decoded a
      split
      · exact absurd ‹_› (h a)
      · rw [hdecoded, Option.map_some]

theorem decoded_items (c : Codec α) (l : List α) :
    (sortedItems (l.map c.encode)).mapM c.decode = some l := by
  induction l with
  | nil => rfl
  | cons a l ih =>
    rw [List.map_cons, sortedItems, List.mapM_cons, c.decoded, ih]
    rfl

/-- A tuple. -/
def list (c : Codec α) : Codec (List α) where
  encode l := .list (l.map c.encode)
  decode v := v.asList.bind fun vs => vs.mapM c.decode
  unique l := by
    rw [Value.unique]
    induction l with
    | nil => rfl
    | cons a l ih => rw [List.map_cons, Value.uniqueItems, c.unique, ih, Bool.and_true]
  readable l := by
    rw [Value.Readable]
    induction l with
    | nil => trivial
    | cons a l ih => exact ⟨c.readable a, ih⟩
  decoded l := decoded_items c l

/-! ## Records -/

/-- What a call `cls(**d)` is given for a parameter without a default. -/
def required (items : String → Option (Value Text)) (name : String) (c : Codec α) : Option α :=
  (items name).bind c.decode

/-- What it is given for a parameter with a default. -/
def defaulted (items : String → Option (Value Text)) (name : String) (c : Codec α) (default : α) :
    Option α :=
  match items name with
  | none => some default
  | some v => c.decode v

/-- The codec of a record: its fields under their names, and `cls(**d)`, which refuses a
key that is no parameter. -/
def record (names : List String) (hnames : names.Nodup) (fields : α → List (String × Value Text))
    (hfields : ∀ a, (fields a).map Prod.fst = names)
    (hlawful : ∀ a, ∀ f ∈ fields a, f.2.unique = true ∧ f.2.Readable)
    (build : (String → Option (Value Text)) → Option α)
    (hbuild : ∀ a, build (fun name => (Value.get name (fields a)).map sorted) = some a) :
    Codec α where
  encode a := dictValue (fields a)
  decode
    | .dict items =>
      if Value.knownKeys (names.map ofString) items then
        build fun name => Value.get (ofString name) items
      else none
    | _ => none
  unique a := by
    have hkeys : (((fields a).map fun f => (ofString f.1, f.2)).map Prod.fst).Nodup := by
      rw [dictValue_keys, hfields]
      exact ofString_nodup hnames
    rw [dictValue, Value.unique, decide_eq_true hkeys, Bool.true_and, uniqueFields_iff]
    intro f hf
    obtain ⟨g, hg, rfl⟩ := List.mem_map.mp hf
    exact (hlawful a g hg).1
  readable a := by
    rw [dictValue, Value.Readable, readableFields_iff]
    intro f hf
    obtain ⟨g, hg, rfl⟩ := List.mem_map.mp hf
    exact ⟨Text.ofString_no_pair _, (hlawful a g hg).2⟩
  decoded a := by
    have hkeys : (((fields a).map fun f => (ofString f.1, f.2)).map Prod.fst).Nodup := by
      rw [dictValue_keys, hfields]
      exact ofString_nodup hnames
    rw [dictValue, Value.sorted]
    simp only [knownKeys_sorted (hfields a), if_true, get_sorted hkeys, get_ofString]
    exact hbuild a

end Codec

end FlynnAgents
