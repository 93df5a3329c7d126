-- The values that json.loads makes of a text, what its hooks make of them, and what
-- json.dumps writes (results.py, program_worker.py).
import FlynnAgents.Builtins
import FlynnAgents.Lib.JsonWrite

namespace FlynnAgents

open JsonText (Decimal Constant Tree)

/-! ## Values -/

/-- A float of Python. How a finite number is rounded is left out. -/
inductive Double where
  | finite (number : Decimal)
  | infinite (negative : Bool)
  | nan
  deriving DecidableEq, Repr

/-- A value that a JSON text decodes to, with strings of type `S`. -/
inductive Value (S : Type) where
  | none
  | bool (b : Bool)
  | int (n : Int)
  | float (x : Double)
  | str (s : S)
  | list (items : List (Value S))
  | dict (fields : List (S × Value S))

namespace Value

variable {S β : Type} [DecidableEq S]

/-- `d.get(key)` -/
def get (key : S) : List (S × β) → Option β
  | [] => .none
  | (k, v) :: fields => if k = key then some v else get key fields

/-- `set(names) == set(keys)` -/
def sameNames (names keys : List S) : Bool :=
  names.all (fun n => decide (n ∈ keys)) && keys.all fun k => decide (k ∈ names)

/-- `set(d) == names` -/
def keysAre (names : List S) (fields : List (S × β)) : Bool :=
  sameNames names (fields.map Prod.fst)

theorem get_here (key : S) (v : β) (fields : List (S × β)) :
    get key ((key, v) :: fields) = some v := if_pos rfl

theorem get_there {key k : S} (h : k ≠ key) (v : β) (fields : List (S × β)) :
    get key ((k, v) :: fields) = get key fields := if_neg h

end Value

/-! ## Floats -/

/-- What `float` takes for infinite: from half a step above the greatest double. -/
def overflowBound : Nat := 2 ^ 1024 - 2 ^ 970

/-- The number is beyond the range of a double. -/
def overflows (number : Decimal) : Bool :=
  if 0 ≤ number.exponent then
    decide (overflowBound ≤ number.digits * 10 ^ number.exponent.toNat)
  else decide (overflowBound * 10 ^ (-number.exponent).toNat ≤ number.digits)

/-- `float(literal)` -/
def toFloat (number : Decimal) : Double :=
  if overflows number then .infinite number.negative else .finite number

/-- The floats that Python's own `parse_constant` gives. -/
def ofConstant : Constant → Double
  | .nan => .nan
  | .infinity => .infinite false
  | .minusInfinity => .infinite true

/-! ## Decoding -/

/-- The hooks of `json.loads`. A hook that gives nothing raises. -/
structure Hooks where
  parseFloat : Decimal → Option Double
  parseConstant : Constant → Option Double
  objectPairs : List (Text × Value Text) → Option (Value Text)

mutual

/-- The value of a document, each hook called where it is documented to be. -/
def Hooks.decode (hooks : Hooks) : Tree → Option (Value Text)
  | .null => some .none
  | .bool b => some (.bool b)
  | .int n => some (.int n)
  | .float number => (hooks.parseFloat number).map .float
  | .constant name => (hooks.parseConstant name).map .float
  | .str s => some (.str s)
  | .arr items => (hooks.decodeItems items).map .list
  | .obj fields => (hooks.decodeFields fields).bind hooks.objectPairs

def Hooks.decodeItems (hooks : Hooks) : List Tree → Option (List (Value Text))
  | [] => some []
  | item :: items => do
    let v ← hooks.decode item
    let vs ← hooks.decodeItems items
    return v :: vs

def Hooks.decodeFields (hooks : Hooks) : List (Text × Tree) → Option (List (Text × Value Text))
  | [] => some []
  | (key, value) :: fields => do
    let v ← hooks.decode value
    let vs ← hooks.decodeFields fields
    return (key, v) :: vs

end

/-- `json.loads` -/
def Hooks.loads (hooks : Hooks) (text : Text) : Option (Value Text) :=
  (JsonText.scan text).bind hooks.decode

/-- `_strict_object`: a repeated key raises. -/
def uniqueObject (pairs : List (Text × Value Text)) : Option (Value Text) :=
  if (pairs.map Prod.fst).Nodup then some (.dict pairs) else none

/-- `_nonfinite` -/
def rejectConstant (_ : Constant) : Option Double := none

/-- The hooks of the program worker, which has none for floats. -/
def workerHooks : Hooks := ⟨fun number => some (toFloat number), rejectConstant, uniqueObject⟩

/-! ## Writing -/

/-- `json.dumps` with compact separators, of a document that names no NaN and no infinity. -/
def dumps (t : Tree) : Except Exn Text :=
  match JsonText.write JsonText.compact t with
  | some text => .ok text
  | none => .error tooManyDigits

theorem dumps_ok {t : Tree} {text : Text} : dumps t = .ok text ↔
    JsonText.writable t = true ∧ JsonText.render JsonText.compact t = text := by
  rw [← JsonText.write_eq_some]
  unfold dumps
  cases JsonText.write JsonText.compact t <;> simp

theorem shortInt_eq (n : Int) : JsonText.shortInt n = !tooLong n := by
  unfold JsonText.shortInt tooLong
  rw [← decide_not]
  exact decide_eq_decide.mpr Nat.not_lt.symm

/-! ## What the strict hooks ask of a document -/

mutual

/-- Every node of the document meets `p`. -/
def everyNode (p : Tree → Bool) : Tree → Bool
  | .arr items => p (.arr items) && everyItem p items
  | .obj fields => p (.obj fields) && everyField p fields
  | t => p t

def everyItem (p : Tree → Bool) : List Tree → Bool
  | [] => true
  | item :: items => everyNode p item && everyItem p items

def everyField (p : Tree → Bool) : List (Text × Tree) → Bool
  | [] => true
  | (_, value) :: fields => everyNode p value && everyField p fields

end

/-- A node that names no NaN or infinity and repeats no key. -/
def plainNode : Tree → Bool
  | .constant _ => false
  | .obj fields => decide (fields.map Prod.fst).Nodup
  | _ => true

/-- A node that is no float beyond the range of a double. -/
def inRangeNode : Tree → Bool
  | .float number => !overflows number
  | _ => true

mutual

/-- No infinity and no NaN, at any depth. -/
def Value.allFinite {S : Type} : Value S → Bool
  | .float (.finite _) => true
  | .float _ => false
  | .list items => Value.allFiniteItems items
  | .dict fields => Value.allFiniteFields fields
  | _ => true

def Value.allFiniteItems {S : Type} : List (Value S) → Bool
  | [] => true
  | v :: vs => v.allFinite && Value.allFiniteItems vs

def Value.allFiniteFields {S : Type} : List (S × Value S) → Bool
  | [] => true
  | (_, v) :: fields => v.allFinite && Value.allFiniteFields fields

end

variable {hooks : Hooks}

theorem decodeItems_cons {item : Tree} {items : List Tree} {vs : List (Value Text)}
    (h : hooks.decodeItems (item :: items) = some vs) : ∃ v rest,
      hooks.decode item = some v ∧ hooks.decodeItems items = some rest ∧ vs = v :: rest := by
  unfold Hooks.decodeItems at h
  cases hv : hooks.decode item with
  | none =>
    rw [hv] at h
    cases h
  | some v =>
    cases hrest : hooks.decodeItems items with
    | none =>
      rw [hv, hrest] at h
      cases h
    | some rest =>
      rw [hv, hrest] at h
      cases h
      exact ⟨v, rest, rfl, rfl, rfl⟩

theorem decodeFields_cons {key : Text} {value : Tree} {fields : List (Text × Tree)}
    {vs : List (Text × Value Text)} (h : hooks.decodeFields ((key, value) :: fields) = some vs) :
    ∃ v rest, hooks.decode value = some v ∧ hooks.decodeFields fields = some rest ∧
      vs = (key, v) :: rest := by
  unfold Hooks.decodeFields at h
  cases hv : hooks.decode value with
  | none =>
    rw [hv] at h
    cases h
  | some v =>
    cases hrest : hooks.decodeFields fields with
    | none =>
      rw [hv, hrest] at h
      cases h
    | some rest =>
      rw [hv, hrest] at h
      cases h
      exact ⟨v, rest, rfl, rfl, rfl⟩

/-- Decoding keeps the keys, and what stands under each. -/
theorem decodeFields_keys {fields : List (Text × Tree)} {vs : List (Text × Value Text)}
    (h : hooks.decodeFields fields = some vs) : vs.map Prod.fst = fields.map Prod.fst ∧
      ∀ key, Value.get key vs = (Value.get key fields).bind hooks.decode := by
  induction fields generalizing vs with
  | nil =>
    cases h
    exact ⟨rfl, fun key => rfl⟩
  | cons f fields ih =>
    obtain ⟨k, value⟩ := f
    obtain ⟨v, rest, hv, hrest, rfl⟩ := decodeFields_cons h
    obtain ⟨hkeys, hget⟩ := ih hrest
    refine ⟨by simp only [List.map_cons, hkeys], ?_⟩
    intro key
    by_cases hk : k = key
    · subst hk
      rw [Value.get_here, Value.get_here]
      exact hv.symm
    · rw [Value.get_there hk, Value.get_there hk]
      exact hget key

theorem uniqueObject_eq_some {pairs : List (Text × Value Text)} {v : Value Text}
    (h : uniqueObject pairs = some v) : (pairs.map Prod.fst).Nodup ∧ v = .dict pairs := by
  unfold uniqueObject at h
  split at h
  · cases h
    exact ⟨‹_›, rfl⟩
  · cases h

theorem toFloat_finite (number : Decimal) :
    (Value.float (S := Text) (toFloat number)).allFinite = !overflows number := by
  unfold toFloat
  cases overflows number <;> rfl

/-- A node at which no hook raises. -/
def acceptedNode (hooks : Hooks) : Tree → Bool
  | .float number => (hooks.parseFloat number).isSome
  | .constant name => (hooks.parseConstant name).isSome
  | .obj fields => decide (fields.map Prod.fst).Nodup
  | _ => true

mutual

/-- A document is decoded exactly if no hook raises at any node. -/
theorem decode_isSome (hunique : hooks.objectPairs = uniqueObject) : ∀ t : Tree,
    (hooks.decode t).isSome = everyNode (acceptedNode hooks) t
  | .null => rfl
  | .bool b => rfl
  | .int n => rfl
  | .str s => rfl
  | .float number => by simp [Hooks.decode, everyNode, acceptedNode]
  | .constant name => by simp [Hooks.decode, everyNode, acceptedNode]
  | .arr items => by
    have h := decodeItems_isSome hunique items
    rw [Hooks.decode, everyNode, ← h]
    simp [acceptedNode]
  | .obj fields => by
    have h := decodeFields_isSome hunique fields
    rw [Hooks.decode, everyNode, ← h, hunique]
    cases hf : hooks.decodeFields fields with
    | none => simp
    | some vs =>
      obtain ⟨hkeys, -⟩ := decodeFields_keys hf
      simp only [Option.bind_some, uniqueObject, acceptedNode, hkeys, Option.isSome_some,
        Bool.and_true]
      by_cases hnodup : (fields.map Prod.fst).Nodup
      · rw [if_pos hnodup, decide_eq_true hnodup]
        rfl
      · rw [if_neg hnodup, decide_eq_false hnodup]
        rfl

theorem decodeItems_isSome (hunique : hooks.objectPairs = uniqueObject) : ∀ items : List Tree,
    (hooks.decodeItems items).isSome = everyItem (acceptedNode hooks) items
  | [] => rfl
  | item :: items => by
    have hitem := decode_isSome hunique item
    have hitems := decodeItems_isSome hunique items
    rw [everyItem, ← hitem, ← hitems, Hooks.decodeItems]
    cases hooks.decode item <;> cases hooks.decodeItems items <;> rfl

theorem decodeFields_isSome (hunique : hooks.objectPairs = uniqueObject) :
    ∀ fields : List (Text × Tree),
      (hooks.decodeFields fields).isSome = everyField (acceptedNode hooks) fields
  | [] => rfl
  | (key, value) :: fields => by
    have hvalue := decode_isSome hunique value
    have hfields := decodeFields_isSome hunique fields
    rw [everyField, ← hvalue, ← hfields, Hooks.decodeFields]
    cases hooks.decode value <;> cases hooks.decodeFields fields <;> rfl

end

mutual

/-- What the worker decodes is finite exactly if every float of the text is in range. -/
theorem worker_finite : ∀ {t : Tree} {v : Value Text}, workerHooks.decode t = some v →
    v.allFinite = everyNode inRangeNode t
  | .null, v, h => by cases h; rfl
  | .bool b, v, h => by cases h; rfl
  | .int n, v, h => by cases h; rfl
  | .str s, v, h => by cases h; rfl
  | .float number, v, h => by
    cases h
    exact toFloat_finite number
  | .constant name, v, h => by cases h
  | .arr items, v, h => by
    rw [Hooks.decode] at h
    obtain ⟨vs, hvs, rfl⟩ := Option.map_eq_some_iff.mp h
    have hitems := worker_finite_items hvs
    rw [everyNode, ← hitems]
    rfl
  | .obj fields, v, h => by
    rw [Hooks.decode] at h
    obtain ⟨vs, hvs, hv⟩ := Option.bind_eq_some_iff.mp h
    obtain ⟨-, rfl⟩ := uniqueObject_eq_some hv
    have hfields := worker_finite_fields hvs
    rw [everyNode, ← hfields]
    rfl

theorem worker_finite_items : ∀ {items : List Tree} {vs : List (Value Text)},
    workerHooks.decodeItems items = some vs →
    Value.allFiniteItems vs = everyItem inRangeNode items
  | [], vs, h => by cases h; rfl
  | item :: items, vs, h => by
    obtain ⟨v, rest, hv, hrest, rfl⟩ := decodeItems_cons h
    rw [Value.allFiniteItems, everyItem, worker_finite hv, worker_finite_items hrest]

theorem worker_finite_fields : ∀ {fields : List (Text × Tree)} {vs : List (Text × Value Text)},
    workerHooks.decodeFields fields = some vs →
    Value.allFiniteFields vs = everyField inRangeNode fields
  | [], vs, h => by cases h; rfl
  | (key, value) :: fields, vs, h => by
    obtain ⟨v, rest, hv, hrest, rfl⟩ := decodeFields_cons h
    rw [Value.allFiniteFields, everyField, worker_finite hv, worker_finite_fields hrest]

end

theorem and_swap (a b c d : Bool) : (a && b && (c && d)) = (a && c && (b && d)) := by
  cases a <;> cases b <;> cases c <;> rfl

mutual

theorem everyNode_and (p q : Tree → Bool) : ∀ t : Tree,
    everyNode (fun n => p n && q n) t = (everyNode p t && everyNode q t)
  | .null => rfl
  | .bool b => rfl
  | .int n => rfl
  | .str s => rfl
  | .float number => rfl
  | .constant name => rfl
  | .arr items => by
    rw [everyNode, everyNode, everyNode, everyItem_and p q items, and_swap]
  | .obj fields => by
    rw [everyNode, everyNode, everyNode, everyField_and p q fields, and_swap]

theorem everyItem_and (p q : Tree → Bool) : ∀ items : List Tree,
    everyItem (fun n => p n && q n) items = (everyItem p items && everyItem q items)
  | [] => rfl
  | item :: items => by
    rw [everyItem, everyItem, everyItem, everyNode_and p q item, everyItem_and p q items,
      and_swap]

theorem everyField_and (p q : Tree → Bool) : ∀ fields : List (Text × Tree),
    everyField (fun n => p n && q n) fields = (everyField p fields && everyField q fields)
  | [] => rfl
  | (key, value) :: fields => by
    rw [everyField, everyField, everyField, everyNode_and p q value, everyField_and p q fields,
      and_swap]

end

end FlynnAgents
