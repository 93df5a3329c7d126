-- parse_json with its exceptions (results.py): the three hooks as the source
-- has them, and plain json.loads to compare with.
import FlynnAgents.SameValues

namespace FlynnAgents

open JsonText (Decimal Constant Tree)
open Value (unique uniqueFields uniqueItems)

/-! ## Plain `json.loads` -/

/-- `d[key] = value` -/
def setItem (key : Text) (value : Value Text) : List (Text × Value Text) → List (Text × Value Text)
  | [] => [(key, value)]
  | (k, v) :: fields =>
    if k = key then (k, value) :: fields else (k, v) :: setItem key value fields

/-- `dict(pairs)`: of the values of a key, the last one. -/
def dictOf (pairs : List (Text × Value Text)) : List (Text × Value Text) :=
  pairs.foldl (fun fields pair => setItem pair.1 pair.2 fields) []

/-- `json.loads` without hooks, with this `float`. -/
def plainHooks (float : Decimal → Double) : Hooks where
  parseFloat number := some (float number)
  parseConstant name := some (ofConstant name)
  objectPairs pairs := some (.dict (dictOf pairs))

/-! ## Hooks that raise -/

/-- The hooks of `json.loads` with what they raise. -/
structure RaisingHooks where
  parseFloat : Decimal → Except Exn Double
  parseConstant : Constant → Except Exn Double
  objectPairs : List (Text × Value Text) → Except Exn (Value Text)

mutual

/-- The value of a document, or what the first hook raises that raises. -/
def RaisingHooks.decode (hooks : RaisingHooks) : Tree → Except Exn (Value Text)
  | .null => .ok .none
  | .bool b => .ok (.bool b)
  | .int n => .ok (.int n)
  | .float number => (hooks.parseFloat number).map .float
  | .constant name => (hooks.parseConstant name).map .float
  | .str s => .ok (.str s)
  | .arr items => (hooks.decodeItems items).map .list
  | .obj fields => (hooks.decodeFields fields).bind hooks.objectPairs

def RaisingHooks.decodeItems (hooks : RaisingHooks) : List Tree → Except Exn (List (Value Text))
  | [] => .ok []
  | item :: items => do
    let v ← hooks.decode item
    let vs ← hooks.decodeItems items
    return v :: vs

def RaisingHooks.decodeFields (hooks : RaisingHooks) :
    List (Text × Tree) → Except Exn (List (Text × Value Text))
  | [] => .ok []
  | (key, value) :: fields => do
    let v ← hooks.decode value
    let vs ← hooks.decodeFields fields
    return (key, v) :: vs

end

/-- What `json.loads` raises for a text that is no JSON. Where in the text is left out. -/
def decodeError : Exn := ⟨"JSONDecodeError", [.valueError], "Expecting value", none⟩

/-- `json.loads` with hooks -/
def RaisingHooks.loads (hooks : RaisingHooks) (text : Text) : Except Exn (Value Text) :=
  match JsonText.scan text with
  | some t => hooks.decode t
  | none => .error decodeError

namespace ParseJson

/-- `_reject_constant` -/
def rejectConstant (name : Constant) : Except Exn Double :=
  .error (contractError ("Nonfinite JSON number: " ++ name.text.chars))

/-- The loop of `_unique_object` -/
def uniqueLoop (result : List (Text × Value Text)) :
    List (Text × Value Text) → Except Exn (Value Text)
  | [] => .ok (.dict result)
  | (key, value) :: pairs =>
    if key ∈ result.map Prod.fst then
      .error (contractError ("Duplicate JSON key: " ++ key.chars))
    else uniqueLoop (result ++ [(key, value)]) pairs

/-- `_unique_object` -/
def uniqueObject (pairs : List (Text × Value Text)) : Except Exn (Value Text) := uniqueLoop [] pairs

/-- `_finite_float`. The message quotes the literal, which the document does not keep. -/
def finiteFloat (float : Decimal → Double) (number : Decimal) : Except Exn Double :=
  match float number with
  | .finite n => .ok (.finite n)
  | _ => .error (contractError "Nonfinite JSON number")

/-- The hooks of `parse_json`. -/
def hooks (float : Decimal → Double) : RaisingHooks :=
  ⟨finiteFloat float, rejectConstant, uniqueObject⟩

/-- `parse_json` -/
def parseJson (float : Decimal → Double) (value : Dyn Text) : Except Exn (Value Text) :=
  match value with
  | .other => .error (contractError "JSON payload must be text")
  | .typed text =>
    match (hooks float).loads text with
    | .ok v => .ok v
    | .error e =>
      -- `except (TypeError, ValueError)`
      if e.typeName = "TypeError" ∨ e.isinstance .valueError = true then
        .error (contractError ("Invalid JSON payload: " ++ e.message))
      else .error e

end ParseJson

/-! ## Dicts of pairs -/

theorem setItem_new {key : Text} {value : Value Text} {fields : List (Text × Value Text)}
    (h : key ∉ fields.map Prod.fst) : setItem key value fields = fields ++ [(key, value)] := by
  induction fields with
  | nil => rfl
  | cons f fields ih =>
    obtain ⟨k, v⟩ := f
    rw [List.map_cons, List.mem_cons, not_or] at h
    rw [setItem, if_neg (Ne.symm h.1), ih h.2, List.cons_append]

theorem setItem_keys (key : Text) (value : Value Text) (fields : List (Text × Value Text)) :
    (setItem key value fields).map Prod.fst =
      if key ∈ fields.map Prod.fst then fields.map Prod.fst else fields.map Prod.fst ++ [key] := by
  induction fields with
  | nil => rfl
  | cons f fields ih =>
    obtain ⟨k, v⟩ := f
    rw [setItem]
    by_cases hk : k = key
    · subst hk
      simp
    · rw [if_neg hk, List.map_cons, ih, List.map_cons]
      have hmem : key ∈ k :: fields.map Prod.fst ↔ key ∈ fields.map Prod.fst := by
        simp [Ne.symm hk]
      by_cases hm : key ∈ fields.map Prod.fst
      · rw [if_pos hm, if_pos (hmem.mpr hm)]
      · rw [if_neg hm, if_neg fun h => hm (hmem.mp h), List.cons_append]

theorem setItem_unique {key : Text} {value : Value Text} {fields : List (Text × Value Text)}
    (hv : value.unique = true) (h : uniqueFields fields = true) :
    uniqueFields (setItem key value fields) = true := by
  induction fields with
  | nil =>
    rw [setItem, uniqueFields, hv]
    rfl
  | cons f fields ih =>
    obtain ⟨k, v⟩ := f
    rw [uniqueFields, Bool.and_eq_true] at h
    rw [setItem]
    split
    · rw [uniqueFields, hv, h.2]
      rfl
    · rw [uniqueFields, h.1, ih h.2]
      rfl

/-- What the items of a dict keep while pairs are put in. -/
theorem dictOf_keeps {p : List (Text × Value Text) → Prop} {pairs fields : List (Text × Value Text)}
    (h : p fields) (hp : ∀ pair ∈ pairs, ∀ fields, p fields → p (setItem pair.1 pair.2 fields)) :
    p (pairs.foldl (fun fields pair => setItem pair.1 pair.2 fields) fields) := by
  induction pairs generalizing fields with
  | nil => exact h
  | cons pair pairs ih =>
    exact ih (hp pair List.mem_cons_self _ h) fun q hq => hp q (List.mem_cons_of_mem _ hq)

theorem dictOf_nodup (pairs : List (Text × Value Text)) : ((dictOf pairs).map Prod.fst).Nodup := by
  refine dictOf_keeps (p := fun fields => (fields.map Prod.fst).Nodup) List.nodup_nil ?_
  intro pair _ fields h
  rw [setItem_keys]
  split
  · exact h
  · rename_i hm
    rw [List.nodup_append]
    refine ⟨h, List.nodup_singleton _, ?_⟩
    rintro k hk k' hk' rfl
    rw [List.mem_singleton] at hk'
    subst hk'
    exact hm hk

/-- Pairs with distinct keys are the items of their dict. -/
theorem dictOf_eq {pairs : List (Text × Value Text)} (h : (pairs.map Prod.fst).Nodup) :
    dictOf pairs = pairs := by
  have hgo : ∀ rest fields : List (Text × Value Text), ((fields ++ rest).map Prod.fst).Nodup →
      rest.foldl (fun fields pair => setItem pair.1 pair.2 fields) fields = fields ++ rest := by
    intro rest
    induction rest with
    | nil => exact fun fields _ => (List.append_nil _).symm
    | cons pair rest ih =>
      intro fields hn
      have hnew : pair.1 ∉ fields.map Prod.fst := by
        intro hm
        rw [List.map_append, List.nodup_append] at hn
        exact hn.2.2 _ hm _ (by simp) rfl
      rw [List.append_cons] at hn ⊢
      rw [List.foldl_cons, setItem_new hnew]
      exact ih _ hn
  exact hgo pairs [] h

theorem uniqueFields_mem {pairs : List (Text × Value Text)} (h : uniqueFields pairs = true)
    {pair : Text × Value Text} (hm : pair ∈ pairs) : pair.2.unique = true := by
  induction pairs with
  | nil => cases hm
  | cons q pairs ih =>
    obtain ⟨k, w⟩ := q
    rw [uniqueFields, Bool.and_eq_true] at h
    rcases List.mem_cons.mp hm with rfl | hm
    · exact h.1
    · exact ih h.2 hm

theorem plain_keysUnique (float : Decimal → Double) : (plainHooks float).KeysUnique := by
  intro pairs v h hpairs
  cases h
  rw [unique, decide_eq_true (dictOf_nodup pairs), Bool.true_and]
  exact dictOf_keeps (p := fun fields => uniqueFields fields = true) rfl fun pair hm _ hfields =>
    setItem_unique (uniqueFields_mem hpairs hm) hfields

/-! ## Hooks without their exceptions -/

/-- The hooks, where an exception is nothing. -/
def RaisingHooks.quiet (hooks : RaisingHooks) : Hooks where
  parseFloat number := (hooks.parseFloat number).toOption
  parseConstant name := (hooks.parseConstant name).toOption
  objectPairs pairs := (hooks.objectPairs pairs).toOption

variable {raising : RaisingHooks}

mutual

theorem decode_quiet : ∀ t : Tree, (raising.decode t).toOption = raising.quiet.decode t
  | .null => rfl
  | .bool b => rfl
  | .int n => rfl
  | .str s => rfl
  | .float number => by
    change ((raising.parseFloat number).map Value.float).toOption =
      ((raising.parseFloat number).toOption).map Value.float
    cases raising.parseFloat number <;> rfl
  | .constant name => by
    change ((raising.parseConstant name).map Value.float).toOption =
      ((raising.parseConstant name).toOption).map Value.float
    cases raising.parseConstant name <;> rfl
  | .arr items => by
    rw [RaisingHooks.decode, Hooks.decode, ← decodeItems_quiet items]
    cases raising.decodeItems items <;> rfl
  | .obj fields => by
    rw [RaisingHooks.decode, Hooks.decode, ← decodeFields_quiet fields]
    cases raising.decodeFields fields <;> rfl

theorem decodeItems_quiet : ∀ items : List Tree,
    (raising.decodeItems items).toOption = raising.quiet.decodeItems items
  | [] => rfl
  | item :: items => by
    rw [RaisingHooks.decodeItems, Hooks.decodeItems, ← decode_quiet item, ← decodeItems_quiet items]
    cases raising.decode item <;> cases raising.decodeItems items <;> rfl

theorem decodeFields_quiet : ∀ fields : List (Text × Tree),
    (raising.decodeFields fields).toOption = raising.quiet.decodeFields fields
  | [] => rfl
  | (key, value) :: fields => by
    rw [RaisingHooks.decodeFields, Hooks.decodeFields, ← decode_quiet value,
      ← decodeFields_quiet fields]
    cases raising.decode value <;> cases raising.decodeFields fields <;> rfl

end

theorem loads_quiet (text : Text) : (raising.loads text).toOption = raising.quiet.loads text := by
  unfold RaisingHooks.loads Hooks.loads
  cases JsonText.scan text with
  | none => rfl
  | some t => exact decode_quiet t

/-! ## What the hooks raise -/

/-- Whatever a call raises is a `ValueError`. -/
def RaisesValueError {α : Type} (r : Except Exn α) : Prop :=
  ∀ e, r = .error e → e.isinstance .valueError = true

theorem raisesValue_ok {α : Type} (a : α) : RaisesValueError (.ok a : Except Exn α) :=
  fun e h => by cases h

theorem raisesValue_bind {α β : Type} {r : Except Exn α} {f : α → Except Exn β}
    (hr : RaisesValueError r) (hf : ∀ a, RaisesValueError (f a)) : RaisesValueError (r >>= f) := by
  cases r with
  | error e =>
    intro e' he
    cases he
    exact hr e rfl
  | ok a => exact hf a

theorem raisesValue_map {α β : Type} {r : Except Exn α} {f : α → β} (hr : RaisesValueError r) :
    RaisesValueError (r.map f) := by
  cases r with
  | error e =>
    intro e' he
    cases he
    exact hr e rfl
  | ok a => exact raisesValue_ok _

/-- The three hooks raise no other exception. -/
structure RaisingHooks.Tame (hooks : RaisingHooks) : Prop where
  parseFloat : ∀ number, RaisesValueError (hooks.parseFloat number)
  parseConstant : ∀ name, RaisesValueError (hooks.parseConstant name)
  objectPairs : ∀ pairs, RaisesValueError (hooks.objectPairs pairs)

mutual

theorem decode_raises (h : raising.Tame) : ∀ t : Tree, RaisesValueError (raising.decode t)
  | .null => raisesValue_ok _
  | .bool _ => raisesValue_ok _
  | .int _ => raisesValue_ok _
  | .str _ => raisesValue_ok _
  | .float number => raisesValue_map (h.parseFloat number)
  | .constant name => raisesValue_map (h.parseConstant name)
  | .arr items => raisesValue_map (decodeItems_raises h items)
  | .obj fields => raisesValue_bind (decodeFields_raises h fields) h.objectPairs

theorem decodeItems_raises (h : raising.Tame) : ∀ items : List Tree,
    RaisesValueError (raising.decodeItems items)
  | [] => raisesValue_ok _
  | item :: items => raisesValue_bind (decode_raises h item) fun _ =>
      raisesValue_bind (decodeItems_raises h items) fun _ => raisesValue_ok _

theorem decodeFields_raises (h : raising.Tame) : ∀ fields : List (Text × Tree),
    RaisesValueError (raising.decodeFields fields)
  | [] => raisesValue_ok _
  | (_, value) :: fields => raisesValue_bind (decode_raises h value) fun _ =>
      raisesValue_bind (decodeFields_raises h fields) fun _ => raisesValue_ok _

end

theorem loads_raises (h : raising.Tame) (text : Text) : RaisesValueError (raising.loads text) := by
  unfold RaisingHooks.loads
  split
  · exact decode_raises h _
  · intro e he
    cases he
    rfl

/-- The call gives a value or raises a `ContractError`. -/
def RaisesContractError {α : Type} (r : Except Exn α) : Prop :=
  ∀ e, r = .error e → ∃ message, e = contractError message

theorem raisesContract_ok {α : Type} (a : α) : RaisesContractError (.ok a : Except Exn α) :=
  fun e h => by cases h

theorem RaisesContractError.refused {α : Type} {r : Except Exn α} (h : RaisesContractError r)
    (hno : ∀ a, r ≠ .ok a) : ∃ message, r = .error (contractError message) := by
  cases r with
  | ok a => exact absurd rfl (hno a)
  | error e =>
    obtain ⟨message, rfl⟩ := h e rfl
    exact ⟨message, rfl⟩

theorem raisesContract_error {α : Type} (message : String) :
    RaisesContractError (.error (contractError message) : Except Exn α) := by
  intro e h
  cases h
  exact ⟨message, rfl⟩

theorem raisesContract_bind {α β : Type} {r : Except Exn α} {f : α → Except Exn β}
    (hr : RaisesContractError r) (hf : ∀ a, RaisesContractError (f a)) :
    RaisesContractError (r >>= f) := by
  cases r with
  | error e =>
    obtain ⟨message, rfl⟩ := hr e rfl
    exact raisesContract_error message
  | ok a => exact hf a

namespace ParseJson

variable {float : Decimal → Double}

theorem uniqueLoop_eq (pairs result : List (Text × Value Text))
    (h : (result.map Prod.fst).Nodup) : (uniqueLoop result pairs).toOption =
      if ((result ++ pairs).map Prod.fst).Nodup then some (.dict (result ++ pairs)) else none := by
  induction pairs generalizing result with
  | nil =>
    rw [List.append_nil, if_pos h]
    rfl
  | cons pair pairs ih =>
    obtain ⟨key, value⟩ := pair
    rw [uniqueLoop]
    split
    · rename_i hm
      rw [if_neg]
      · rfl
      · intro hn
        rw [List.map_append, List.nodup_append] at hn
        exact hn.2.2 _ hm _ (by simp) rfl
    · rename_i hm
      rw [ih, List.append_assoc]
      · rfl
      · rw [List.map_append, List.nodup_append]
        refine ⟨h, List.nodup_singleton _, ?_⟩
        rintro k hk k' hk' rfl
        simp only [List.map_cons, List.map_nil, List.mem_singleton] at hk'
        subst hk'
        exact hm hk

theorem uniqueLoop_raises (pairs result : List (Text × Value Text)) :
    RaisesValueError (uniqueLoop result pairs) := by
  induction pairs generalizing result with
  | nil => exact raisesValue_ok _
  | cons pair pairs ih =>
    obtain ⟨key, value⟩ := pair
    rw [uniqueLoop]
    split
    · intro e he
      cases he
      rfl
    · exact ih _

/-- The strict hooks without their exceptions. -/
theorem hooks_quiet : (hooks float).quiet =
    ⟨fun number => (finiteFloat float number).toOption, fun _ => none,
      FlynnAgents.uniqueObject⟩ := by
  unfold RaisingHooks.quiet hooks
  congr 1
  funext pairs
  exact uniqueLoop_eq pairs [] List.nodup_nil

theorem hooks_tame : (hooks float).Tame where
  parseFloat number := by
    intro e he
    change finiteFloat float number = .error e at he
    unfold finiteFloat at he
    split at he
    · cases he
    · cases he
      rfl
  parseConstant name := by
    intro e he
    cases he
    rfl
  objectPairs pairs := uniqueLoop_raises pairs []

/-- What `parse_json` returns is what the hooks give, and it raises a `ContractError`. -/
theorem parseJson_ok {text : Text} {v : Value Text} :
    parseJson float (.typed text) = .ok v ↔ (hooks float).quiet.loads text = some v := by
  rw [← loads_quiet]
  simp only [parseJson]
  cases (hooks float).loads text with
  | ok w => simp [Except.toOption]
  | error e =>
    simp only [Except.toOption, reduceCtorEq, iff_false]
    split
    · simp
    · simp

theorem parseJson_raises (value : Dyn Text) : RaisesContractError (parseJson float value) := by
  unfold parseJson
  split
  · exact raisesContract_error _
  · rename_i text
    have hraises : RaisesValueError ((hooks float).loads text) := loads_raises hooks_tame text
    split
    · exact raisesContract_ok _
    · rename_i e he
      rw [if_pos (.inr (hraises e he))]
      exact raisesContract_error _

/-! ## The strict restriction -/

/-- A node that is no float beyond the finite numbers. -/
def finiteNode (float : Decimal → Double) : Tree → Bool
  | .float number => match float number with
    | .finite _ => true
    | _ => false
  | _ => true

theorem hooks_accepted :
    acceptedNode (hooks float).quiet = fun t => plainNode t && finiteNode float t := by
  funext t
  rw [hooks_quiet]
  cases t with
  | float number =>
    simp only [acceptedNode, plainNode, finiteNode, finiteFloat, Bool.true_and]
    cases float number <;> rfl
  | constant name => rfl
  | obj fields => exact (Bool.and_true _).symm
  | _ => rfl

theorem finiteFloat_eq {number : Decimal} {x : Double}
    (h : (finiteFloat float number).toOption = some x) : float number = x := by
  unfold finiteFloat at h
  split at h
  · rename_i hn
    cases h
    exact hn
  · cases h

mutual

/-- What the strict hooks give, plain `json.loads` gives. -/
theorem decode_plain : ∀ {t : Tree} {v : Value Text}, (hooks float).quiet.decode t = some v →
    (plainHooks float).decode t = some v
  | .null, v, h => h
  | .bool b, v, h => h
  | .int n, v, h => h
  | .str s, v, h => h
  | .float number, v, h => by
    rw [hooks_quiet, Hooks.decode] at h
    obtain ⟨x, hx, rfl⟩ := Option.map_eq_some_iff.mp h
    rw [← finiteFloat_eq hx]
    rfl
  | .constant name, v, h => by
    rw [hooks_quiet] at h
    cases h
  | .arr items, v, h => by
    rw [Hooks.decode] at h
    obtain ⟨vs, hvs, rfl⟩ := Option.map_eq_some_iff.mp h
    rw [Hooks.decode, decodeItems_plain hvs]
    rfl
  | .obj fields, v, h => by
    rw [Hooks.decode] at h
    obtain ⟨vs, hvs, hv⟩ := Option.bind_eq_some_iff.mp h
    rw [hooks_quiet] at hv
    obtain ⟨hnodup, rfl⟩ := uniqueObject_eq_some hv
    rw [Hooks.decode, decodeFields_plain hvs]
    exact congrArg (fun fields => some (Value.dict fields)) (dictOf_eq hnodup)

theorem decodeItems_plain : ∀ {items : List Tree} {vs : List (Value Text)},
    (hooks float).quiet.decodeItems items = some vs → (plainHooks float).decodeItems items = some vs
  | [], vs, h => h
  | item :: items, vs, h => by
    obtain ⟨v, rest, hv, hrest, rfl⟩ := decodeItems_cons h
    rw [Hooks.decodeItems, decode_plain hv, decodeItems_plain hrest]
    rfl

theorem decodeFields_plain : ∀ {fields : List (Text × Tree)} {vs : List (Text × Value Text)},
    (hooks float).quiet.decodeFields fields = some vs →
      (plainHooks float).decodeFields fields = some vs
  | [], vs, h => h
  | (key, value) :: fields, vs, h => by
    obtain ⟨v, rest, hv, hrest, rfl⟩ := decodeFields_cons h
    rw [Hooks.decodeFields, decode_plain hv, decodeFields_plain hrest]
    rfl

end

/-- Whatever `float` makes of a literal, and for every text: `parse_json`
returns a value exactly if the text is a JSON document in which no object, at
any depth, repeats a key, no constant is named and every float is finite; the
value is then the one of plain `json.loads`. In every other case, and for what
is no text, it raises a `ContractError`. -/
theorem parse_json_is_the_strict_loads (float : Decimal → Double) :
    (∀ text v, parseJson float (.typed text) = .ok v ↔
      (plainHooks float).loads text = some v ∧ ∃ t, JsonText.scan text = some t ∧
        everyNode plainNode t = true ∧ everyNode (finiteNode float) t = true) ∧
    ∀ value, (∀ v, parseJson float value ≠ .ok v) →
      ∃ message, parseJson float value = .error (contractError message) := by
  constructor
  · intro text v
    rw [parseJson_ok]
    unfold Hooks.loads
    cases JsonText.scan text with
    | none => simp
    | some t =>
      have hunique : (hooks float).quiet.objectPairs = FlynnAgents.uniqueObject := by
        rw [hooks_quiet]
      have hsome := decode_isSome hunique t
      rw [hooks_accepted, everyNode_and] at hsome
      simp only [Option.bind_some, Option.some.injEq, exists_eq_left']
      constructor
      · intro h
        rw [h] at hsome
        exact ⟨decode_plain h, Bool.and_eq_true_iff.mp hsome.symm⟩
      · rintro ⟨hplain, hnodes⟩
        rw [Bool.and_eq_true_iff.mpr hnodes] at hsome
        obtain ⟨w, hw⟩ := Option.isSome_iff_exists.mp hsome
        rw [decode_plain hw] at hplain
        rw [hw, ← hplain]
  · exact fun value h => (parseJson_raises value).refused h

end ParseJson

/-! ## The reader of the records -/

/-- `parse_json` of a string, with Python's own `float` -/
def readJson (text : Text) : Except Exn (Value Text) := ParseJson.parseJson toFloat (.typed text)

/-- What the hooks of `parse_json` give. -/
def strictHooks : Hooks := (ParseJson.hooks toFloat).quiet

theorem strict_objectPairs : strictHooks.objectPairs = uniqueObject := by
  rw [strictHooks, ParseJson.hooks_quiet]

theorem readJson_ok {text : Text} {v : Value Text} :
    readJson text = .ok v ↔ strictHooks.loads text = some v := ParseJson.parseJson_ok

theorem readJson_raises (text : Text) : RaisesContractError (readJson text) :=
  ParseJson.parseJson_raises _

/-- What is read repeats no key at any depth. -/
theorem readJson_unique {text : Text} {v : Value Text} (h : readJson text = .ok v) :
    v.unique = true := by
  obtain ⟨t, -, ht⟩ := Option.bind_eq_some_iff.mp (readJson_ok.mp h)
  exact decode_unique (keysUnique_of strict_objectPairs) ht

end FlynnAgents
