-- One call of the program worker from end to end (program_worker.py and
-- _program_bootstrap.py): the request that `run` writes, what the child makes of it,
-- and what `run` reads again.
import FlynnAgents.Worker
import FlynnAgents.Canonical

namespace FlynnAgents

open Text (ofString HasPair high low)
open JsonText (Tree Ascii)
open Value (document documentItems documentFields unique uniqueItems uniqueFields Readable
  ReadableItems ReadableFields allFinite allFiniteItems allFiniteFields)

/-! ## The request -/

/-- `len(s.encode())`, or nothing where `s` holds a surrogate. -/
def utf8Length : Text → Option Nat
  | [] => some 0
  | c :: s =>
    if high c || low c then none
    else (utf8Length s).map fun n => n +
      if c.val < 0x80 then 1 else if c.val < 0x800 then 2 else if c.val < 0x10000 then 3 else 4

/-- What `encode` raises for a surrogate. -/
def encodeError : Exn :=
  ⟨"UnicodeEncodeError", [.valueError], "surrogates not allowed", none⟩

/-- What `json.dumps` raises for NaN, an infinity or an integer with too many digits. -/
def writeError : Exn := valueError "Out of range float values are not JSON compliant"

def programOperations : List String := ["init", "transition", "render", "outcome"]

/-- The document that `run` sends. -/
def requestValue (source : Text) (operation : String) (arguments : List (Value Text)) :
    Value Text :=
  .dict [(ofString "source", .str source), (ofString "operation", .str (ofString operation)),
    (ofString "arguments", .list arguments)]

/-- `operation not in ("init", "transition", "render", "outcome")` -/
def checkOperation : Dyn String → Except Exn String
  | .typed o => if o ∈ programOperations then .ok o else .error (valueError "Unsupported operation")
  | .other => .error (valueError "Unsupported operation")

/-- `not isinstance(source, str) or len(source.encode()) > 128 * 1024` -/
def checkSource : Dyn Text → Except Exn Text
  | .typed s =>
    match utf8Length s with
    | some n => if 128 * 1024 < n then .error (valueError "Program source exceeds limit") else .ok s
    | none => .error encodeError
  | .other => .error (valueError "Program source exceeds limit")

def arity (operation : String) : Nat := if operation = "transition" then 2 else 1

def arityError (operation : String) : Exn :=
  valueError (operation ++ " requires an argument array of length " ++ toString (arity operation))

/-- `not isinstance(arguments, list) or len(arguments) != arity` -/
def checkArguments (operation : String) : Dyn (List (Value Text)) → Except Exn (List (Value Text))
  | .typed args =>
    if args.length = arity operation then .ok args else .error (arityError operation)
  | .other => .error (arityError operation)

/-- `run`, up to the payload. -/
def encodeRequest (limits : ProgramLimits) (operation : Dyn String) (source : Dyn Text)
    (arguments : Dyn (List (Value Text))) : Except Exn Text := do
  let operation ← checkOperation operation
  let source ← checkSource source
  let arguments ← checkArguments operation arguments
  match JsonText.write JsonText.spaced (requestValue source operation arguments).document with
  | none => .error writeError
  | some payload =>
    -- the payload is ASCII: as many bytes as code points
    if limits.inputBytes < payload.length then .error (valueError "Program input exceeds limit")
    else .ok payload

/-! ## The child -/

/-- What a function of the program returns: a value that `json.dumps` writes, tuples as
lists and keys as strings, or an object for which it raises. -/
inductive Answer where
  | value (v : Value Text)
  | object (raised : String)

/-- What a name of the program stands for. -/
inductive Definition where
  | function (f : List (Value Text) → Except String Answer)
  | object

/-- The interpreter of the child: what `json.load` raises for a text that is no request,
and the names that a program defines, or what it raises. -/
structure Interpreter where
  unreadable : Text → String
  exec : Text → Except String (Text → Option Definition)

/-- `request[key]` -/
def subscript (key : String) : Value Text → Except String (Value Text)
  | .dict fields => match Value.get (ofString key) fields with
    | some v => .ok v
    | none => .error "KeyError"
  | _ => .error "TypeError"

/-- `callable(namespace.get(name))` -/
def Definition.callable : Option Definition → Bool
  | some (.function _) => true
  | _ => false

/-- `json.dumps` of what the program returned, as the value that is written. -/
def Answer.written : Answer → Except String (Value Text)
  | .value v =>
    if (JsonText.write JsonText.spaced v.document).isSome then .ok v else .error "ValueError"
  | .object raised => .error raised

/-- The names of the program, with the four that it must define. -/
def Interpreter.interface (x : Interpreter) (source : Text) :
    Except String (Text → Option Definition) := do
  let names ← x.exec source
  if programOperations.all fun name => Definition.callable (names (ofString name)) then .ok names
  else .error "ValueError"

/-- `function = namespace[request["operation"]]`, which must be callable. -/
def functionOf (names : Text → Option Definition) :
    Value Text → Except String (List (Value Text) → Except String Answer)
  | .str operation =>
    match names operation with
    | some (.function f) => .ok f
    | some .object => .error "AssertionError"
    | none => .error "KeyError"
  | .list _ | .dict _ => .error "TypeError"
  | _ => .error "KeyError"

/-- `*request["arguments"]` -/
def unpacked : Value Text → Except String (List (Value Text))
  | .list arguments => .ok arguments
  | .dict fields => .ok (fields.map fun f => .str f.1)
  | .str s => .ok (s.map fun c => .str [c])
  | _ => .error "TypeError"

/-- The `try` of `main`: what is written under `value`, or the type of what is raised. -/
def Interpreter.compute (x : Interpreter) (input : Text) : Except String (Value Text) := do
  let request ← match loads input with
    | some v => .ok v
    | none => .error (x.unreadable input)
  let names ← match ← subscript "source" request with
    | .str source => x.interface source
    | _ => .error "TypeError"
  let function ← functionOf names (← subscript "operation" request)
  let arguments ← unpacked (← subscript "arguments" request)
  (← function arguments).written

/-- `{"ok": True, "value": value}`, or `{"ok": False, "error": type(exc).__name__}` -/
def replyValue : Except String (Value Text) → Value Text
  | .ok v => .dict [(ofString "ok", .bool true), (ofString "value", v)]
  | .error name => .dict [(ofString "ok", .bool false), (ofString "error", .str (ofString name))]

/-- What `main` writes to stdout, once it is confined. -/
def Interpreter.main (x : Interpreter) (input : Text) : Option Text :=
  JsonText.write JsonText.spaced (replyValue (x.compute input)).document

/-! ## A call -/

/-- The program called in place. -/
def Interpreter.call (x : Interpreter) (source : Text) (operation : String)
    (arguments : List (Value Text)) : Except String (Value Text) := do
  let names ← x.interface source
  match names (ofString operation) with
  | some (.function f) => (← f arguments).written
  | _ => .error "KeyError"

/-- The result says how the call ended. A value whose keys are equal as strings comes back
as no value. -/
def ProgramResult.Says (result : ProgramResult) : Except String (Value Text) → Prop
  | .ok v =>
    if v.unique then result.ok = true ∧ result.value = some v
    else result.ok = false ∧ result.error = some (ofString "invalid_output")
  | .error name =>
    result.ok = false ∧ result.error = some (ofString "program_error:" ++ ofString name)

/-- The bytes of a text of ASCII. -/
def asciiBytes (text : Text) : List UInt8 := text.map fun c => UInt8.ofNat c.val

/-! ## What is written -/

mutual

/-- What can be written names no infinity and no NaN. -/
theorem writable_allFinite : ∀ {v : Value Text}, JsonText.writable v.document = true →
    v.allFinite = true
  | .none, _ | .bool _, _ | .int _, _ | .str _, _ | .float (.finite _), _ => rfl
  | .float (.infinite negative), h => by cases negative <;> cases h
  | .float .nan, h => by cases h
  | .list _, h => writableItems_allFinite h
  | .dict _, h => writableFields_allFinite h

theorem writableItems_allFinite : ∀ {vs : List (Value Text)},
    JsonText.writableItems (documentItems vs) = true → allFiniteItems vs = true
  | [], _ => rfl
  | _ :: _, h => by
    obtain ⟨hv, hvs⟩ := Bool.and_eq_true_iff.mp h
    exact Bool.and_eq_true_iff.mpr ⟨writable_allFinite hv, writableItems_allFinite hvs⟩

theorem writableFields_allFinite : ∀ {fields : List (Text × Value Text)},
    JsonText.writableFields (documentFields fields) = true → allFiniteFields fields = true
  | [], _ => rfl
  | (_, _) :: _, h => by
    obtain ⟨hv, hfields⟩ := Bool.and_eq_true_iff.mp h
    exact Bool.and_eq_true_iff.mpr ⟨writable_allFinite hv, writableFields_allFinite hfields⟩

end

theorem write_allFinite {style : JsonText.Style} {v : Value Text} {text : Text}
    (h : JsonText.write style v.document = some text) : v.allFinite = true :=
  writable_allFinite (JsonText.write_eq_some.mp h).1

/-! ## What the worker reads -/

/-- A decimal that is rounded to a double is not beyond their range. -/
theorem toFloat_of_readable {r : JsonText.Decimal} (h : floatOf r = .finite r) :
    toFloat r = .finite r := by
  have hrange : overflows r = false := by
    by_contra hover
    rw [Bool.not_eq_false] at hover
    have hbound : (2 ^ 1024 - 2 ^ 970) * 10 ^ (-r.exponent).toNat ≤
        r.digits * 10 ^ r.exponent.toNat := by
      unfold overflows overflowBound at hover
      split at hover
      · rename_i hexp
        rw [show (-r.exponent).toNat = 0 by omega, Nat.pow_zero, Nat.mul_one]
        exact of_decide_eq_true hover
      · rename_i hexp
        rw [show r.exponent.toNat = 0 by omega, Nat.pow_zero, Nat.mul_one]
        exact of_decide_eq_true hover
    unfold floatOf at h
    rw [Binary64.round_none hbound] at h
    cases h
  unfold toFloat
  rw [hrange]
  rfl

mutual

/-- The worker reads a value as it was written, if no dict of it repeats a key. -/
theorem worker_decode_document : ∀ {v : Value Text}, v.Readable → v.allFinite = true →
    workerHooks.decode v.document = if v.unique then some v else none
  | .none, _, _ => rfl
  | .bool _, _, _ => rfl
  | .int _, _, _ => rfl
  | .float (.finite r), h, _ => by
    change some (Value.float (toFloat r)) = _
    rw [toFloat_of_readable h]
    rfl
  | .float (.infinite _), _, hf => by cases hf
  | .float .nan, _, hf => by cases hf
  | .str _, _, _ => rfl
  | .list vs, h, hf => by
    rw [document, Hooks.decode, worker_decodeItems_document h hf, unique]
    split <;> rfl
  | .dict fields, h, hf => by
    rw [document, Hooks.decode, worker_decodeFields_document h hf, unique]
    by_cases hu : uniqueFields fields = true
    · rw [if_pos hu, hu, Bool.and_true, Option.bind_some]
      change uniqueObject fields = _
      unfold uniqueObject
      simp only [decide_eq_true_eq]
    · rw [if_neg hu, Option.bind_none, Bool.not_eq_true] at *
      rw [hu, Bool.and_false]
      rfl

theorem worker_decodeItems_document : ∀ {vs : List (Value Text)}, ReadableItems vs →
    allFiniteItems vs = true →
      workerHooks.decodeItems (documentItems vs) = if uniqueItems vs then some vs else none
  | [], _, _ => rfl
  | v :: vs, h, hf => by
    rw [allFiniteItems, Bool.and_eq_true] at hf
    rw [documentItems, Hooks.decodeItems, worker_decode_document h.1 hf.1,
      worker_decodeItems_document h.2 hf.2, uniqueItems]
    cases v.unique <;> cases uniqueItems vs <;> rfl

theorem worker_decodeFields_document : ∀ {fields : List (Text × Value Text)},
    ReadableFields fields → allFiniteFields fields = true →
      workerHooks.decodeFields (documentFields fields) =
        if uniqueFields fields then some fields else none
  | [], _, _ => rfl
  | (k, v) :: fields, h, hf => by
    rw [allFiniteFields, Bool.and_eq_true] at hf
    rw [documentFields, Hooks.decodeFields, worker_decode_document h.2.1 hf.1,
      worker_decodeFields_document h.2.2 hf.2, uniqueFields]
    cases v.unique <;> cases uniqueFields fields <;> rfl

end

/-- What is written of a readable value is read by the worker as the value. -/
theorem worker_loads_write {style : JsonText.Style} {v : Value Text} {text : Text}
    (h : v.Readable) (hw : JsonText.write style v.document = some text) :
    workerHooks.loads text = if v.unique then some v else none := by
  unfold Hooks.loads
  rw [JsonText.scan_write hw, Option.bind_some, joinTree_document h]
  exact worker_decode_document h (write_allFinite hw)

/-- Where the document does not nest too deep, there is no recursion limit. -/
theorem workerLoads_shallow {deep : Tree → Bool} {text : Text}
    (h : ∀ tree, JsonText.scan text = some tree → deep tree = false) :
    workerLoads deep text = workerHooks.loads text := by
  unfold workerLoads Hooks.loads
  cases hscan : JsonText.scan text with
  | none => rfl
  | some tree => rw [Option.bind_some, Option.bind_some, h tree hscan, if_neg Bool.false_ne_true]

/-! ## The child's side -/

/-- The child always writes a reply. -/
theorem reply_written {r : Except String (Value Text)}
    (h : ∀ v, r = .ok v → (JsonText.write JsonText.spaced v.document).isSome = true) :
    ∃ text, JsonText.write JsonText.spaced (replyValue r).document = some text := by
  cases r with
  | error name => exact ⟨_, rfl⟩
  | ok v =>
    have hv := h v rfl
    rw [JsonText.write_isSome] at hv
    have hreply : JsonText.writable (replyValue (.ok v)).document = true := by
      simp only [replyValue, document, documentFields, JsonText.writable, JsonText.writableFields,
        hv, Bool.and_self]
    exact ⟨_, JsonText.write_eq_some.mpr ⟨hreply, rfl⟩⟩

theorem written_writable {a : Answer} {v : Value Text} (h : a.written = .ok v) :
    (JsonText.write JsonText.spaced v.document).isSome = true := by
  cases a with
  | object raised => cases h
  | value w =>
    change (if (JsonText.write JsonText.spaced w.document).isSome then .ok w
      else .error "ValueError") = Except.ok v at h
    split at h
    · cases h
      assumption
    · cases h

theorem bind_ok {ε α β : Type} {x : Except ε α} {f : α → Except ε β} {b : β}
    (h : x >>= f = .ok b) : ∃ a, x = .ok a ∧ f a = .ok b := by
  cases x with
  | error e => cases h
  | ok a => exact ⟨a, rfl, h⟩

theorem call_writable {x : Interpreter} {source : Text} {operation : String}
    {arguments : List (Value Text)} {v : Value Text}
    (h : x.call source operation arguments = .ok v) :
    (JsonText.write JsonText.spaced v.document).isSome = true := by
  obtain ⟨names, -, hcall⟩ := bind_ok h
  split at hcall
  · obtain ⟨a, -, ha⟩ := bind_ok hcall
    exact written_writable ha
  · cases hcall

/-- Every operation is a function of a program that has the interface. -/
theorem interface_callable {x : Interpreter} {source : Text} {names : Text → Option Definition}
    (h : x.interface source = .ok names) {operation : String} (ho : operation ∈ programOperations) :
    ∃ f, names (ofString operation) = some (.function f) := by
  obtain ⟨names', -, hnames⟩ := bind_ok h
  split at hnames
  · rename_i hall
    cases hnames
    have hcallable := List.all_eq_true.mp hall operation ho
    cases hname : names (ofString operation) with
    | none =>
      rw [hname] at hcallable
      cases hcallable
    | some d =>
      cases d with
      | function f => exact ⟨f, rfl⟩
      | object =>
        rw [hname] at hcallable
        cases hcallable
  · cases hnames

/-- The child calls the program as it was asked to. -/
theorem compute_request {x : Interpreter} {payload source : Text} {operation : String}
    {arguments : List (Value Text)} (ho : operation ∈ programOperations)
    (h : loads payload = some (requestValue source operation arguments)) :
    x.compute payload = x.call source operation arguments := by
  unfold Interpreter.compute Interpreter.call
  rw [h]
  change (do
    let names ← x.interface source
    let function ← functionOf names (.str (ofString operation))
    Answer.written (← function arguments)) = _
  cases hi : x.interface source with
  | error name => rfl
  | ok names =>
    obtain ⟨f, hf⟩ := interface_callable hi ho
    have hfunction : functionOf names (.str (ofString operation)) = .ok f := by
      simp only [functionOf, hf]
    change (do
      let function ← functionOf names (.str (ofString operation))
      Answer.written (← function arguments)) = match names (ofString operation) with
        | some (.function f) => do Answer.written (← f arguments)
        | _ => .error "KeyError"
    rw [hfunction, hf]
    rfl

/-! ## The parent's side -/

theorem reply_readable {r : Except String (Value Text)} (h : ∀ v, r = .ok v → v.Readable) :
    (replyValue r).Readable := by
  cases r with
  | error name =>
    exact ⟨Text.ofString_no_pair _, trivial, Text.ofString_no_pair _, Text.ofString_no_pair name,
      trivial⟩
  | ok v => exact ⟨Text.ofString_no_pair _, trivial, Text.ofString_no_pair _, h v rfl, trivial⟩

theorem reply_unique (r : Except String (Value Text)) :
    (replyValue r).unique = match r with
      | .ok v => v.unique
      | .error _ => true := by
  cases r with
  | error name => rfl
  | ok v =>
    change (true && (v.unique && true)) = v.unique
    rw [Bool.true_and, Bool.and_true]

/-- What is read of a reply. -/
def received : Except String (Value Text) → Option (Except Text (Value Text))
  | .ok v => if v.unique then some (.ok v) else none
  | .error name => some (.error (ofString name))

theorem envelope_value (v : Value Text) :
    envelope (replyValue (.ok v)) = some (.ok v) := by
  rfl

/-- What `run` makes of a reply of the child that it can nest. -/
theorem envelope_reply {deep : Tree → Bool} {r : Except String (Value Text)} {text : Text}
    (h : ∀ v, r = .ok v → v.Readable)
    (hw : JsonText.write JsonText.spaced (replyValue r).document = some text)
    (hdeep : ∀ tree, JsonText.scan text = some tree → deep tree = false) :
    (workerLoads deep text).bind envelope = received r := by
  rw [workerLoads_shallow hdeep, worker_loads_write (reply_readable h) hw, reply_unique]
  cases r with
  | error name => rfl
  | ok v =>
    unfold received
    simp only
    split
    · exact envelope_value v
    · rfl

/-- The loop only times out if a turn finds the wall limit passed. -/
theorem loop_timeout {limit : Int} {polls : Nat → Poll} {fuel i : Nat} {r r' : Reader}
    (h : Reader.loop limit polls fuel i r = some (r', some .timeout)) :
    ∃ j, (polls j).expired = true := by
  induction fuel generalizing i r with
  | zero =>
    unfold Reader.loop at h
    split at h <;> cases h
  | succ fuel ih =>
    unfold Reader.loop at h
    split at h
    · cases h
    · simp only at h
      split at h
      · exact ⟨i, ‹_›⟩
      · split at h
        · cases h
        · exact ih h

/-- How `run` may end without reading a reply. -/
def ProgramResult.Interrupted (result : ProgramResult) (limits : ProgramLimits)
    (polls : Nat → Poll) (ending : Ending) (r : Reader) : Prop :=
  result.ok = false ∧
    ((result.error = some (ofString "timeout") ∧
        (ending.waitExpired = true ∨ ∃ j, (polls j).expired = true)) ∨
      (result.error = some (ofString "output_limit") ∧ limits.outputBytes < r.total) ∨
      (result.error = some (ofString "execution_failed") ∧ ending.returncode ≠ 0))

/-- The result of a child that exits in time after a reply. -/
theorem classify_says {decodeBytes : List UInt8 → Option Text} {deep : Tree → Bool} {r : Reader}
    {ending : Ending}
    {answer : Except String (Value Text)} {text : Text} (hwait : ending.waitExpired = false)
    (hexit : ending.returncode = 0) (hanswer : ∀ v, answer = .ok v → v.Readable)
    (hw : JsonText.write JsonText.spaced (replyValue answer).document = some text)
    (hdeep : ∀ tree, JsonText.scan text = some tree → deep tree = false)
    (hread : decodeBytes (r.buffer .stdout) = some text) :
    (classify decodeBytes deep r none ending).Says answer := by
  have henvelope := envelope_reply hanswer hw hdeep
  unfold classify
  simp only [hwait, Bool.false_eq_true, if_false, hexit, ne_eq, not_true, hread, Option.bind_some,
    henvelope]
  cases answer with
  | error name => exact ⟨rfl, rfl⟩
  | ok v =>
    unfold ProgramResult.Says received
    simp only
    split
    · exact ⟨rfl, rfl⟩
    · exact ⟨rfl, rfl⟩

/-! ## A call from end to end -/

theorem utf8Length_plain {s : Text} {n : Nat} (h : utf8Length s = some n) : Text.Plain s := by
  induction s generalizing n with
  | nil =>
    intro c hc
    cases hc
  | cons c s ih =>
    unfold utf8Length at h
    split at h
    · cases h
    · rename_i hc
      obtain ⟨m, hm, -⟩ := Option.map_eq_some_iff.mp h
      rw [Bool.or_eq_true, not_or, Bool.not_eq_true, Bool.not_eq_true] at hc
      exact List.forall_mem_cons.mpr ⟨hc, ih hm⟩

/-- What was checked of a request that is sent. -/
theorem encodeRequest_ok {limits : ProgramLimits} {operation : Dyn String} {source : Dyn Text}
    {arguments : Dyn (List (Value Text))} {payload : Text}
    (h : encodeRequest limits operation source arguments = .ok payload) :
    ∃ o s args, operation = .typed o ∧ source = .typed s ∧ arguments = .typed args ∧
      o ∈ programOperations ∧ Text.Plain s ∧
      JsonText.write JsonText.spaced (requestValue s o args).document = some payload := by
  unfold encodeRequest at h
  obtain ⟨o, ho, h⟩ := bind_ok h
  obtain ⟨s, hs, h⟩ := bind_ok h
  obtain ⟨args, hargs, h⟩ := bind_ok h
  have hoperation : operation = .typed o ∧ o ∈ programOperations := by
    cases operation with
    | other => cases ho
    | typed o' =>
      simp only [checkOperation] at ho
      split at ho
      · cases ho
        exact ⟨rfl, ‹_›⟩
      · cases ho
  have hsource : source = .typed s ∧ Text.Plain s := by
    cases source with
    | other => cases hs
    | typed s' =>
      simp only [checkSource] at hs
      split at hs
      · split at hs
        · cases hs
        · cases hs
          exact ⟨rfl, utf8Length_plain ‹_›⟩
      · cases hs
  have harguments : arguments = .typed args := by
    cases arguments with
    | other => cases hargs
    | typed args' =>
      simp only [checkArguments] at hargs
      split at hargs
      · cases hargs
        rfl
      · cases hargs
  have hpayload : JsonText.write JsonText.spaced (requestValue s o args).document =
      some payload := by
    split at h
    · cases h
    · split at h
      · cases h
      · cases h
        assumption
  exact ⟨o, s, args, hoperation.1, hsource.1, harguments, hoperation.2, hsource.2, hpayload⟩

/-- A program that is run by the worker is called as it would be in place: the child is asked for
just this call, and however its reply is delivered, unless the run was interrupted the result
says how the call ended. -/
theorem the_worker_is_a_remote_call (x : Interpreter) {decodeBytes : List UInt8 → Option Text}
    (hdecode : ∀ text, Ascii text → decodeBytes (asciiBytes text) = some text)
    {deep : Tree → Bool} {limits : ProgramLimits} {operation : Dyn String} {source : Dyn Text}
    {arguments : Dyn (List (Value Text))} {payload : Text}
    (hask : encodeRequest limits operation source arguments = .ok payload)
    (hargs : ∀ args, arguments = .typed args → uniqueItems args = true ∧ ReadableItems args) :
    ∃ o s args reply, operation = .typed o ∧ source = .typed s ∧ arguments = .typed args ∧
      loads payload = some (requestValue s o args) ∧ x.main payload = some reply ∧
      ((∀ v, x.call s o args = .ok v → v.Readable) →
        ∀ polls ending fuel r result,
          runWorker decodeBytes deep limits polls ending fuel = some (r, result) →
          r.delivered .stdout = asciiBytes reply →
          (∀ tree, JsonText.scan reply = some tree → deep tree = false) →
          result.Interrupted limits polls ending r ∨ result.Says (x.call s o args)) := by
  obtain ⟨o, s, args, rfl, rfl, rfl, ho, hs, hpayload⟩ := encodeRequest_ok hask
  obtain ⟨hunique, hreadable⟩ := hargs args rfl
  have hloads : loads payload = some (requestValue s o args) := by
    refine loads_write ?_ ?_ hpayload
    · change (true && (true && (true && (uniqueItems args && true)))) = true
      rw [hunique]
      rfl
    · exact ⟨Text.ofString_no_pair _, hs.not_hasPair, Text.ofString_no_pair _,
        Text.ofString_no_pair _, Text.ofString_no_pair _, hreadable, trivial⟩
  have hcompute := compute_request (x := x) ho hloads
  obtain ⟨reply, hreply⟩ := reply_written fun v hv => call_writable (x := x) hv
  refine ⟨o, s, args, reply, rfl, rfl, rfl, hloads, ?_, ?_⟩
  · unfold Interpreter.main
    rw [hcompute]
    exact hreply
  · intro hanswer polls ending fuel r result hrun hdelivered hdeep
    obtain ⟨⟨r', failure⟩, hloop, heq⟩ := Option.map_eq_some_iff.mp hrun
    cases heq
    have hended := loop_ended (limit_nonneg limits) ⟨.start, fun _ p => rfl, fun hn => by cases hn⟩
      hloop
    cases failure with
    | some f =>
      cases f with
      | timeout => exact .inl ⟨rfl, .inl ⟨rfl, .inr (loop_timeout hloop)⟩⟩
      | outputLimit => exact .inl ⟨rfl, .inr (.inl ⟨rfl, hended.passed rfl⟩)⟩
    | none =>
      by_cases hwait : ending.waitExpired = true
      · left
        unfold classify
        simp only [hwait, if_true]
        exact ⟨rfl, .inl ⟨rfl, .inl hwait⟩⟩
      · rw [Bool.not_eq_true] at hwait
        by_cases hexit : ending.returncode = 0
        · right
          refine classify_says hwait hexit hanswer hreply hdeep ?_
          rw [hended.whole (by simp) .stdout, hdelivered]
          exact hdecode reply (JsonText.write_ascii hreply)
        · left
          unfold classify
          simp only [hwait, Bool.false_eq_true, if_false, ne_eq, hexit, not_false_eq_true, if_true]
          exact ⟨rfl, .inr (.inr ⟨rfl, hexit⟩)⟩

/-- A program whose functions give their first argument back. -/
def echo : Interpreter where
  unreadable _ := "JSONDecodeError"
  exec _ := .ok fun _ => some (.function fun args => .ok (.value (args.headD .none)))

def echoLimits : ProgramLimits where
  accepted := by decide

/-- The reply of `echo` to a call with 7. -/
def echoReply : Text := ofString "\x7b\"ok\": true, \"value\": 7\x7d"

/-- The reply, and then the end of both pipes. -/
def echoPolls : Nat → Poll
  | 0 => { ready := fun p => if p = .stdout then some (asciiBytes echoReply) else none }
  | _ => { ready := fun _ => some [] }

theorem ascii_asciiBytes {text : Text} (h : Ascii text) : ascii (asciiBytes text) = some text := by
  have hmap : (asciiBytes text).map (fun b => (Fin.ofNat 0x110000 b.toNat : CodePoint)) = text := by
    unfold asciiBytes
    rw [List.map_map]
    refine (List.map_congr_left fun c hc => ?_).trans (List.map_id text)
    have hlt := h c hc
    apply Fin.ext
    change (UInt8.ofNat c.val).toNat % 0x110000 = c.val
    rw [UInt8.toNat_ofNat']
    omega
  exact congrArg some hmap

theorem echoReply_shallow (tree : Tree) (h : JsonText.scan echoReply = some tree) :
    passesLimit tree = false := by
  have hall : (JsonText.scan echoReply).all (fun t => !passesLimit t) = true := by decide +kernel
  rw [h] at hall
  simpa using hall

/-- The worker gives the 7 back. -/
theorem the_worker_is_a_remote_call_sample : ∃ r result,
    runWorker ascii passesLimit echoLimits echoPolls exitedInTime 3 = some (r, result) ∧
      (result.Interrupted echoLimits echoPolls exitedInTime r ∨
        result.Says (echo.call [] "init" [.int 7])) := by
  have hpayload : ∃ payload, encodeRequest echoLimits (.typed "init") (.typed [])
      (.typed [.int 7]) = .ok payload ∧ echo.main payload = some echoReply := by
    refine ⟨_, rfl, ?_⟩
    decide +kernel
  obtain ⟨payload, hask, hreply⟩ := hpayload
  obtain ⟨o, s, args, reply, ho, hs, hargs, -, hmain, h⟩ :=
    the_worker_is_a_remote_call echo (fun text => ascii_asciiBytes) hask
      fun args hargs => by
        cases hargs
        exact ⟨rfl, trivial, trivial⟩
  cases ho
  cases hs
  cases hargs
  cases hreply.symm.trans hmain
  refine ⟨_, _, rfl, h ?_ echoPolls exitedInTime 3 _ _ rfl rfl echoReply_shallow⟩
  intro v hv
  cases hv
  trivial

end FlynnAgents
