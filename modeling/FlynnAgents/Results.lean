-- Tool results and session terminations as JSON text (results.py, session.py):
-- what is written is read back, unless a string spells a surrogate pair.
import FlynnAgents.Lib.JsonPlain
import FlynnAgents.ParseJson
import FlynnAgents.Session

namespace FlynnAgents

open Text (ofString joined HasPair)
open JsonText (Tree joinTree)

/-! ## Results -/

inductive ImageDetail where
  | original
  | high
  | low
  | auto
  deriving DecidableEq, Repr

def ImageDetail.text : ImageDetail → Text
  | .original => ofString "original"
  | .high => ofString "high"
  | .low => ofString "low"
  | .auto => ofString "auto"

/-- The detail that a string names. -/
def ImageDetail.ofText (s : Text) : Option ImageDetail :=
  [ImageDetail.original, .high, .low, .auto].find? fun d => d.text = s

/-- An image reference that its constructor accepted. -/
structure ImageContent where
  url : Text
  detail : ImageDetail := .original
  accepted : blankText url = false
  deriving DecidableEq

inductive Content where
  | text (text : Text)
  | image (image : ImageContent)
  deriving DecidableEq

inductive ResultStatus where
  | ok
  | refused
  deriving DecidableEq, Repr

def ResultStatus.text : ResultStatus → Text
  | .ok => ofString "ok"
  | .refused => ofString "refused"

def ResultStatus.ofText (s : Text) : Option ResultStatus :=
  [ResultStatus.ok, .refused].find? fun d => d.text = s

/-- A tool result that its constructor accepted. -/
structure ToolResult where
  content : List Content := []
  dataJson : Option Text := none
  status : ResultStatus := .ok
  accepted : dataJson.all (fun data => (readJson data).isOk) = true

/-! ## The codec of results -/

def Content.tree : Content → Tree
  | .text s => .obj [(ofString "text", .str s), (ofString "type", .str (ofString "text"))]
  | .image i => .obj [(ofString "detail", .str i.detail.text),
      (ofString "type", .str (ofString "image")), (ofString "url", .str i.url)]

def ToolResult.tree (r : ToolResult) : Tree :=
  .obj [(ofString "content", .arr (r.content.map Content.tree)),
    (ofString "data_json", match r.dataJson with
      | none => .null
      | some data => .str data),
    (ofString "schema", .str (ofString "flynn.tool-result/v1")),
    (ofString "status", .str r.status.text)]

/-- `to_json` -/
def ToolResult.toJson (r : ToolResult) : Except Exn Text := dumps r.tree

/-- `TextContent(text)` -/
def createText : Option (Value Text) → Except Exn Content
  | some (.str s) => .ok (.text s)
  | _ => .error (contractError "Text content requires a string")

/-- `ImageContent(url, detail)` -/
def createImage (url detail : Option (Value Text)) : Except Exn Content :=
  match url with
  | some (.str s) =>
    if h : blankText s = false then
      match detail with
      | some (.str d) => match ImageDetail.ofText d with
        | some detail => .ok (.image ⟨s, detail, h⟩)
        | none => .error (contractError "Unsupported image detail")
      | _ => .error (contractError "Unsupported image detail")
    else .error (contractError "Image content requires a nonempty reference")
  | _ => .error (contractError "Image content requires a nonempty reference")

/-- A string value, to compare with. -/
def isStr (v : Option (Value Text)) (s : String) : Bool :=
  match v with
  | some (.str t) => decide (t = ofString s)
  | _ => false

/-- One block of `from_json`. -/
def readBlock : Value Text → Except Exn Content
  | .dict fields =>
    if isStr (Value.get (ofString "type") fields) "text" &&
        Value.keysAre [ofString "type", ofString "text"] fields then
      createText (Value.get (ofString "text") fields)
    else if isStr (Value.get (ofString "type") fields) "image" &&
        Value.keysAre [ofString "type", ofString "url", ofString "detail"] fields then
      createImage (Value.get (ofString "url") fields) (Value.get (ofString "detail") fields)
    else .error (contractError "Unsupported content block or key set")
  | _ => .error (contractError "Content block must be an object")

theorem accepted_of_ok {data : Text} {v : Value Text} (h : readJson data = .ok v) :
    (some data).all (fun data => (readJson data).isOk) = true := by
  rw [Option.all_some, h]
  rfl

/-- `ToolResult(content, data_json, status)` -/
def ToolResult.create (content : List Content) (data status : Option (Value Text)) :
    Except Exn ToolResult :=
  match status with
  | some (.str s) => match ResultStatus.ofText s with
    | some status => match data with
      | some .none => .ok ⟨content, none, status, rfl⟩
      | some (.str data) => match h : readJson data with
        | .ok _ => .ok ⟨content, some data, status, accepted_of_ok h⟩
        | .error e => .error e
      | _ => .error (contractError "Structured result data requires JSON text")
    | none => .error (contractError "Tool result status must be ok or refused")
  | _ => .error (contractError "Tool result status must be ok or refused")

/-- `from_json` -/
def ToolResult.fromJson (text : Text) : Except Exn ToolResult :=
  readJson text >>= fun document => match document with
  | .dict fields =>
    if !Value.keysAre [ofString "schema", ofString "status", ofString "content",
        ofString "data_json"] fields then
      .error (contractError "Tool result requires the exact v1 key set")
    else if !isStr (Value.get (ofString "schema") fields) "flynn.tool-result/v1" then
      .error (contractError "Unsupported tool result schema")
    else match Value.get (ofString "content") fields with
      | some (.list blocks) =>
        blocks.mapM readBlock >>= fun content =>
          ToolResult.create content (Value.get (ofString "data_json") fields)
            (Value.get (ofString "status") fields)
      | _ => .error (contractError "Tool result content must be an array")
  | _ => .error (contractError "Tool result requires the exact v1 key set")

/-! ## The codec of terminations -/

def TerminationKind.ofText (s : Text) : Option TerminationKind :=
  [TerminationKind.stopped, .budgetExhausted, .timedOut, .cancelled, .failed].find? fun k =>
    ofString k.text = s

/-- `SessionTermination(kind, reason, completed_steps)` of decoded values -/
def SessionTermination.create (kind reason steps : Option (Value Text)) :
    Except Exn SessionTermination :=
  match kind with
  | some (.str k) => match TerminationKind.ofText k with
    | some kind => match reason with
      | some (.str reason) => match steps with
        | some (.int steps) => TerminationFields.create ⟨kind, reason, steps⟩
        | _ =>
          if blankText reason then .error (contractError "Session termination requires a reason")
          else .error (contractError "Completed session steps must be a nonnegative integer")
      | _ => .error (contractError "Session termination requires a reason")
    | none => .error (contractError "Unsupported session termination kind")
  | _ => .error (contractError "Unsupported session termination kind")

/-- `from_json` -/
def SessionTermination.fromJson (text : Text) : Except Exn SessionTermination :=
  readJson text >>= fun document => match document with
  | .dict fields =>
    if !(Value.keysAre [ofString "schema", ofString "kind", ofString "reason",
        ofString "completed_steps"] fields &&
        isStr (Value.get (ofString "schema") fields) "flynn.session-termination/v1") then
      .error (contractError "Session termination requires the exact v1 record")
    else SessionTermination.create (Value.get (ofString "kind") fields)
      (Value.get (ofString "reason") fields) (Value.get (ofString "completed_steps") fields)
  | _ => .error (contractError "Session termination requires the exact v1 record")

/-! ## Reading back -/

@[simp]
theorem joined_detail (d : ImageDetail) : joined d.text = d.text := by
  cases d <;> exact Text.joined_ofString _

@[simp]
theorem joined_status (s : ResultStatus) : joined s.text = s.text := by
  cases s <;> exact Text.joined_ofString _

/-- What is written is parsed as the document with its surrogate pairs joined. -/
theorem readJson_dumps {t : Tree} {text : Text} (h : dumps t = .ok text) {v : Value Text}
    (hv : strictHooks.decode (joinTree t) = some v) : readJson text = .ok v := by
  obtain ⟨hwritable, rfl⟩ := dumps_ok.mp h
  rw [readJson_ok]
  unfold Hooks.loads
  rw [JsonText.scan_render hwritable]
  exact hv

/-- An object whose keys are distinct is decoded to a dict. -/
theorem decode_obj {fields : List (Text × Tree)} {values : List (Text × Value Text)}
    (h : strictHooks.decodeFields fields = some values) (hk : (values.map Prod.fst).Nodup) :
    strictHooks.decode (.obj fields) = some (.dict values) := by
  rw [Hooks.decode, h, Option.bind_some, strict_objectPairs]
  exact if_pos hk

/-- The value of a block that was written. -/
def Content.value : Content → Value Text
  | .text s => .dict [(ofString "text", .str (joined s)), (ofString "type", .str (ofString "text"))]
  | .image i => .dict [(ofString "detail", .str i.detail.text),
      (ofString "type", .str (ofString "image")), (ofString "url", .str (joined i.url))]

theorem decode_content (c : Content) : strictHooks.decode (joinTree c.tree) = some c.value := by
  cases c with
  | text s =>
    simp only [Content.tree, JsonText.joinTree, JsonText.joinFields, Text.joined_ofString]
    exact decode_obj rfl (show [ofString "text", ofString "type"].Nodup by decide)
  | image i =>
    simp only [Content.tree, JsonText.joinTree, JsonText.joinFields, Text.joined_ofString,
      joined_detail]
    exact decode_obj rfl (show [ofString "detail", ofString "type", ofString "url"].Nodup by decide)

theorem decode_contents (l : List Content) :
    strictHooks.decodeItems (JsonText.joinItems (l.map Content.tree)) =
      some (l.map Content.value) := by
  induction l with
  | nil => rfl
  | cons c l ih =>
    rw [List.map_cons, JsonText.joinItems, Hooks.decodeItems, decode_content, ih]
    rfl

/-- The value of a data field that was written. -/
def dataValue : Option Text → Value Text
  | none => .none
  | some data => .str (joined data)

/-- The fields of a result that was written. -/
def resultFields (r : ToolResult) : List (Text × Value Text) :=
  [(ofString "content", .list (r.content.map Content.value)),
    (ofString "data_json", dataValue r.dataJson),
    (ofString "schema", .str (ofString "flynn.tool-result/v1")),
    (ofString "status", .str r.status.text)]

theorem decode_result (r : ToolResult) :
    strictHooks.decode (joinTree r.tree) = some (.dict (resultFields r)) := by
  unfold ToolResult.tree resultFields
  simp only [JsonText.joinTree, JsonText.joinFields, Text.joined_ofString]
  apply decode_obj
  · rw [Hooks.decodeFields, Hooks.decode, decode_contents]
    cases r.dataJson with
    | none => simp [Hooks.decodeFields, Hooks.decode, JsonText.joinTree, dataValue]
    | some data => simp [Hooks.decodeFields, Hooks.decode, JsonText.joinTree, dataValue]
  · exact show [ofString "content", ofString "data_json", ofString "schema",
      ofString "status"].Nodup by decide

/-- A block as it is read back. -/
def Content.reread : Content → Except Exn Content
  | .text s => .ok (.text (joined s))
  | .image i =>
    if h : blankText (joined i.url) = false then .ok (.image ⟨joined i.url, i.detail, h⟩)
    else .error (contractError "Image content requires a nonempty reference")

theorem isStr_self (s : String) : isStr (some (.str (ofString s))) s = true :=
  decide_eq_true rfl

theorem ofText_detail (d : ImageDetail) : ImageDetail.ofText d.text = some d := by
  cases d <;> decide

theorem ofText_status (s : ResultStatus) : ResultStatus.ofText s.text = some s := by
  cases s <;> decide

theorem readBlock_image (url detail : Value Text) :
    readBlock (.dict [(ofString "detail", detail), (ofString "type", .str (ofString "image")),
      (ofString "url", url)]) = createImage (some url) (some detail) := by
  have htype : Value.get (ofString "type") [(ofString "detail", detail),
      (ofString "type", .str (ofString "image")), (ofString "url", url)] =
      some (.str (ofString "image")) := by
    rw [Value.get_there (by decide), Value.get_here]
  have hurl : Value.get (ofString "url") [(ofString "detail", detail),
      (ofString "type", .str (ofString "image")), (ofString "url", url)] = some url := by
    rw [Value.get_there (by decide), Value.get_there (by decide), Value.get_here]
  have hno : isStr (some (.str (ofString "image"))) "text" = false := by decide
  have hkeys : Value.sameNames [ofString "type", ofString "url", ofString "detail"]
      [ofString "detail", ofString "type", ofString "url"] = true := by decide
  simp only [readBlock, Value.keysAre, List.map_cons, List.map_nil]
  rw [htype, hurl, Value.get_here, hno, hkeys, isStr_self]
  rfl

theorem readBlock_text (s : Value Text) :
    readBlock (.dict [(ofString "text", s), (ofString "type", .str (ofString "text"))]) =
      createText (some s) := by
  have htype : Value.get (ofString "type") [(ofString "text", s),
      (ofString "type", .str (ofString "text"))] = some (.str (ofString "text")) := by
    rw [Value.get_there (by decide), Value.get_here]
  have hkeys : Value.sameNames [ofString "type", ofString "text"]
      [ofString "text", ofString "type"] = true := by decide
  simp only [readBlock, Value.keysAre, List.map_cons, List.map_nil]
  rw [htype, Value.get_here, hkeys, isStr_self]
  rfl

theorem readBlock_value (c : Content) : readBlock c.value = c.reread := by
  cases c with
  | text s => exact readBlock_text _
  | image i =>
    refine (readBlock_image _ _).trans ?_
    unfold createImage Content.reread
    simp only [ofText_detail]

theorem writable_content (c : Content) : JsonText.writable c.tree = true := by
  cases c <;> rfl

theorem toJson_ok (r : ToolResult) : ∃ text, r.toJson = .ok text := by
  have hcontent : JsonText.writableItems (r.content.map Content.tree) = true := by
    rw [JsonText.writableItems_iff]
    intro t ht
    obtain ⟨c, -, rfl⟩ := List.mem_map.mp ht
    exact writable_content c
  have hwritable : JsonText.writable r.tree = true := by
    unfold ToolResult.tree
    simp only [JsonText.writable, JsonText.writableFields, hcontent]
    cases r.dataJson <;> rfl
  exact ⟨_, dumps_ok.mpr ⟨hwritable, rfl⟩⟩

theorem mapM_values (l : List Content) :
    (l.map Content.value).mapM readBlock = l.mapM Content.reread := by
  induction l with
  | nil => rfl
  | cons c l ih => rw [List.map_cons, List.mapM_cons, List.mapM_cons, readBlock_value, ih]

/-- A result can always be written, and is read back block by block. -/
theorem fromJson_toJson (r : ToolResult) : ∃ text, r.toJson = .ok text ∧
    ToolResult.fromJson text = (r.content.mapM Content.reread >>= fun content =>
      ToolResult.create content (some (dataValue r.dataJson)) (some (.str r.status.text))) := by
  obtain ⟨text, htext⟩ := toJson_ok r
  refine ⟨text, htext, ?_⟩
  have hdata : Value.get (ofString "data_json") (resultFields r) = some (dataValue r.dataJson) := by
    unfold resultFields
    rw [Value.get_there (by decide), Value.get_here]
  have hschema : Value.get (ofString "schema") (resultFields r) =
      some (.str (ofString "flynn.tool-result/v1")) := by
    unfold resultFields
    rw [Value.get_there (by decide), Value.get_there (by decide), Value.get_here]
  have hstatus : Value.get (ofString "status") (resultFields r) = some (.str r.status.text) := by
    unfold resultFields
    rw [Value.get_there (by decide), Value.get_there (by decide), Value.get_there (by decide),
      Value.get_here]
  have hcontent : Value.get (ofString "content") (resultFields r) =
      some (.list (r.content.map Content.value)) := Value.get_here _ _ _
  have hkeys : Value.keysAre [ofString "schema", ofString "status", ofString "content",
      ofString "data_json"] (resultFields r) = true :=
    show Value.sameNames [ofString "schema", ofString "status", ofString "content",
      ofString "data_json"] [ofString "content", ofString "data_json", ofString "schema",
        ofString "status"] = true by decide
  have hread : readJson text = .ok (.dict (resultFields r)) :=
    readJson_dumps htext (decode_result r)
  unfold ToolResult.fromJson
  rw [hread]
  simp only [bind, Except.bind]
  rw [hkeys, hschema, isStr_self, hcontent, hdata, hstatus]
  simp only [Bool.not_true, Bool.false_eq_true, if_false, mapM_values]

/-- The result is written, and what is written is read back as it. -/
def ToolResult.RoundTrips (r : ToolResult) : Prop :=
  ∃ text, r.toJson = .ok text ∧ ToolResult.fromJson text = .ok r

/-- No string of the block spells a surrogate pair as two code points. -/
def Content.Unpaired : Content → Prop
  | .text s => ¬ HasPair s
  | .image i => ¬ HasPair i.url

/-- No string of the result does. -/
def ToolResult.Unpaired (r : ToolResult) : Prop :=
  (∀ c ∈ r.content, c.Unpaired) ∧ ∀ data, r.dataJson = some data → ¬ HasPair data

theorem reread_iff (c : Content) : c.reread = .ok c ↔ c.Unpaired := by
  cases c with
  | text s =>
    simp only [Content.reread, Content.Unpaired]
    rw [← Text.joined_eq_iff]
    simp
  | image i =>
    obtain ⟨url, detail, hurl⟩ := i
    simp only [Content.reread, Content.Unpaired]
    rw [← Text.joined_eq_iff]
    constructor
    · intro h
      split at h
      · injection h with h
        injection h with h
        injection h
      · cases h
    · intro h
      simp only [h]
      rw [dif_pos hurl]

theorem mapM_reread_iff (l : List Content) :
    l.mapM Content.reread = .ok l ↔ ∀ c ∈ l, c.Unpaired := by
  induction l with
  | nil => simp [pure, Except.pure]
  | cons c l ih =>
    rw [List.mapM_cons, List.forall_mem_cons, ← ih, ← reread_iff]
    cases hc : c.reread with
    | error e => simp [bind, Except.bind]
    | ok c' =>
      cases hl : l.mapM Content.reread with
      | error e => simp [bind, Except.bind]
      | ok l' => simp [bind, Except.bind, pure, Except.pure]

/-- Building a result from what was written of one gives that result exactly if the blocks and
the data are the same. -/
theorem create_iff (r : ToolResult) (content : List Content) :
    ToolResult.create content (some (dataValue r.dataJson)) (some (.str r.status.text)) = .ok r ↔
      content = r.content ∧ ∀ data, r.dataJson = some data → ¬ HasPair data := by
  obtain ⟨content', data, status, haccepted⟩ := r
  unfold ToolResult.create
  simp only [ofText_status]
  cases data with
  | none => simp [dataValue]
  | some data =>
    simp only [dataValue, Option.some.injEq, forall_eq']
    rw [← Text.joined_eq_iff]
    constructor
    · intro h
      split at h
      · injection h with h
        injection h with hc hd
        exact ⟨hc, Option.some.inj hd⟩
      · cases h
    · rintro ⟨rfl, hd⟩
      split
      · simp only [hd]
      · rename_i e he
        rw [Option.all_some, ← hd, he] at haccepted
        cases haccepted

theorem result_round_trips_iff (r : ToolResult) : r.RoundTrips ↔ r.Unpaired := by
  obtain ⟨text, htext, hread⟩ := fromJson_toJson r
  have hiff : r.RoundTrips ↔ ToolResult.fromJson text = .ok r := by
    constructor
    · rintro ⟨text', htext', h⟩
      rw [htext] at htext'
      cases htext'
      exact h
    · intro h
      exact ⟨text, htext, h⟩
  rw [hiff, hread]
  unfold ToolResult.Unpaired
  rw [← mapM_reread_iff]
  cases hc : r.content.mapM Content.reread with
  | error e => simp [bind, Except.bind]
  | ok content =>
    have hcreate := create_iff r content
    simp only [bind, Except.bind, Except.ok.injEq]
    exact hcreate

/-! ## Terminations read back -/

/-- The termination is written, and what is written is read back as it. -/
def SessionTermination.RoundTrips (r : SessionTermination) : Prop :=
  ∃ text, r.toJson = .ok text ∧ SessionTermination.fromJson text = .ok r

theorem ofText_kind (k : TerminationKind) : TerminationKind.ofText (ofString k.text) = some k := by
  cases k <;> decide

/-- The fields of a termination that was written. -/
def terminationFields (r : SessionTermination) : List (Text × Value Text) :=
  [(ofString "completed_steps", .int r.completedSteps),
    (ofString "kind", .str (ofString r.kind.text)), (ofString "reason", .str (joined r.reason)),
    (ofString "schema", .str (ofString "flynn.session-termination/v1"))]

theorem decode_termination (r : SessionTermination) :
    strictHooks.decode (joinTree r.tree) = some (.dict (terminationFields r)) := by
  unfold SessionTermination.tree terminationFields
  simp only [JsonText.joinTree, JsonText.joinFields, Text.joined_ofString]
  exact decode_obj rfl (show [ofString "completed_steps", ofString "kind", ofString "reason",
    ofString "schema"].Nodup by decide)

/-- A termination can be written exactly if its count has not too many digits. -/
theorem termination_toJson_iff (r : SessionTermination) :
    (∃ text, r.toJson = .ok text) ↔ tooLong r.completedSteps = false := by
  have hwritable : JsonText.writable r.tree = !tooLong r.completedSteps := by
    unfold SessionTermination.tree
    simp only [JsonText.writable, JsonText.writableFields, Bool.and_true, shortInt_eq]
  unfold SessionTermination.toJson
  simp only [dumps_ok, hwritable, Bool.not_eq_true', exists_and_left, exists_eq', and_true]

theorem termination_fromJson {r : SessionTermination} {text : Text} (h : r.toJson = .ok text) :
    SessionTermination.fromJson text = SessionTermination.create
      (some (.str (ofString r.kind.text))) (some (.str (joined r.reason)))
      (some (.int r.completedSteps)) := by
  have hkind : Value.get (ofString "kind") (terminationFields r) =
      some (.str (ofString r.kind.text)) := by
    unfold terminationFields
    rw [Value.get_there (by decide), Value.get_here]
  have hreason : Value.get (ofString "reason") (terminationFields r) =
      some (.str (joined r.reason)) := by
    unfold terminationFields
    rw [Value.get_there (by decide), Value.get_there (by decide), Value.get_here]
  have hschema : Value.get (ofString "schema") (terminationFields r) =
      some (.str (ofString "flynn.session-termination/v1")) := by
    unfold terminationFields
    rw [Value.get_there (by decide), Value.get_there (by decide), Value.get_there (by decide),
      Value.get_here]
  have hsteps : Value.get (ofString "completed_steps") (terminationFields r) =
      some (.int r.completedSteps) := Value.get_here _ _ _
  have hkeys : Value.keysAre [ofString "schema", ofString "kind", ofString "reason",
      ofString "completed_steps"] (terminationFields r) = true :=
    show Value.sameNames [ofString "schema", ofString "kind", ofString "reason",
      ofString "completed_steps"] [ofString "completed_steps", ofString "kind",
        ofString "reason", ofString "schema"] = true by decide
  have hread : readJson text = .ok (.dict (terminationFields r)) :=
    readJson_dumps h (decode_termination r)
  unfold SessionTermination.fromJson
  rw [hread]
  simp only [bind, Except.bind]
  rw [hkeys, hschema, isStr_self, hkind, hreason, hsteps]
  rfl

theorem termination_create_iff (r : SessionTermination) :
    SessionTermination.create (some (.str (ofString r.kind.text))) (some (.str (joined r.reason)))
      (some (.int r.completedSteps)) = .ok r ↔ ¬ HasPair r.reason := by
  unfold SessionTermination.create
  simp only [ofText_kind]
  rw [create_termination_iff, ← Text.joined_eq_iff]
  constructor
  · intro h
    exact congrArg TerminationFields.reason h
  · intro h
    rw [h]

theorem termination_round_trips_iff (r : SessionTermination) :
    r.RoundTrips ↔ ¬ HasPair r.reason ∧ tooLong r.completedSteps = false := by
  rw [← termination_toJson_iff, ← termination_create_iff]
  constructor
  · rintro ⟨text, htext, hread⟩
    rw [termination_fromJson htext] at hread
    exact ⟨hread, text, htext⟩
  · rintro ⟨hcreate, text, htext⟩
    refine ⟨text, htext, ?_⟩
    rw [termination_fromJson htext]
    exact hcreate

/-- What a session records is what `to_json` writes. -/
theorem recorded_toJson {t : SessionTermination} (h : tooLong t.completedSteps = false) :
    t.toJson = .ok (ofString t.recorded) := by
  obtain ⟨text, htext⟩ := (termination_toJson_iff t).mpr h
  obtain ⟨-, rfl⟩ := dumps_ok.mp htext
  unfold SessionTermination.recorded
  rwa [Text.ofString_chars fun c hc => Nat.lt_trans (JsonText.render_ascii _ c hc) (by decide)]

/-- Whatever end a session records, its text is read back as the record. -/
theorem recorded_end_is_read_back (t : SessionTermination) (hreason : ¬ HasPair t.reason)
    (hcount : tooLong t.completedSteps = false) :
    SessionTermination.fromJson (ofString t.recorded) = .ok t := by
  obtain ⟨text, htext, hread⟩ := (termination_round_trips_iff t).mpr ⟨hreason, hcount⟩
  rw [recorded_toJson hcount] at htext
  cases htext
  exact hread

/-! ## What the codecs lose -/

/-- The codecs lose nothing exactly where no string spells a surrogate pair as two code points,
and the step count of a termination can be written. -/
theorem codecs_lose_nothing_iff (r : ToolResult) (t : SessionTermination) :
    (r.RoundTrips ↔ r.Unpaired) ∧
    (t.RoundTrips ↔ ¬ HasPair t.reason ∧ tooLong t.completedSteps = false) :=
  ⟨result_round_trips_iff r, termination_round_trips_iff t⟩

/-- A result whose text is a high surrogate and a low one. -/
def pairResult : ToolResult where
  content := [.text [0xd800, 0xdc00]]
  accepted := rfl

/-- It is read back with one character in place of two. -/
theorem a_surrogate_pair_is_joined : ¬ pairResult.RoundTrips := by
  rw [result_round_trips_iff]
  rintro ⟨h, -⟩
  exact h _ List.mem_cons_self ⟨[], 0xd800, 0xdc00, [], rfl, by decide, by decide⟩

end FlynnAgents
