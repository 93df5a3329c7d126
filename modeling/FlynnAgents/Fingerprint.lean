-- The settings that the DeepSeek adapter describes (deepseek.py): what of a request the
-- digest of its configuration depends on.
import FlynnAgents.Configuration
import FlynnAgents.DeepSeekLaws

namespace FlynnAgents

open Text (ofString)
open JsonText (Tree)

/-! ## The body of a request -/

mutual

/-- A value with its strings as sequences of code points. -/
def Value.inText : Value String → Value Text
  | .none => .none
  | .bool b => .bool b
  | .int n => .int n
  | .float x => .float x
  | .str s => .str (ofString s)
  | .list vs => .list (inTextItems vs)
  | .dict fields => .dict (inTextFields fields)

def Value.inTextItems : List (Value String) → List (Value Text)
  | [] => []
  | v :: vs => v.inText :: inTextItems vs

def Value.inTextFields : List (String × Value String) → List (Text × Value Text)
  | [] => []
  | (k, v) :: fields => (ofString k, v.inText) :: inTextFields fields

end

/-- A dict of the source, by its keys. -/
def dictValue (fields : List (String × Value Text)) : Value Text :=
  .dict (fields.map fun f => (ofString f.1, f.2))

def strValue (s : String) : Value Text := .str (ofString s)

def FunctionTool.body (f : FunctionTool) : Value Text :=
  dictValue [("type", strValue "function"),
    ("function", dictValue [("name", strValue f.name), ("description", strValue f.description),
      ("parameters", .dict (Value.inTextFields f.parameters))])]

def ImageInput.body (image : ImageInput) : Value Text :=
  dictValue [("type", strValue "image_url"),
    ("image_url", dictValue [("url", strValue image.url), ("detail", strValue image.detail)])]

/-- The text of the user's message, of a payload whose revision can be written. -/
def Payload.userText (p : Payload) : Text :=
  JsonText.render JsonText.spaced (dictValue [("objective", strValue p.objective),
    ("accepted_state", dictValue [("revision", .int p.base.revision),
      ("value", strValue p.base.value)]),
    ("observation", (p.observation.map strValue).getD .none)]).document

/-- The messages of the body. -/
def Payload.messages (p : Payload) : Value Text :=
  .list [dictValue [("role", strValue "system"), ("content", strValue p.systemInstruction)],
    dictValue [("role", strValue "user"), ("content", .list
      (dictValue [("type", strValue "text"), ("text", .str p.userText)] ::
        p.images.map ImageInput.body))]]

/-- The dict that `_payload` returns. -/
def Payload.body (p : Payload) : List (Text × Value Text) :=
  [(ofString "model", strValue p.model), (ofString "messages", p.messages),
    (ofString "tools", .list (p.tools.map FunctionTool.body)),
    (ofString "stream", .bool false), (ofString "max_tokens", .int p.maxTokens),
    (ofString "thinking", dictValue [("type",
      strValue (if p.reasoningEffort.isNone then "disabled" else "enabled"))])] ++
  match p.reasoningEffort with
  | some effort => [(ofString "reasoning_effort", strValue effort.text)]
  | none => [(ofString "tool_choice", strValue "required")]

/-! ## The configuration -/

/-- `payload["messages"][0]["content"]` -/
def firstContent (payload : List (Text × Value Text)) : Option (Value Text) := do
  let messages ← Value.get (ofString "messages") payload
  let first ← (← messages.asList).head?
  Value.get (ofString "content") (← first.asDict)

/-- The settings of `_configuration`: the payload without what belongs to the request. -/
def requestSettings (payload : List (Text × Value Text)) (content : Value Text) :
    List (Text × Value Text) :=
  setItem (ofString "system_instruction") content
    (payload.filter fun f =>
      f.1 ≠ ofString "model" ∧ f.1 ≠ ofString "messages" ∧ f.1 ≠ ofString "tools")

/-- `_configuration` -/
def configurationOf (payload : List (Text × Value Text)) : Except Exn InferenceConfiguration :=
  match firstContent payload, Value.get (ofString "model") payload with
  | some content, some model =>
    match JsonText.write JsonText.spaced
      (Value.dict (requestSettings payload content)).document with
    | some settings =>
      InferenceConfiguration.create (.typed (ofString "deepseek"))
        (match model.asStr with
          | some m => .typed m
          | none => .other)
        (.typed (ofString "flynn.deepseek-chat/v1")) settings
    | none => .error tooManyDigits
  | _, _ => .error (otherError "KeyError" "messages")

/-- `configuration` -/
def DeepSeekAdapter.configuration (a : DeepSeekAdapter) (loads : Loads)
    (request : InferenceRequest) : Except Exn InferenceConfiguration := do
  let p ← a.payload loads request
  configurationOf p.body

/-! ## The settings of a payload -/

/-- What is left of the body, and the system instruction. -/
def Payload.settingsFields (p : Payload) : List (Text × Value Text) :=
  [(ofString "stream", .bool false), (ofString "max_tokens", .int p.maxTokens),
    (ofString "thinking", dictValue [("type",
      strValue (if p.reasoningEffort.isNone then "disabled" else "enabled"))])] ++
  (match p.reasoningEffort with
  | some effort => [(ofString "reasoning_effort", strValue effort.text)]
  | none => [(ofString "tool_choice", strValue "required")]) ++
  [(ofString "system_instruction", strValue p.systemInstruction)]

theorem requestSettings_body (p : Payload) :
    requestSettings p.body (strValue p.systemInstruction) = p.settingsFields := by
  unfold Payload.body Payload.settingsFields
  cases p.reasoningEffort <;> rfl

theorem plain_ofString (s : String) : Text.Plain (ofString s) := by
  intro c hc
  obtain ⟨ch, -, rfl⟩ := List.mem_map.mp hc
  unfold Text.high Text.low
  rw [Text.ofChar_val]
  rcases ch.valid with h | ⟨h, -⟩
  · have : ch.toNat < 0xd800 := h
    exact ⟨decide_eq_false (by omega), decide_eq_false (by omega)⟩
  · have : 0xdfff < ch.toNat := h
    exact ⟨decide_eq_false (by omega), decide_eq_false (by omega)⟩

theorem ofString_inj {s t : String} : ofString s = ofString t ↔ s = t := by
  constructor
  · intro h
    have hchar : Function.Injective Text.ofChar := by
      intro c d hcd
      have hval := congrArg Fin.val hcd
      rw [Text.ofChar_val, Text.ofChar_val] at hval
      exact Char.ext (UInt32.toNat_inj.mp hval)
    exact String.toList_injective (List.map_injective_iff.mpr hchar h)
  · rintro rfl
    rfl

theorem settingsFields_nodup (p : Payload) : (p.settingsFields.map Prod.fst).Nodup := by
  unfold Payload.settingsFields
  cases p.reasoningEffort with
  | none => exact show [ofString "stream", ofString "max_tokens", ofString "thinking",
      ofString "tool_choice", ofString "system_instruction"].Nodup by decide
  | some effort => exact show [ofString "stream", ofString "max_tokens", ofString "thinking",
      ofString "reasoning_effort", ofString "system_instruction"].Nodup by decide

theorem settings_unique (p : Payload) : (Value.dict p.settingsFields).unique = true := by
  rw [Value.unique, decide_eq_true (settingsFields_nodup p), Bool.true_and]
  unfold Payload.settingsFields
  cases p.reasoningEffort <;> rfl

theorem settings_readable (p : Payload) : (Value.dict p.settingsFields).Readable := by
  have hno := Text.ofString_no_pair
  rw [Value.Readable, readableFields_iff]
  unfold Payload.settingsFields
  cases p.reasoningEffort <;>
    simp [dictValue, strValue, Value.Readable, Value.ReadableFields, hno]

theorem get_maxTokens (p : Payload) :
    Value.get (ofString "max_tokens") p.settingsFields = some (.int p.maxTokens) := by
  unfold Payload.settingsFields
  cases p.reasoningEffort <;> rfl

theorem get_systemInstruction (p : Payload) :
    Value.get (ofString "system_instruction") p.settingsFields =
      some (strValue p.systemInstruction) := by
  unfold Payload.settingsFields
  cases p.reasoningEffort <;> rfl

theorem get_reasoningEffort (p : Payload) :
    Value.get (ofString "reasoning_effort") p.settingsFields =
      p.reasoningEffort.map fun effort => strValue effort.text := by
  unfold Payload.settingsFields
  cases p.reasoningEffort <;> rfl

theorem effort_text_inj {e e' : ReasoningEffort} (h : e.text = e'.text) : e = e' := by
  cases e <;> cases e' <;> first | rfl | exact absurd h (by decide)

theorem same_refl {v : Value Text} (h : v.unique = true) : v.same v = true :=
  (same_iff_sorted h h).mpr rfl

/-- The settings of two payloads are the same exactly if these three are. -/
theorem settings_same_iff (p p' : Payload) :
    (Value.dict p.settingsFields).same (.dict p'.settingsFields) = true ↔
      p.systemInstruction = p'.systemInstruction ∧ p.reasoningEffort = p'.reasoningEffort ∧
        p.maxTokens = p'.maxTokens := by
  constructor
  · intro h
    obtain ⟨hkeys, hall⟩ := (Value.same_dict (settingsFields_nodup p)
      (settingsFields_nodup p')).mp h
    have hfield : ∀ {k : Text} {w : Value Text}, Value.get k p'.settingsFields = some w →
        ∃ v, Value.get k p.settingsFields = some v ∧ v.same w = true := fun hw =>
      hall _ _ ((Value.get_eq_some_iff (settingsFields_nodup p')).mp hw)
    obtain ⟨v, hv, hsame⟩ := hfield (get_maxTokens p')
    rw [get_maxTokens, Option.some.injEq] at hv
    subst hv
    have htokens : p.maxTokens = p'.maxTokens := by simpa using hsame
    obtain ⟨v, hv, hsame⟩ := hfield (get_systemInstruction p')
    rw [get_systemInstruction, Option.some.injEq] at hv
    subst hv
    have hsystem : p.systemInstruction = p'.systemInstruction := by
      simpa [strValue, ofString_inj] using hsame
    refine ⟨hsystem, ?_, htokens⟩
    have hmem : (Value.get (ofString "reasoning_effort") p.settingsFields).isSome =
        (Value.get (ofString "reasoning_effort") p'.settingsFields).isSome := by
      rw [Bool.eq_iff_iff, Value.get_isSome_iff, Value.get_isSome_iff]
      exact (Value.sameNames_iff.mp hkeys _).symm
    have heffort := get_reasoningEffort p
    have heffort' := get_reasoningEffort p'
    cases hp' : p'.reasoningEffort with
    | none =>
      rw [heffort, heffort', hp', Option.isSome_map] at hmem
      exact Option.isSome_eq_false_iff.mp hmem |> Option.isNone_iff_eq_none.mp
    | some effort' =>
      rw [hp'] at heffort'
      obtain ⟨v, hv, hsame⟩ := hfield heffort'
      rw [heffort] at hv
      obtain ⟨effort, hp, rfl⟩ := Option.map_eq_some_iff.mp hv
      rw [hp, Option.some.injEq]
      have htext : effort.text = effort'.text := by simpa [strValue, ofString_inj] using hsame
      exact effort_text_inj htext
  · rintro ⟨hsystem, heffort, htokens⟩
    have hfields : p.settingsFields = p'.settingsFields := by
      unfold Payload.settingsFields
      rw [hsystem, heffort, htokens]
    rw [hfields]
    exact same_refl (settings_unique p')

/-! ## The digest of a request -/

theorem firstContent_body (p : Payload) :
    firstContent p.body = some (strValue p.systemInstruction) := by
  have hmessages : Value.get (ofString "messages") p.body = some p.messages := rfl
  unfold firstContent
  rw [hmessages]
  simp [Payload.messages, dictValue, Value.asList, Value.asDict, Value.get, ofString_inj]

/-- What the configuration of a payload is made from. -/
theorem configurationOf_ok {p : Payload} {c : InferenceConfiguration}
    (h : configurationOf p.body = .ok c) : ∃ text,
      InferenceConfiguration.create (.typed (ofString "deepseek")) (.typed (ofString p.model))
        (.typed (ofString "flynn.deepseek-chat/v1")) text = .ok c ∧ Text.Plain text ∧
      loads text = some (.dict p.settingsFields) := by
  have hcontent := firstContent_body p
  have hmodel : Value.get (ofString "model") p.body = some (strValue p.model) := rfl
  unfold configurationOf at h
  rw [hcontent, hmodel] at h
  simp only [requestSettings_body] at h
  split at h
  · rename_i text htext
    exact ⟨text, h, (JsonText.write_ascii htext).plain,
      loads_write (settings_unique p) (settings_readable p) htext⟩
  · cases h

theorem created_namesPlain {provider model protocol : String} {text : Text}
    {c : InferenceConfiguration} (h : InferenceConfiguration.create (.typed (ofString provider))
      (.typed (ofString model)) (.typed (ofString protocol)) text = .ok c) : c.NamesPlain := by
  obtain ⟨hprovider, hmodel, hprotocol, -⟩ := create_configuration_ok.mp h
  unfold InferenceConfiguration.NamesPlain
  rw [← Dyn.typed.inj hprovider, ← Dyn.typed.inj hmodel, ← Dyn.typed.inj hprotocol]
  exact ⟨plain_ofString _, plain_ofString _, plain_ofString _⟩

theorem payload_settings {a : DeepSeekAdapter} {loads : Loads} {request : InferenceRequest}
    {p : Payload} (h : a.payload loads request = .ok p) : p.model = a.model ∧
      p.systemInstruction = a.systemInstruction ∧ p.reasoningEffort = a.reasoningEffort ∧
      a.outputLimit request = .ok p.maxTokens := by
  unfold DeepSeekAdapter.payload at h
  obtain ⟨tools, -, h⟩ := except_bind_ok h
  split at h
  · cases h
  split at h
  · cases h
  obtain ⟨limit, hlimit, h⟩ := except_bind_ok h
  cases h
  exact ⟨rfl, rfl, rfl, hlimit⟩

/-- For two requests that two adapters describe: the hash inputs agree exactly if the four
settings do. -/
theorem request_identified {a a' : DeepSeekAdapter} {tools tools' : Loads}
    {request request' : InferenceRequest} {c c' : InferenceConfiguration}
    (h : a.configuration tools request = .ok c)
    (h' : a'.configuration tools' request' = .ok c') :
    c.hashInput = c'.hashInput ↔ a.model = a'.model ∧
      a.systemInstruction = a'.systemInstruction ∧ a.reasoningEffort = a'.reasoningEffort ∧
      a.outputLimit request = a'.outputLimit request' := by
  obtain ⟨p, hp, hc⟩ := except_bind_ok h
  obtain ⟨p', hp', hc'⟩ := except_bind_ok h'
  obtain ⟨text, hcreate, hplain, hloads⟩ := configurationOf_ok hc
  obtain ⟨text', hcreate', hplain', hloads'⟩ := configurationOf_ok hc'
  obtain ⟨hmodel, hsystem, heffort, hlimit⟩ := payload_settings hp
  obtain ⟨hmodel', hsystem', heffort', hlimit'⟩ := payload_settings hp'
  have hidentified := (configuration_identified hcreate hcreate' (created_namesPlain hcreate)
    (created_namesPlain hcreate') hplain hplain').2
  rw [hidentified, hloads, hloads', ← hmodel, ← hmodel', ← hsystem, ← hsystem', ← heffort,
    ← heffort', hlimit, hlimit']
  simp only [Dyn.typed.injEq, ofString_inj, true_and, Option.some.injEq, Except.ok.injEq]
  refine and_congr_right fun _ => ?_
  rw [← settings_same_iff]
  constructor
  · rintro ⟨v, w, rfl, rfl, hsame⟩
    exact hsame
  · exact fun hsame => ⟨_, _, rfl, rfl, hsame⟩

/-! ## What is described -/

/-- A dict can be written if its values can. -/
theorem writable_dict {fields : List (Text × Value Text)}
    (h : ∀ f ∈ fields, JsonText.writable f.2.document = true) :
    JsonText.writable (Value.dict fields).document = true := by
  change JsonText.writableFields (Value.documentFields fields) = true
  induction fields with
  | nil => rfl
  | cons f fields ih =>
    obtain ⟨hf, hfields⟩ := List.forall_mem_cons.mp h
    exact Bool.and_eq_true_iff.mpr ⟨hf, ih hfields⟩

theorem writable_int {n : Int} (h : tooLong n = false) :
    JsonText.writable (Value.int n : Value Text).document = true := by
  rw [Value.document, JsonText.writable, shortInt_eq, h]
  rfl

theorem settings_writable {p : Payload} (h : tooLong p.maxTokens = false) :
    ∀ f ∈ p.settingsFields, f.2.sorted = f.2 ∧ JsonText.writable f.2.document = true := by
  have hsingle : ∀ (key : String) (s : String), (dictValue [(key, strValue s)]).sorted =
      dictValue [(key, strValue s)] := by
    intro key s
    simp [dictValue, strValue, Value.sorted, Value.sortedFields]
  unfold Payload.settingsFields
  cases p.reasoningEffort with
  | none =>
    simp only [List.cons_append, List.nil_append, List.forall_mem_cons, hsingle, true_and]
    exact ⟨⟨rfl, rfl⟩, ⟨rfl, writable_int h⟩, rfl, ⟨rfl, rfl⟩, ⟨rfl, rfl⟩,
      fun f hf => by cases hf⟩
  | some effort =>
    simp only [List.cons_append, List.nil_append, List.forall_mem_cons, hsingle, true_and]
    exact ⟨⟨rfl, rfl⟩, ⟨rfl, writable_int h⟩, rfl, ⟨rfl, rfl⟩, ⟨rfl, rfl⟩,
      fun f hf => by cases hf⟩

/-- A payload with a model and a limit that can be written is described. -/
theorem configurationOf_exists {p : Payload} (hlimit : tooLong p.maxTokens = false)
    (hmodel : blank p.model = false) : ∃ c, configurationOf p.body = .ok c := by
  have hwritable : JsonText.writable (Value.dict p.settingsFields).document = true :=
    writable_dict fun f hf => (settings_writable hlimit f hf).2
  obtain ⟨text, htext⟩ : ∃ text, JsonText.write JsonText.spaced
      (Value.dict p.settingsFields).document = some text :=
    ⟨_, JsonText.write_eq_some.mpr ⟨hwritable, rfl⟩⟩
  have hloads := loads_write (settings_unique p) (settings_readable p) htext
  have hsorted : Value.sortedFields p.settingsFields = p.settingsFields :=
    sortedFields_fixed fun f hf => (settings_writable hlimit f hf).1
  have hperm := List.mergeSort_perm p.settingsFields keyLe
  have hcanonical : ∃ canonical, JsonText.write JsonText.compact
      (Value.dict (p.settingsFields.mergeSort keyLe)).document = some canonical :=
    ⟨_, JsonText.write_eq_some.mpr ⟨writable_dict fun f hf =>
      (settings_writable hlimit f (hperm.subset hf)).2, rfl⟩⟩
  obtain ⟨canonical, hcanonical⟩ := hcanonical
  have hsettings : canonicalSettings text = .ok canonical := by
    refine canonicalSettings_ok.mpr ⟨_, hloads, ?_, rfl⟩
    rw [Value.dumpsSorted, Value.sorted, hsorted]
    exact hcanonical
  have hnamed : blankText (ofString "deepseek") = false ∧ blankText (ofString p.model) = false ∧
      blankText (ofString "flynn.deepseek-chat/v1") = false := by
    rw [blankText_ofString, blankText_ofString, blankText_ofString]
    exact ⟨by decide, hmodel, by decide⟩
  refine ⟨⟨ofString "deepseek", ofString p.model, ofString "flynn.deepseek-chat/v1", canonical,
    hnamed, text, hsettings⟩, ?_⟩
  have hget : Value.get (ofString "model") p.body = some (strValue p.model) := rfl
  unfold configurationOf
  rw [firstContent_body, hget]
  simp only [requestSettings_body, htext]
  exact create_configuration_ok.mpr ⟨rfl, rfl, rfl, hsettings⟩

/-- A request for known tools that asks for no images is described. -/
theorem configuration_exists {a : DeepSeekAdapter} {tools : Loads} {request : InferenceRequest}
    {functions : List FunctionTool} {limit : Int}
    (htools : a.functions tools request = .ok functions)
    (hrevision : tooLong request.base.revision = false) (himages : request.images = [])
    (hlimit : a.outputLimit request = .ok limit) (hshort : tooLong limit = false) :
    ∃ c, a.configuration tools request = .ok c := by
  have hpayload : a.payload tools request = .ok ⟨a.model, a.systemInstruction,
      request.objective, request.base, request.observation, request.images, functions, limit,
      a.reasoningEffort⟩ := by
    unfold DeepSeekAdapter.payload
    simp [htools, hrevision, himages, hlimit, bind, Except.bind, pure, Except.pure]
  unfold DeepSeekAdapter.configuration
  rw [hpayload]
  exact configurationOf_exists hshort a.model_named

/-! ## The digest of a payload -/

/-- The settings of a payload in the order of their keys. -/
def Payload.sortedSettings (p : Payload) : List (Text × Value Text) :=
  (ofString "max_tokens", .int p.maxTokens) ::
  match p.reasoningEffort with
  | none => [(ofString "stream", .bool false),
      (ofString "system_instruction", strValue p.systemInstruction),
      (ofString "thinking", dictValue [("type", strValue "disabled")]),
      (ofString "tool_choice", strValue "required")]
  | some effort => [(ofString "reasoning_effort", strValue effort.text),
      (ofString "stream", .bool false),
      (ofString "system_instruction", strValue p.systemInstruction),
      (ofString "thinking", dictValue [("type", strValue "enabled")])]

theorem sortedSettings_perm (p : Payload) : p.settingsFields.Perm p.sortedSettings := by
  have hnodup := List.Nodup.of_map Prod.fst (settingsFields_nodup p)
  have hkeys : (p.sortedSettings.map Prod.fst).Nodup := by
    unfold Payload.sortedSettings
    cases p.reasoningEffort with
    | none => exact show [ofString "max_tokens", ofString "stream", ofString "system_instruction",
        ofString "thinking", ofString "tool_choice"].Nodup by decide
    | some effort => exact show [ofString "max_tokens", ofString "reasoning_effort",
        ofString "stream", ofString "system_instruction", ofString "thinking"].Nodup by decide
  rw [List.perm_ext_iff_of_nodup hnodup (List.Nodup.of_map Prod.fst hkeys)]
  intro f
  unfold Payload.settingsFields Payload.sortedSettings
  cases p.reasoningEffort with
  | none =>
    simp only [List.cons_append, List.nil_append, List.mem_cons, List.not_mem_nil, or_false,
      Option.isNone_none, if_true]
    exact iff_of_eq (by ac_rfl)
  | some effort =>
    simp only [List.cons_append, List.nil_append, List.mem_cons, List.not_mem_nil, or_false,
      Option.isNone_some, Bool.false_eq_true, if_false]
    exact iff_of_eq (by ac_rfl)

theorem sortedSettings_sorted (p : Payload) :
    (p.sortedSettings.map Prod.fst).Pairwise fun k k' => decide (k ≤ k') = true := by
  unfold Payload.sortedSettings
  cases p.reasoningEffort with
  | none => exact show [ofString "max_tokens", ofString "stream", ofString "system_instruction",
      ofString "thinking", ofString "tool_choice"].Pairwise _ by decide
  | some effort => exact show [ofString "max_tokens", ofString "reasoning_effort",
      ofString "stream", ofString "system_instruction", ofString "thinking"].Pairwise _ by decide

theorem mergeSort_settings (p : Payload) :
    p.settingsFields.mergeSort keyLe = p.sortedSettings := by
  rw [(mergeSort_eq_iff (settingsFields_nodup p)).mpr (sortedSettings_perm p)]
  exact List.mergeSort_of_pairwise (List.pairwise_map.mp (sortedSettings_sorted p))

theorem settings_document (p : Payload) :
    (Value.dict p.sortedSettings).document = p.settings := by
  unfold Payload.sortedSettings Payload.settings
  cases p.reasoningEffort <;> rfl

/-- The canonical settings are the text that the digest of the payload is taken of. -/
theorem dumpsSorted_settings {p : Payload} (h : tooLong p.maxTokens = false) :
    (Value.dict p.settingsFields).dumpsSorted =
      some (JsonText.render JsonText.compact p.settings) := by
  have hfixed : Value.sortedFields p.settingsFields = p.settingsFields :=
    sortedFields_fixed fun f hf => (settings_writable h f hf).1
  have hperm := sortedSettings_perm p
  rw [Value.dumpsSorted, Value.sorted, hfixed, mergeSort_settings, JsonText.write_eq_some,
    settings_document]
  refine ⟨?_, rfl⟩
  rw [← settings_document]
  exact writable_dict fun f hf => (settings_writable h f (hperm.symm.subset hf)).2

/-- What a configuration of the adapter is hashed as. -/
theorem sha256_eq {c : InferenceConfiguration} {model : String} {settings : Tree}
    (hp : c.provider = ofString "deepseek") (hm : c.model = ofString model)
    (hq : c.protocol = ofString "flynn.deepseek-chat/v1")
    (hs : c.settingsJson = JsonText.render JsonText.compact settings) :
    c.sha256 = .ok (configurationSha256 model settings) := by
  have hdumps : c.hashInput = .ok (JsonText.render JsonText.compact c.record) :=
    dumps_ok.mpr ⟨rfl, rfl⟩
  unfold InferenceConfiguration.sha256
  rw [hdumps]
  unfold InferenceConfiguration.record configurationSha256
  rw [hp, hm, hq, hs]
  rfl

/-- The digest of the payload is the one of its configuration. -/
theorem configuration_agrees {p : Payload} {c : InferenceConfiguration}
    (h : configurationOf p.body = .ok c) (hlimit : tooLong p.maxTokens = false) :
    c.sha256 = .ok (configurationSha256 p.model p.settings) := by
  obtain ⟨text, hcreate, -, hloads⟩ := configurationOf_ok h
  obtain ⟨hp, hm, hq, hsettings⟩ := create_configuration_ok.mp hcreate
  obtain ⟨v, hv, hdumps, -⟩ := canonicalSettings_ok.mp hsettings
  rw [hloads, Option.some.injEq] at hv
  subst hv
  rw [dumpsSorted_settings hlimit, Option.some.injEq] at hdumps
  exact sha256_eq (Dyn.typed.inj hp).symm (Dyn.typed.inj hm).symm (Dyn.typed.inj hq).symm
    hdumps.symm

/-- The fingerprint says the settings and nothing else. What the constructor
stores is accepted as it is, and the hash inputs of two configurations, made of
texts without surrogates, agree exactly if the names are equal and the settings
decode to the same object. For two requests that the adapter describes, under
any settings of its own, they agree exactly if the model, the system
instruction, the reasoning effort and the output ceiling do. -/
theorem the_fingerprint_identifies_the_settings :
    (∀ {p m q p' m' q' : Dyn Text} {s s' : Text} {c c' : InferenceConfiguration},
      InferenceConfiguration.create p m q s = .ok c →
      InferenceConfiguration.create p' m' q' s' = .ok c' → c.NamesPlain → c'.NamesPlain →
      Text.Plain s → Text.Plain s' →
      InferenceConfiguration.create p m q c.settingsJson = .ok c ∧
        (∃ payload, c.hashInput = .ok payload) ∧
        (c.hashInput = c'.hashInput ↔ p = p' ∧ m = m' ∧ q = q' ∧
          ∃ v w, loads s = some v ∧ loads s' = some w ∧ v.same w = true)) ∧
    ∀ {a a' : DeepSeekAdapter} {tools tools' : Loads} {request request' : InferenceRequest}
      {c c' : InferenceConfiguration}, a.configuration tools request = .ok c →
      a'.configuration tools' request' = .ok c' →
      (c.hashInput = c'.hashInput ↔ a.model = a'.model ∧
        a.systemInstruction = a'.systemInstruction ∧ a.reasoningEffort = a'.reasoningEffort ∧
        a.outputLimit request = a'.outputLimit request') := by
  refine ⟨fun {p m q p' m' q' s s' c c'} h h' hc hc' hs hs' => ?_, request_identified⟩
  obtain ⟨hfixed, hiff⟩ := configuration_identified h h' hc hc' hs hs'
  exact ⟨hfixed, ⟨_, rfl⟩, hiff⟩

/-- The adapter of the samples with another limit. -/
def shorterAdapter : DeepSeekAdapter where
  apiKey := "sk-1"
  systemInstruction := "Choose one tool call."
  maxTokens := 100
  accepted := by decide

/-- The two adapters describe one request by two hash inputs. -/
theorem the_fingerprint_identifies_the_settings_sample : ∃ c c' : InferenceConfiguration,
    sampleAdapter.configuration sampleLoads readRequest = .ok c ∧
      shorterAdapter.configuration sampleLoads readRequest = .ok c' ∧
      InferenceConfiguration.create (.typed c.provider) (.typed c.model) (.typed c.protocol)
        c.settingsJson = .ok c ∧ c.hashInput ≠ c'.hashInput := by
  obtain ⟨c, hc⟩ := configuration_exists (readRequest_functions sampleAdapter) (by decide) rfl
    rfl (by decide)
  obtain ⟨c', hc'⟩ := configuration_exists (readRequest_functions shorterAdapter) (by decide) rfl
    rfl (by decide)
  obtain ⟨p, -, hp⟩ := except_bind_ok hc
  obtain ⟨text, hcreate, hplain, -⟩ := configurationOf_ok hp
  have hnames := created_namesPlain hcreate
  have hfixed := (the_fingerprint_identifies_the_settings.1 hcreate hcreate hnames hnames hplain
    hplain).1
  obtain ⟨hprovider, hmodel, hprotocol, -⟩ := create_configuration_ok.mp hcreate
  rw [hprovider, hmodel, hprotocol] at hfixed
  refine ⟨c, c', hc, hc', hfixed, fun heq => ?_⟩
  have hlimit : (Except.ok 512 : Except Exn Int) = .ok 100 :=
    ((the_fingerprint_identifies_the_settings.2 hc hc').mp heq).2.2.2
  exact absurd (Except.ok.inj hlimit) (by decide)

end FlynnAgents
