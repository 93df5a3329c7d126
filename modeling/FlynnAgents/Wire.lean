-- What the provider reads of a request (deepseek.py, `_payload`): the body says the request.
import FlynnAgents.Records
import FlynnAgents.Fetch

namespace FlynnAgents

open Text (ofString)

/-! ## The reader -/

/-- A tool that the provider may call. -/
structure OfferedTool where
  name : String
  description : String
  parameters : List (Text × Value Text)

/-- What the text of a user's message asks. -/
structure UserText where
  objective : String
  base : State
  observation : Option String

/-- What a request asks of the provider. -/
structure WireRequest where
  model : String
  systemInstruction : String
  asked : UserText
  images : List ImageInput
  tools : List OfferedTool
  maxTokens : Int
  reasoningEffort : Option String
  mustCall : Bool

/-- `v[key]` -/
def Value.field (key : String) (v : Value Text) : Option (Value Text) :=
  v.asDict.bind (Value.get (ofString key))

def Value.string (v : Value Text) : Option String := v.asStr.bind stringOf

def OfferedTool.read (v : Value Text) : Option OfferedTool := do
  let function ← v.field "function"
  return ⟨← (← function.field "name").string, ← (← function.field "description").string,
    ← (← function.field "parameters").asDict⟩

def ImageInput.read (v : Value Text) : Option ImageInput := do
  let image ← v.field "image_url"
  return ⟨← (← image.field "url").string, ← (← image.field "detail").string⟩

/-- The text of the user's message, the JSON in it read again. -/
def UserText.read (v : Value Text) : Option UserText := do
  let asked ← loads (← (← v.field "text").asStr)
  let state ← asked.field "accepted_state"
  return {
    objective := ← (← asked.field "objective").string
    base := ⟨← Codec.int.decode (← state.field "revision"), ← (← state.field "value").string⟩
    observation := ← Codec.optionalStr.decode (← asked.field "observation") }

/-- The contents of the two messages. -/
def readMessages (request : Value Text) : Option (Value Text × Value Text) := do
  let messages ← (← request.field "messages").asList
  return (← (← messages[0]?).field "content", ← (← messages[1]?).field "content")

/-- The text, and the images. -/
def readContent (content : Value Text) : Option (UserText × List ImageInput) := do
  let parts ← content.asList
  return (← UserText.read (← parts.head?), ← parts.tail.mapM ImageInput.read)

def readTools (request : Value Text) : Option (List OfferedTool) := do
  let tools ← (← request.field "tools").asList
  tools.mapM OfferedTool.read

/-- What the body of a request says, to a reader who knows the protocol. -/
def readWire (body : Text) : Option WireRequest := do
  let request ← loads body
  let messages ← readMessages request
  let content ← readContent messages.2
  return {
    model := ← (← request.field "model").string
    systemInstruction := ← messages.1.string
    asked := content.1
    images := content.2
    tools := ← readTools request
    maxTokens := ← Codec.int.decode (← request.field "max_tokens")
    reasoningEffort := (request.field "reasoning_effort").bind Value.string
    mustCall := (request.field "tool_choice").isSome }

/-! ## The parts of the body -/

theorem field_dictValue (key : String) (fields : List (String × Value Text)) :
    (dictValue fields).field key = Value.get key fields :=
  get_ofString key fields

theorem string_strValue (s : String) : (strValue s).string = some s :=
  stringOf_ofString s

theorem read_tool (f : FunctionTool) : OfferedTool.read f.body =
    some ⟨f.name, f.description, Value.inTextFields f.parameters⟩ := by
  simp [OfferedTool.read, FunctionTool.body, field_dictValue, Value.get, string_strValue,
    Value.asDict]

theorem read_image (image : ImageInput) : ImageInput.read image.body = some image := by
  simp [ImageInput.read, ImageInput.body, field_dictValue, Value.get, string_strValue]

theorem mapM_reads {α β γ : Type} {f : α → β} {g : β → Option γ} {k : α → γ}
    (h : ∀ a, g (f a) = some (k a)) (l : List α) : (l.map f).mapM g = some (l.map k) := by
  induction l with
  | nil => rfl
  | cons a l ih =>
    rw [List.map_cons, List.mapM_cons, h, ih]
    rfl

/-! ## What is written -/

/-- The dict in the user's message. -/
def Payload.asked (p : Payload) : Value Text :=
  dictValue [("objective", strValue p.objective),
    ("accepted_state", dictValue [("revision", .int p.base.revision),
      ("value", strValue p.base.value)]),
    ("observation", (p.observation.map strValue).getD .none)]

theorem asked_written {p : Payload} (h : tooLong p.base.revision = false) :
    JsonText.write JsonText.spaced p.asked.document = some p.userText := by
  refine JsonText.write_eq_some.mpr ⟨writable_dict ?_, rfl⟩
  simp only [List.map_cons, List.map_nil, List.forall_mem_cons]
  refine ⟨rfl, writable_dict ?_, ?_, fun f hf => by cases hf⟩
  · simp only [List.map_cons, List.map_nil, List.forall_mem_cons]
    exact ⟨writable_int h, rfl, fun f hf => by cases hf⟩
  · cases p.observation <;> rfl

/-- A value that a reader of its text finds again. -/
def Value.Sound (v : Value Text) : Prop := v.unique = true ∧ v.Readable

theorem dictValue_sound {fields : List (String × Value Text)} (hkeys : (fields.map Prod.fst).Nodup)
    (h : ∀ f ∈ fields, f.2.Sound) : (dictValue fields).Sound := by
  constructor
  · rw [dictValue, Value.unique, decide_eq_true (dictValue_keys fields ▸ ofString_nodup hkeys),
      Bool.true_and, uniqueFields_iff]
    intro f hf
    obtain ⟨g, hg, rfl⟩ := List.mem_map.mp hf
    exact (h g hg).1
  · rw [dictValue, Value.Readable, readableFields_iff]
    intro f hf
    obtain ⟨g, hg, rfl⟩ := List.mem_map.mp hf
    exact ⟨Text.ofString_no_pair _, (h g hg).2⟩

theorem pair_sound {k k' : String} {v v' : Value Text} (hk : k ≠ k') (h : v.Sound)
    (h' : v'.Sound) : (dictValue [(k, v), (k', v')]).Sound := by
  refine dictValue_sound (by simpa using hk) ?_
  simp only [List.forall_mem_cons]
  exact ⟨h, h', fun f hf => by cases hf⟩

theorem list_sound {vs : List (Value Text)} (h : ∀ v ∈ vs, v.Sound) : (Value.list vs).Sound := by
  induction vs with
  | nil => exact ⟨rfl, trivial⟩
  | cons v vs ih =>
    obtain ⟨hunique, hreadable⟩ := ih fun w hw => h w (List.mem_cons_of_mem _ hw)
    obtain ⟨hv, hv'⟩ := h v List.mem_cons_self
    refine ⟨?_, hv', hreadable⟩
    rw [Value.unique] at hunique ⊢
    rw [Value.uniqueItems, hv, hunique, Bool.true_and]

theorem str_sound (s : String) : (strValue s).Sound := ⟨rfl, Text.ofString_no_pair s⟩

theorem int_sound (n : Int) : (Value.int n : Value Text).Sound := ⟨rfl, trivial⟩

theorem bool_sound (b : Bool) : (Value.bool b : Value Text).Sound := ⟨rfl, trivial⟩

theorem optional_sound (s : Option String) : ((s.map strValue).getD .none).Sound := by
  cases s with
  | none => exact ⟨rfl, trivial⟩
  | some s => exact str_sound s

theorem asked_sound (p : Payload) : p.asked.Sound := by
  refine dictValue_sound (by simp) ?_
  simp only [List.forall_mem_cons]
  exact ⟨str_sound _, pair_sound (by simp) (int_sound _) (str_sound _), optional_sound _,
    fun f hf => by cases hf⟩

theorem read_userText {p : Payload} (h : tooLong p.base.revision = false) :
    UserText.read (dictValue [("type", strValue "text"), ("text", .str p.userText)]) =
      some ⟨p.objective, p.base, p.observation⟩ := by
  have hloads : loads p.userText = some p.asked :=
    loads_write (asked_sound p).1 (asked_sound p).2 (asked_written h)
  have hobservation : Codec.optionalStr.decode ((p.observation.map strValue).getD .none) =
      some p.observation := by
    cases p.observation with
    | none => rfl
    | some s => simp [Codec.optionalStr, Codec.option, Codec.str, strValue, Value.asStr,
      stringOf_ofString]
  simp [UserText.read, field_dictValue, Value.get, hloads, Payload.asked, string_strValue,
    hobservation, Codec.int, Value.asStr]

/-! ## The body -/

/-- The user's message: the text, and the images. -/
def Payload.content (p : Payload) : Value Text :=
  .list (dictValue [("type", strValue "text"), ("text", .str p.userText)] ::
    p.images.map ImageInput.body)

/-- The fields of the body. -/
def Payload.fields (p : Payload) : List (String × Value Text) :=
  [("model", strValue p.model), ("messages", p.messages),
    ("tools", .list (p.tools.map FunctionTool.body)), ("stream", .bool false),
    ("max_tokens", .int p.maxTokens),
    ("thinking", dictValue [("type",
      strValue (if p.reasoningEffort.isNone then "disabled" else "enabled"))])] ++
  match p.reasoningEffort with
  | some effort => [("reasoning_effort", strValue effort.text)]
  | none => [("tool_choice", strValue "required")]

theorem body_eq (p : Payload) : Value.dict p.body = dictValue p.fields := by
  unfold Payload.body Payload.fields
  cases p.reasoningEffort <;> rfl

theorem fields_read (p : Payload) :
    (dictValue p.fields).field "model" = some (strValue p.model) ∧
      (dictValue p.fields).field "messages" = some p.messages ∧
      (dictValue p.fields).field "tools" = some (.list (p.tools.map FunctionTool.body)) ∧
      (dictValue p.fields).field "max_tokens" = some (.int p.maxTokens) ∧
      ((dictValue p.fields).field "reasoning_effort").bind Value.string =
        p.reasoningEffort.map ReasoningEffort.text ∧
      ((dictValue p.fields).field "tool_choice").isSome = p.reasoningEffort.isNone := by
  simp only [field_dictValue, Payload.fields]
  cases p.reasoningEffort with
  | none => simp [Value.get]
  | some effort => simp [Value.get, string_strValue]

theorem content_read (role : String) (v : Value Text) :
    (dictValue [("role", strValue role), ("content", v)]).field "content" = some v := by
  simp [field_dictValue, Value.get]

theorem read_messages (p : Payload) :
    readMessages (dictValue p.fields) = some (strValue p.systemInstruction, p.content) := by
  have hlist : p.messages.asList = some
      [dictValue [("role", strValue "system"), ("content", strValue p.systemInstruction)],
        dictValue [("role", strValue "user"), ("content", p.content)]] := rfl
  unfold readMessages
  rw [(fields_read p).2.1]
  simp [hlist, content_read]

theorem read_content {p : Payload} (h : tooLong p.base.revision = false) :
    readContent p.content = some (⟨p.objective, p.base, p.observation⟩, p.images) := by
  have himages : (p.images.map ImageInput.body).mapM ImageInput.read = some p.images :=
    (mapM_reads read_image p.images).trans (congrArg some (List.map_id _))
  simp [readContent, Payload.content, Value.asList, read_userText h, himages]

theorem read_tools (p : Payload) : readTools (dictValue p.fields) = some
    (p.tools.map fun f => ⟨f.name, f.description, Value.inTextFields f.parameters⟩) := by
  unfold readTools
  rw [(fields_read p).2.2.1]
  simpa [Value.asList] using mapM_reads read_tool p.tools

/-- The body that is read again says the payload. -/
theorem readWire_body {p : Payload} {text : Text} (h : tooLong p.base.revision = false)
    (hloads : loads text = some (.dict p.body)) : readWire text = some {
      model := p.model
      systemInstruction := p.systemInstruction
      asked := ⟨p.objective, p.base, p.observation⟩
      images := p.images
      tools := p.tools.map fun f => ⟨f.name, f.description, Value.inTextFields f.parameters⟩
      maxTokens := p.maxTokens
      reasoningEffort := p.reasoningEffort.map ReasoningEffort.text
      mustCall := p.reasoningEffort.isNone } := by
  obtain ⟨hmodel, -, -, hlimit, heffort, hchoice⟩ := fields_read p
  unfold readWire
  rw [hloads, body_eq]
  simp only [Option.bind_eq_bind, Option.bind_some, read_messages, read_content h, hmodel,
    string_strValue, read_tools, hlimit, heffort, hchoice, Option.pure_def]
  rfl

theorem tool_sound {f : FunctionTool}
    (h : (Value.dict (Value.inTextFields f.parameters)).Sound) : f.body.Sound := by
  refine pair_sound (by simp) (str_sound _) (dictValue_sound (by simp) ?_)
  simp only [List.forall_mem_cons]
  exact ⟨str_sound _, str_sound _, h, fun f hf => by cases hf⟩

theorem image_sound (image : ImageInput) : image.body.Sound :=
  pair_sound (by simp) (str_sound _) (pair_sound (by simp) (str_sound _) (str_sound _))

theorem userText_sound {p : Payload} (h : tooLong p.base.revision = false) :
    (Value.str p.userText).Sound :=
  ⟨rfl, Text.Plain.not_hasPair (JsonText.write_ascii (asked_written h)).plain⟩

theorem content_sound {p : Payload} (h : tooLong p.base.revision = false) : p.content.Sound := by
  refine list_sound (List.forall_mem_cons.mpr ⟨?_, fun v hv => ?_⟩)
  · exact pair_sound (by simp) (str_sound _) (userText_sound h)
  · obtain ⟨image, -, rfl⟩ := List.mem_map.mp hv
    exact image_sound image

theorem messages_sound {p : Payload} (h : tooLong p.base.revision = false) :
    p.messages.Sound := by
  refine list_sound ?_
  simp only [List.forall_mem_cons]
  exact ⟨pair_sound (by simp) (str_sound _) (str_sound _),
    pair_sound (by simp) (str_sound _) (content_sound h), fun v hv => by cases hv⟩

theorem body_sound {p : Payload} (h : tooLong p.base.revision = false)
    (htools : ∀ f ∈ p.tools, (Value.dict (Value.inTextFields f.parameters)).Sound) :
    (Value.dict p.body).Sound := by
  have hnil : ∀ f ∈ ([] : List (String × Value Text)), f.2.Sound := fun f hf => by cases hf
  have hoffered : (Value.list (p.tools.map FunctionTool.body)).Sound := by
    refine list_sound fun v hv => ?_
    obtain ⟨f, hf, rfl⟩ := List.mem_map.mp hv
    exact tool_sound (htools f hf)
  have hthinking : ∀ s : String, (dictValue [("type", strValue s)]).Sound := by
    intro s
    refine dictValue_sound (by simp) ?_
    simp only [List.forall_mem_cons]
    exact ⟨str_sound _, hnil⟩
  rw [body_eq]
  refine dictValue_sound ?_ ?_
  · unfold Payload.fields
    cases p.reasoningEffort <;> simp
  · unfold Payload.fields
    cases p.reasoningEffort with
    | none =>
      simp only [List.cons_append, List.nil_append, List.forall_mem_cons]
      exact ⟨str_sound _, messages_sound h, hoffered, bool_sound _, int_sound _, hthinking _,
        str_sound _, hnil⟩
    | some effort =>
      simp only [List.cons_append, List.nil_append, List.forall_mem_cons]
      exact ⟨str_sound _, messages_sound h, hoffered, bool_sound _, int_sound _, hthinking _,
        str_sound _, hnil⟩

/-! ## The request -/

/-- What is written to the provider says the request: with the limit that was planned for it, and
for every granted tool, once and in their order, the specification that the request has of it. -/
structure WireRequest.Says (w : WireRequest) (a : DeepSeekAdapter) (request : InferenceRequest) :
    Prop where
  model : w.model = a.model
  systemInstruction : w.systemInstruction = a.systemInstruction
  asked : w.asked = ⟨request.objective, request.base, request.observation⟩
  images : w.images = request.images
  offered : w.tools.map OfferedTool.name = request.allowedTools.eraseDups
  specified : ∀ tool ∈ w.tools, ∃ spec ∈ request.tools, spec.name = tool.name ∧
    spec.description = tool.description ∧
      loads (ofString spec.parametersJson) = some (.dict tool.parameters)
  distinct : (request.tools.map ToolSpec.name).Nodup
  maxTokens : w.maxTokens = request.maxOutputTokens.elim a.maxTokens (min a.maxTokens)
  reasoningEffort : w.reasoningEffort = a.reasoningEffort.map ReasoningEffort.text
  mustCall : w.mustCall = a.reasoningEffort.isNone

variable {a : DeepSeekAdapter} {tools : Loads} {request : InferenceRequest} {p : Payload}

theorem payload_ok (h : a.payload tools request = .ok p) : ∃ offered limit,
    a.functions tools request = .ok offered ∧ tooLong request.base.revision = false ∧
      a.outputLimit request = .ok limit ∧ p = ⟨a.model, a.systemInstruction, request.objective,
        request.base, request.observation, request.images, offered, limit, a.reasoningEffort⟩ := by
  unfold DeepSeekAdapter.payload at h
  obtain ⟨offered, hoffered, h⟩ := except_bind_ok h
  split at h
  · cases h
  rename_i hrevision
  split at h
  · cases h
  obtain ⟨limit, hlimit, h⟩ := except_bind_ok h
  cases h
  exact ⟨offered, limit, hoffered, Bool.eq_false_iff.mpr hrevision, hlimit, rfl⟩

theorem outputLimit_ok {limit : Int} (h : a.outputLimit request = .ok limit) :
    limit = request.maxOutputTokens.elim a.maxTokens (min a.maxTokens) := by
  unfold DeepSeekAdapter.outputLimit at h
  cases hmax : request.maxOutputTokens with
  | none =>
    rw [hmax] at h
    cases h
    rfl
  | some n =>
    simp only [hmax] at h
    split at h
    · cases h
    · cases h
      rfl

theorem functionTool_ok {specs : List ToolSpec} {name : String} {f : FunctionTool}
    (h : functionTool tools specs name = .ok f) : f.name = name ∧ ∃ spec ∈ specs,
      spec.name = name ∧ spec.description = f.description ∧
        tools spec.parametersJson = some (.dict f.parameters) := by
  unfold functionTool at h
  cases hspec : specs.find? (fun spec => spec.name = name) with
  | none =>
    rw [hspec] at h
    cases h
  | some spec =>
    simp only [hspec] at h
    cases hschema : (tools spec.parametersJson).bind Value.asDict with
    | none =>
      rw [hschema] at h
      cases h
    | some schema =>
      simp only [hschema] at h
      split at h
      · cases h
      · cases h
        obtain ⟨v, hv, hdict⟩ := Option.bind_eq_some_iff.mp hschema
        refine ⟨rfl, spec, List.mem_of_find?_eq_some hspec, ?_, rfl, ?_⟩
        · simpa using List.find?_some hspec
        · rw [hv, asDict_eq hdict]

theorem functions_ok {offered : List FunctionTool} (h : a.functions tools request = .ok offered) :
    (request.tools.map ToolSpec.name).Nodup ∧
      request.allowedTools.eraseDups.mapM (functionTool tools request.tools) = .ok offered := by
  unfold DeepSeekAdapter.functions at h
  split at h
  · cases h
  split at h
  · cases h
  rename_i hnone
  exact ⟨not_not.mp (not_or.mp hnone).2, h⟩

theorem offered_ok {specs : List ToolSpec} {names : List String} {offered : List FunctionTool}
    (h : names.mapM (functionTool tools specs) = .ok offered) :
    offered.map FunctionTool.name = names ∧ ∀ f ∈ offered, ∃ spec ∈ specs,
      spec.name = f.name ∧ spec.description = f.description ∧
        tools spec.parametersJson = some (.dict f.parameters) := by
  have hall := mapM_ok h
  clear h
  induction hall with
  | nil => exact ⟨rfl, fun f hf => by cases hf⟩
  | cons hf _ ih =>
    obtain ⟨hname, spec, hspec, hspecName, htext⟩ := functionTool_ok hf
    obtain ⟨hnames, hspecs⟩ := ih
    refine ⟨by rw [List.map_cons, hname, hnames], List.forall_mem_cons.mpr ⟨?_, hspecs⟩⟩
    exact ⟨spec, hspec, hspecName.trans hname.symm, htext⟩

/-- Whatever the client writes of the body in JSON, the provider that reads it is asked what the
request asks, and offered the tools that are granted as the request specifies them. -/
theorem the_provider_reads_the_request {post : Value Text → Option Text}
    (hpost : ∀ v text, v.Sound → post v = some text → loads text = some v)
    (htools : ∀ text v, tools text = some v → loads (ofString text) = some v.inText)
    (h : a.payload tools request = .ok p) {body : Text} (hbody : post (.dict p.body) = some body) :
    ∃ w, readWire body = some w ∧ w.Says a request := by
  obtain ⟨offered, limit, hoffered, hrevision, hlimit, hp⟩ := payload_ok h
  obtain ⟨hdistinct, hmapped⟩ := functions_ok hoffered
  obtain ⟨hnames, hspecs⟩ := offered_ok hmapped
  have hschema : ∀ f ∈ p.tools, ∃ spec ∈ request.tools, spec.name = f.name ∧
      spec.description = f.description ∧
        loads (ofString spec.parametersJson) = some (.dict (Value.inTextFields f.parameters)) := by
    intro f hf
    rw [hp] at hf
    obtain ⟨spec, hspec, hname, hdescription, htext⟩ := hspecs f hf
    exact ⟨spec, hspec, hname, hdescription, htools _ _ htext⟩
  have hsound : ∀ f ∈ p.tools, (Value.dict (Value.inTextFields f.parameters)).Sound := by
    intro f hf
    obtain ⟨spec, -, -, -, hloads⟩ := hschema f hf
    exact loads_readable (plain_ofString _) hloads
  have hshort : tooLong p.base.revision = false := by rw [hp]; exact hrevision
  have hread := readWire_body hshort (hpost _ _ (body_sound hshort hsound) hbody)
  refine ⟨_, hread, ?_⟩
  constructor
  case offered =>
    have hoffer : (p.tools.map FunctionTool.name) = request.allowedTools.eraseDups := by
      rw [hp]
      exact hnames
    rw [← hoffer, List.map_map]
    rfl
  case specified =>
    intro tool htool
    obtain ⟨f, hf, rfl⟩ := List.mem_map.mp htool
    exact hschema f hf
  case distinct => exact hdistinct
  case maxTokens =>
    rw [hp]
    exact outputLimit_ok hlimit
  all_goals rw [hp]

/-- A decoder of one schema. -/
def objectLoads : Loads := fun text =>
  if text = "\x7b\"type\": \"object\"\x7d" then some (.dict [("type", .str "object")]) else none

theorem objectLoads_agrees (text : String) (v : Value String) (h : objectLoads text = some v) :
    loads (ofString text) = some v.inText := by
  unfold objectLoads at h
  split at h
  · rename_i htext
    cases h
    have hsound : (dictValue [("type", strValue "object")]).Sound := by
      refine dictValue_sound (by simp) ?_
      simp only [List.forall_mem_cons]
      exact ⟨str_sound _, fun f hf => by cases hf⟩
    have hwritten : JsonText.write JsonText.spaced
        (dictValue [("type", strValue "object")]).document = some (ofString text) := by
      rw [htext]
      decide +kernel
    exact loads_write hsound.1 hsound.2 hwritten
  · cases h

def grantedRequest : InferenceRequest where
  objective := "Read the \"file\""
  base := ⟨3, "draft"⟩
  observation := some "a line\n"
  allowedTools := ["read", "read"]
  tools := [⟨"write", "Writes a file", "\x7b\x7d"⟩,
    ⟨"read", "Reads a file", "\x7b\"type\": \"object\"\x7d"⟩]
  maxOutputTokens := some 50

def grantedPayload : Payload where
  model := sampleAdapter.model
  systemInstruction := sampleAdapter.systemInstruction
  objective := grantedRequest.objective
  base := grantedRequest.base
  observation := grantedRequest.observation
  images := []
  tools := [⟨"read", "Reads a file", [("type", .str "object")]⟩]
  maxTokens := 50
  reasoningEffort := sampleAdapter.reasoningEffort

theorem the_provider_reads_the_request_sample : ∃ body w,
    JsonText.write JsonText.spaced (Value.dict grantedPayload.body).document = some body ∧
      readWire body = some w ∧ w.Says sampleAdapter grantedRequest := by
  obtain ⟨body, hbody⟩ : ∃ body, JsonText.write JsonText.spaced
      (Value.dict grantedPayload.body).document = some body :=
    Option.isSome_iff_exists.mp (by decide +kernel)
  have hpayload : sampleAdapter.payload objectLoads grantedRequest = .ok grantedPayload := by rfl
  obtain ⟨w, hw⟩ := the_provider_reads_the_request
    (fun _ _ hsound hwritten => loads_write hsound.1 hsound.2 hwritten) objectLoads_agrees
    hpayload hbody
  exact ⟨body, w, hbody, hw⟩

end FlynnAgents
