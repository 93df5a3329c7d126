-- What the two v1 readers accept (results.py, session.py): the records that
-- are written, in any order of keys, and nothing else.
import FlynnAgents.Results
import FlynnAgents.SameValues

namespace FlynnAgents

open Text (ofString)
open Value (same sameItems unique uniqueItems uniqueFields)

/-! ## The records -/

/-- The dict that `to_json` builds of a block. -/
def Content.record : Content → Value Text
  | .text s => .dict [(ofString "type", .str (ofString "text")), (ofString "text", .str s)]
  | .image i => .dict [(ofString "type", .str (ofString "image")), (ofString "url", .str i.url),
      (ofString "detail", .str i.detail.text)]

def dataRecord : Option Text → Value Text
  | none => .none
  | some data => .str data

/-- The dict that `to_json` builds of a result. -/
def ToolResult.record (r : ToolResult) : Value Text :=
  .dict [(ofString "schema", .str (ofString "flynn.tool-result/v1")),
    (ofString "status", .str r.status.text),
    (ofString "content", .list (r.content.map Content.record)),
    (ofString "data_json", dataRecord r.dataJson)]

/-- The dict that `to_json` builds of a termination. -/
def SessionTermination.record (r : SessionTermination) : Value Text :=
  .dict [(ofString "schema", .str (ofString "flynn.session-termination/v1")),
    (ofString "kind", .str (ofString r.kind.text)), (ofString "reason", .str r.reason),
    (ofString "completed_steps", .int r.completedSteps)]

/-! ## What the checks of a field say -/

theorem isStr_iff {v : Option (Value Text)} {s : String} :
    isStr v s = true ↔ v = some (.str (ofString s)) := by
  unfold isStr
  split
  · rw [decide_eq_true_iff]
    simp
  · rename_i h
    simp only [Bool.false_eq_true, false_iff]
    exact fun he => h _ he

theorem ofText_detail_iff {s : Text} {d : ImageDetail} :
    ImageDetail.ofText s = some d ↔ s = d.text := by
  constructor
  · intro h
    have hd := List.find?_some (p := fun k : ImageDetail => decide (k.text = s)) h
    exact (of_decide_eq_true hd).symm
  · rintro rfl
    exact ofText_detail d

theorem ofText_status_iff {s : Text} {d : ResultStatus} :
    ResultStatus.ofText s = some d ↔ s = d.text := by
  constructor
  · intro h
    have hd := List.find?_some (p := fun k : ResultStatus => decide (k.text = s)) h
    exact (of_decide_eq_true hd).symm
  · rintro rfl
    exact ofText_status d

theorem ofText_kind_iff {s : Text} {k : TerminationKind} :
    TerminationKind.ofText s = some k ↔ s = ofString k.text := by
  constructor
  · intro h
    have hk := List.find?_some (p := fun k : TerminationKind => decide (ofString k.text = s)) h
    exact (of_decide_eq_true hk).symm
  · rintro rfl
    exact ofText_kind k

/-- A dict has this record, field by field. -/
theorem same_record {fields record : List (Text × Value Text)}
    (hu : (Value.dict fields).unique = true) (hn : (record.map Prod.fst).Nodup) :
    same (.dict fields) (.dict record) = true ↔ Value.keysAre (record.map Prod.fst) fields = true ∧
      ∀ f ∈ record, ∃ v, Value.get f.1 fields = some v ∧ v.same f.2 = true := by
  rw [unique, Bool.and_eq_true, decide_eq_true_iff] at hu
  rw [Value.same_dict hu.1 hn]
  refine and_congr_right fun _ => ?_
  constructor
  · intro h f hf
    exact h f.1 f.2 hf
  · intro h k w hm
    exact h (k, w) hm

theorem get_same_str {fields : List (Text × Value Text)} {key s : Text} :
    (∃ v, Value.get key fields = some v ∧ v.same (.str s) = true) ↔
      Value.get key fields = some (.str s) := by
  simp

/-! ## Blocks -/

theorem createText_ok {v : Option (Value Text)} {c : Content} :
    createText v = .ok c ↔ ∃ s, v = some (.str s) ∧ c = .text s := by
  unfold createText
  split
  · rw [Except.ok.injEq]
    simp [eq_comm]
  · rename_i h
    simp only [reduceCtorEq, false_iff, not_exists, not_and]
    exact fun s hs => absurd hs (h s)

theorem createImage_ok {url detail : Option (Value Text)} {c : Content} :
    createImage url detail = .ok c ↔ ∃ i, url = some (.str i.url) ∧
      detail = some (.str i.detail.text) ∧ c = .image i := by
  constructor
  · intro h
    unfold createImage at h
    split at h
    · rename_i s
      split at h
      · rename_i hs
        split at h
        · rename_i d
          split at h
          · rename_i detail hd
            cases h
            exact ⟨⟨s, detail, hs⟩, rfl, by rw [ofText_detail_iff.mp hd], rfl⟩
          · cases h
        · cases h
      · cases h
    · cases h
  · rintro ⟨⟨s, detail, hs⟩, rfl, rfl, rfl⟩
    unfold createImage
    simp only [ofText_detail]
    rw [dif_pos hs]

theorem record_text {fields : List (Text × Value Text)} (hu : (Value.dict fields).unique = true)
    {s : Text} : same (.dict fields) (Content.text s).record = true ↔
      Value.keysAre [ofString "type", ofString "text"] fields = true ∧
        Value.get (ofString "type") fields = some (.str (ofString "text")) ∧
        Value.get (ofString "text") fields = some (.str s) := by
  refine (same_record hu ?_).trans ?_
  · exact show [ofString "type", ofString "text"].Nodup by decide
  simp only [List.forall_mem_cons, get_same_str]
  simp

theorem record_image {fields : List (Text × Value Text)} (hu : (Value.dict fields).unique = true)
    {i : ImageContent} : same (.dict fields) (Content.image i).record = true ↔
      Value.keysAre [ofString "type", ofString "url", ofString "detail"] fields = true ∧
        Value.get (ofString "type") fields = some (.str (ofString "image")) ∧
        Value.get (ofString "url") fields = some (.str i.url) ∧
        Value.get (ofString "detail") fields = some (.str i.detail.text) := by
  refine (same_record hu ?_).trans ?_
  · exact show [ofString "type", ofString "url", ofString "detail"].Nodup by decide
  simp only [List.forall_mem_cons, get_same_str]
  simp

/-- A block is read exactly as the block whose record it is. -/
theorem readBlock_iff {b : Value Text} (hu : b.unique = true) (c : Content) :
    readBlock b = .ok c ↔ b.same c.record = true := by
  cases b with
  | dict fields =>
    simp only [readBlock]
    have htwo : Value.get (ofString "type") fields = some (.str (ofString "text")) →
        Value.get (ofString "type") fields ≠ some (.str (ofString "image")) := by
      intro ht hi
      rw [ht] at hi
      exact absurd (Value.str.inj (Option.some.inj hi)) (by decide)
    split
    · rename_i htext
      rw [Bool.and_eq_true, isStr_iff] at htext
      rw [createText_ok]
      cases c with
      | text s =>
        rw [record_text hu]
        simp [htext]
      | image i =>
        rw [record_image hu]
        simp [htwo htext.1]
    · rename_i htext
      rw [Bool.and_eq_true, isStr_iff] at htext
      split
      · rename_i himage
        rw [Bool.and_eq_true, isStr_iff] at himage
        rw [createImage_ok]
        cases c with
        | text s =>
          rw [record_text hu]
          simp only [reduceCtorEq, and_false, exists_false, false_iff, not_and]
          exact fun hk ht => absurd ⟨ht, hk⟩ htext
        | image i =>
          rw [record_image hu]
          simp [himage]
      · rename_i himage
        rw [Bool.and_eq_true, isStr_iff] at himage
        simp only [reduceCtorEq, false_iff]
        cases c with
        | text s =>
          rw [record_text hu]
          exact fun h => htext ⟨h.2.1, h.1⟩
        | image i =>
          rw [record_image hu]
          exact fun h => himage ⟨h.2.1, h.1⟩
  | _ =>
    simp only [readBlock, reduceCtorEq, false_iff]
    cases c <;> simp [Content.record, same]

theorem readBlocks_iff {blocks : List (Value Text)} (hu : uniqueItems blocks = true)
    (content : List Content) : blocks.mapM readBlock = .ok content ↔
      sameItems blocks (content.map Content.record) = true := by
  induction blocks generalizing content with
  | nil => cases content <;> simp [sameItems, pure, Except.pure]
  | cons b blocks ih =>
    rw [uniqueItems, Bool.and_eq_true] at hu
    have hb := readBlock_iff hu.1
    have hblocks := ih hu.2
    rw [List.mapM_cons]
    cases content with
    | nil =>
      cases readBlock b <;> cases blocks.mapM readBlock <;>
        simp [sameItems, bind, Except.bind, pure, Except.pure]
    | cons c content =>
      rw [List.map_cons, sameItems, Bool.and_eq_true, ← hb, ← hblocks]
      cases readBlock b <;> cases blocks.mapM readBlock <;>
        simp [bind, Except.bind, pure, Except.pure]

/-! ## Results -/

theorem create_result_ok {content : List Content} {data status : Option (Value Text)}
    {r : ToolResult} : ToolResult.create content data status = .ok r ↔
      content = r.content ∧ data = some (dataRecord r.dataJson) ∧
        status = some (.str r.status.text) := by
  constructor
  · intro h
    unfold ToolResult.create at h
    split at h
    · split at h
      · rename_i hs
        rw [ofText_status_iff] at hs
        subst hs
        split at h
        · cases h
          exact ⟨rfl, rfl, rfl⟩
        · split at h
          · cases h
            exact ⟨rfl, rfl, rfl⟩
          · cases h
        · cases h
      · cases h
    · cases h
  · obtain ⟨content', data', status', haccepted⟩ := r
    rintro ⟨rfl, rfl, rfl⟩
    unfold ToolResult.create
    simp only [ofText_status]
    cases data' with
    | none => rfl
    | some text =>
      simp only [dataRecord]
      split
      · rfl
      · rename_i e he
        rw [Option.all_some, he] at haccepted
        cases haccepted

theorem record_result {fields : List (Text × Value Text)} (hu : (Value.dict fields).unique = true)
    {r : ToolResult} : same (.dict fields) r.record = true ↔
      Value.keysAre [ofString "schema", ofString "status", ofString "content",
        ofString "data_json"] fields = true ∧
      Value.get (ofString "schema") fields = some (.str (ofString "flynn.tool-result/v1")) ∧
      Value.get (ofString "status") fields = some (.str r.status.text) ∧
      (∃ blocks, Value.get (ofString "content") fields = some (.list blocks) ∧
        sameItems blocks (r.content.map Content.record) = true) ∧
      Value.get (ofString "data_json") fields = some (dataRecord r.dataJson) := by
  have hdata : (∃ v, Value.get (ofString "data_json") fields = some v ∧
      v.same (dataRecord r.dataJson) = true) ↔
        Value.get (ofString "data_json") fields = some (dataRecord r.dataJson) := by
    cases r.dataJson <;> simp [dataRecord]
  have hcontent : (∃ v, Value.get (ofString "content") fields = some v ∧
      v.same (.list (r.content.map Content.record)) = true) ↔
        ∃ blocks, Value.get (ofString "content") fields = some (.list blocks) ∧
          sameItems blocks (r.content.map Content.record) = true := by
    simp only [Value.same_list]
    constructor
    · rintro ⟨-, hv, blocks, rfl, hs⟩
      exact ⟨blocks, hv, hs⟩
    · rintro ⟨blocks, hv, hs⟩
      exact ⟨_, hv, blocks, rfl, hs⟩
  refine (same_record hu ?_).trans ?_
  · exact show [ofString "schema", ofString "status", ofString "content",
      ofString "data_json"].Nodup by decide
  simp only [List.forall_mem_cons, get_same_str, hdata, hcontent]
  simp

/-- A text is read exactly as the result whose record it says. -/
theorem result_fromJson_iff (s : Text) (r : ToolResult) : ToolResult.fromJson s = .ok r ↔
    ∃ v, readJson s = .ok v ∧ v.same r.record = true := by
  unfold ToolResult.fromJson
  cases hv : readJson s with
  | error e => simp [bind, Except.bind]
  | ok v =>
    have hu := readJson_unique hv
    simp only [bind, Except.bind, Except.ok.injEq, exists_eq_left']
    cases v with
    | dict fields =>
      rw [record_result hu]
      simp only
      by_cases hkeys : Value.keysAre [ofString "schema", ofString "status", ofString "content",
          ofString "data_json"] fields = true
      · by_cases hschema : Value.get (ofString "schema") fields =
            some (.str (ofString "flynn.tool-result/v1"))
        · rw [hkeys, isStr_iff.mpr hschema]
          simp only [Bool.not_true, Bool.false_eq_true, if_false, true_and, hschema]
          split
          · rename_i blocks hblocks
            have hitems : uniqueItems blocks = true := by
              rw [unique, Bool.and_eq_true] at hu
              exact Value.unique_of_get hu.2 hblocks
            have hread := readBlocks_iff hitems
            simp only [hblocks, Option.some.injEq, Value.list.injEq, exists_eq_left', ← hread]
            cases blocks.mapM readBlock with
            | error e => simp
            | ok content =>
              simp only [create_result_ok, Except.ok.injEq]
              exact ⟨fun h => ⟨h.2.2, h.1, h.2.1⟩, fun h => ⟨h.2.1, h.2.2, h.1⟩⟩
          · rename_i hno
            simp only [reduceCtorEq, false_iff]
            rintro ⟨-, ⟨blocks, hblocks, -⟩, -⟩
            exact hno blocks hblocks
        · rw [hkeys, Bool.eq_false_iff.mpr (fun h => hschema (isStr_iff.mp h))]
          simp [hschema]
      · rw [Bool.eq_false_iff.mpr hkeys]
        simp
    | _ => simp [ToolResult.record, same]

/-! ## Terminations -/

theorem create_termination_ok {kind reason steps : Option (Value Text)} {r : SessionTermination} :
    SessionTermination.create kind reason steps = .ok r ↔
      kind = some (.str (ofString r.kind.text)) ∧ reason = some (.str r.reason) ∧
        steps = some (.int r.completedSteps) := by
  constructor
  · intro h
    unfold SessionTermination.create at h
    split at h
    · split at h
      · rename_i hk
        rw [ofText_kind_iff] at hk
        subst hk
        split at h
        · split at h
          · rename_i reason _ steps
            have hfields := create_termination_iff.mp h
            have hreason : reason = r.reason := congrArg TerminationFields.reason hfields
            have hsteps : steps = r.completedSteps :=
              congrArg TerminationFields.completedSteps hfields
            have hkind := congrArg TerminationFields.kind hfields
            simp only at hkind
            rw [hkind, hreason, hsteps]
            exact ⟨rfl, rfl, rfl⟩
          · split at h <;> cases h
        · cases h
      · cases h
    · cases h
  · rintro ⟨rfl, rfl, rfl⟩
    unfold SessionTermination.create
    simp only [ofText_kind]
    exact create_termination_iff.mpr rfl

theorem record_termination {fields : List (Text × Value Text)}
    (hu : (Value.dict fields).unique = true) {r : SessionTermination} :
    same (.dict fields) r.record = true ↔
      Value.keysAre [ofString "schema", ofString "kind", ofString "reason",
        ofString "completed_steps"] fields = true ∧
      Value.get (ofString "schema") fields =
        some (.str (ofString "flynn.session-termination/v1")) ∧
      Value.get (ofString "kind") fields = some (.str (ofString r.kind.text)) ∧
      Value.get (ofString "reason") fields = some (.str r.reason) ∧
      Value.get (ofString "completed_steps") fields = some (.int r.completedSteps) := by
  refine (same_record hu ?_).trans ?_
  · exact show [ofString "schema", ofString "kind", ofString "reason",
      ofString "completed_steps"].Nodup by decide
  simp only [List.forall_mem_cons, get_same_str]
  simp

/-- A text is read exactly as the termination whose record it says. -/
theorem termination_fromJson_iff (s : Text) (r : SessionTermination) :
    SessionTermination.fromJson s = .ok r ↔ ∃ v, readJson s = .ok v ∧ v.same r.record = true := by
  unfold SessionTermination.fromJson
  cases hv : readJson s with
  | error e => simp [bind, Except.bind]
  | ok v =>
    have hu := readJson_unique hv
    simp only [bind, Except.bind, Except.ok.injEq, exists_eq_left']
    cases v with
    | dict fields =>
      rw [record_termination hu]
      simp only
      split
      · rename_i hno
        simp only [reduceCtorEq, false_iff]
        rintro ⟨hkeys, hschema, -⟩
        rw [hkeys, isStr_iff.mpr hschema] at hno
        cases hno
      · rename_i hyes
        simp only [Bool.not_eq_true', Bool.not_eq_false, Bool.and_eq_true, isStr_iff] at hyes
        rw [create_termination_ok]
        simp [hyes]
    | _ => simp [SessionTermination.record, same]

/-! ## What is refused -/

theorem createText_raises (v : Option (Value Text)) : RaisesContractError (createText v) := by
  unfold createText
  split
  · exact raisesContract_ok _
  · exact raisesContract_error _

theorem createImage_raises (url detail : Option (Value Text)) :
    RaisesContractError (createImage url detail) := by
  unfold createImage
  split
  · split
    · split
      · split
        · exact raisesContract_ok _
        · exact raisesContract_error _
      · exact raisesContract_error _
    · exact raisesContract_error _
  · exact raisesContract_error _

theorem readBlock_raises (b : Value Text) : RaisesContractError (readBlock b) := by
  unfold readBlock
  split
  · split
    · exact createText_raises _
    · split
      · exact createImage_raises _ _
      · exact raisesContract_error _
  · exact raisesContract_error _

theorem readBlocks_raises (blocks : List (Value Text)) :
    RaisesContractError (blocks.mapM readBlock) := by
  induction blocks with
  | nil => exact raisesContract_ok _
  | cons b blocks ih =>
    rw [List.mapM_cons]
    exact raisesContract_bind (readBlock_raises b) fun c =>
      raisesContract_bind ih fun cs => raisesContract_ok _

theorem create_result_raises (content : List Content) (data status : Option (Value Text)) :
    RaisesContractError (ToolResult.create content data status) := by
  unfold ToolResult.create
  split
  · split
    · split
      · exact raisesContract_ok _
      · split
        · exact raisesContract_ok _
        · rename_i e he
          intro e' h
          cases h
          exact readJson_raises _ e he
      · exact raisesContract_error _
    · exact raisesContract_error _
  · exact raisesContract_error _

theorem result_fromJson_raises (s : Text) : RaisesContractError (ToolResult.fromJson s) := by
  refine raisesContract_bind (readJson_raises s) fun document => ?_
  split
  · split
    · exact raisesContract_error _
    · split
      · exact raisesContract_error _
      · split
        · exact raisesContract_bind (readBlocks_raises _) fun content => create_result_raises _ _ _
        · exact raisesContract_error _
  · exact raisesContract_error _

theorem create_termination_raises (kind reason steps : Option (Value Text)) :
    RaisesContractError (SessionTermination.create kind reason steps) := by
  unfold SessionTermination.create
  split
  · split
    · split
      · split
        · unfold TerminationFields.create
          split
          · exact raisesContract_ok _
          · exact raisesContract_error _
        · split
          · exact raisesContract_error _
          · exact raisesContract_error _
      · exact raisesContract_error _
    · exact raisesContract_error _
  · exact raisesContract_error _

theorem termination_fromJson_raises (s : Text) :
    RaisesContractError (SessionTermination.fromJson s) := by
  refine raisesContract_bind (readJson_raises s) fun document => ?_
  split
  · split
    · exact raisesContract_error _
    · exact create_termination_raises _ _ _
  · exact raisesContract_error _

/-! ## The two readers -/

/-- The two readers accept exactly the records: a text is read as a result
exactly if it says the record of the result, and as a termination exactly if it
says the record of the termination. Every other text raises a `ContractError`. -/
theorem readers_accept_exactly_the_records (s : Text) :
    (∀ r : ToolResult, ToolResult.fromJson s = .ok r ↔
      ∃ v, readJson s = .ok v ∧ v.same r.record = true) ∧
    (∀ r : SessionTermination, SessionTermination.fromJson s = .ok r ↔
      ∃ v, readJson s = .ok v ∧ v.same r.record = true) ∧
    ((∀ r, ToolResult.fromJson s ≠ .ok r) →
      ∃ message, ToolResult.fromJson s = .error (contractError message)) ∧
    ((∀ r, SessionTermination.fromJson s ≠ .ok r) →
      ∃ message, SessionTermination.fromJson s = .error (contractError message)) :=
  ⟨result_fromJson_iff s, termination_fromJson_iff s, (result_fromJson_raises s).refused,
    (termination_fromJson_raises s).refused⟩

end FlynnAgents
