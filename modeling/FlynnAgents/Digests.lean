-- What the digest of an evaluation is taken of (sqlite_run.py): the text of the evaluation
-- itself, from which it is read again.
import FlynnAgents.Columns
import FlynnAgents.Publication

namespace FlynnAgents

open Relational Transactional
open Text (ofString)

variable {handle : Handle} {clock : Clock} {t t' : Tables} {call : Call}

/-! ## The text of an evaluation -/

theorem optionalStr_sorted (s : Option String) :
    (Codec.optionalStr.encode s).sorted = Codec.optionalStr.encode s := by
  cases s <;> rfl

theorem state_sorted (s : State) : (State.codec.encode s).sorted = State.codec.encode s :=
  sorted_dictValue (show ["revision", "value"].Nodup by decide) (List.Perm.refl _)
    (show [ofString "revision", ofString "value"].Pairwise _ by decide)

theorem call_sorted (call : ToolCall) : (ToolCall.codec.encode call).sorted =
    dictValue [("arguments", strValue call.arguments), ("name", strValue call.name)] :=
  sorted_dictValue (show ["name", "arguments"].Nodup by decide) (List.Perm.swap _ _ _)
    (show [ofString "arguments", ofString "name"].Pairwise _ by decide)

theorem candidate_sorted (candidate : Candidate) : (Candidate.codec.encode candidate).sorted =
    dictValue [("base", State.codec.encode candidate.base),
      ("call", dictValue [("arguments", strValue candidate.call.arguments),
        ("name", strValue candidate.call.name)]), ("id", strValue candidate.id),
      ("output", Codec.optionalStr.encode candidate.output)] := by
  refine sorted_dictValue (show ["id", "base", "call", "output"].Nodup by decide) ?_
    (show [ofString "base", ofString "call", ofString "id", ofString "output"].Pairwise _ by decide)
  simp only [List.map_cons, List.map_nil, state_sorted, call_sorted, optionalStr_sorted]
  exact (List.Perm.swap _ _ _).trans ((List.Perm.swap _ _ _).cons _)

theorem evaluation_sorted (e : TypedEvaluation) : (TypedEvaluation.codec.encode e).sorted =
    dictValue [("candidate", (Candidate.codec.encode e.candidate).sorted),
      ("evaluator", strValue e.evaluator), ("reason", strValue e.reason),
      ("scope", strValue e.scope), ("state_update", Codec.optionalStr.encode e.stateUpdate),
      ("verdict", strValue e.verdict.text)] := by
  refine sorted_dictValue (show ["candidate", "evaluator", "scope", "verdict", "reason",
    "state_update"].Nodup by decide) ?_ (show [ofString "candidate", ofString "evaluator",
      ofString "reason", ofString "scope", ofString "state_update",
      ofString "verdict"].Pairwise _ by decide)
  simp only [List.map_cons, List.map_nil, optionalStr_sorted]
  refine ((?_ : List.Perm _ _).cons _).cons _
  exact ((List.Perm.swap _ _ _).cons _).trans
    ((List.Perm.swap _ _ _).trans (((List.Perm.swap _ _ _).cons _).cons _))

theorem evaluation_json (e : TypedEvaluation) :
    (TypedEvaluation.codec.encode e).sorted.document = e.evaluation.json := by
  rw [evaluation_sorted, candidate_sorted]
  unfold TypedEvaluation.evaluation
  obtain ⟨⟨id, base, call, output⟩, evaluator, scope, verdict, reason, update⟩ := e
  cases output <;> cases update <;> cases verdict <;> rfl

theorem evaluation_short {e : TypedEvaluation} (h : tooLong e.candidate.base.revision = false) :
    (TypedEvaluation.codec.encode e).Short := by
  have hbase : (State.codec.encode e.candidate.base).Short :=
    dictValue_short (List.forall_mem_cons.mpr ⟨h, List.forall_mem_cons.mpr ⟨trivial, by simp⟩⟩)
  have hcall : (ToolCall.codec.encode e.candidate.call).Short :=
    dictValue_short (by simp [Codec.str, strValue, Value.Short])
  have hcandidate : (Candidate.codec.encode e.candidate).Short := by
    refine dictValue_short ?_
    simp only [List.forall_mem_cons, List.not_mem_nil, false_implies, implies_true, and_true]
    exact ⟨trivial, hbase, hcall, optionalStr_short _⟩
  refine dictValue_short ?_
  simp only [List.forall_mem_cons, List.not_mem_nil, false_implies, implies_true, and_true]
  exact ⟨hcandidate, trivial, trivial, trivial, trivial, optionalStr_short _⟩

/-- The text that is hashed is the one that the row holds. -/
theorem evaluation_text {e : TypedEvaluation} (h : tooLong e.candidate.base.revision = false) :
    TypedEvaluation.codec.text e =
      some (JsonText.render JsonText.compact e.evaluation.json) := by
  have hwritable := writable_short (sorted_short (evaluation_short h))
  rw [← evaluation_json]
  exact JsonText.write_eq_some.mpr ⟨hwritable, rfl⟩

/-! ## Every run -/

/-- Every evaluation that is kept passed its check. -/
def Checked (t : Tables) : Prop :=
  ∀ e ∈ t.evaluations.rows, ∃ typed : TypedEvaluation, typed.evaluation = e.payload

theorem Checked.change (hk : Checked t) (h : Change handle clock t call t') : Checked t' := by
  by_cases hc : ∃ e, call = .complete (.typed e)
  · obtain ⟨e, rfl⟩ := hc
    cases h with
    | @complete _ row candidate evals commits _ operation stage loaded checked base evaluated _
        unpublished committed =>
      intro q hq
      rw [(Table.insert_eq_some_iff.mp evaluated).2, List.mem_append] at hq
      rcases hq with hq | hq
      · exact hk q hq
      · obtain ⟨typed, htyped, -⟩ := typed_of_checked checked
        rw [List.mem_singleton.mp hq]
        exact ⟨typed, htyped⟩
  · unfold Checked
    rw [(h.unpublished fun e he => hc ⟨e, he⟩).1]
    exact hk

/-- The text that the digest of an evaluation is taken of, and what is read of it. -/
theorem digest_read {e : TypedEvaluation} (h : tooLong e.candidate.base.revision = false) :
    ∃ text, e.evaluation.digest = Sha256.hexdigest (text.map Fin.val) ∧
      TypedEvaluation.codec.read text = some e := by
  exact ⟨_, rfl, Codec.read_text (evaluation_text h)⟩

/-- A commit and the text that its digest is taken of. From the text alone the evaluation is
read that the commit publishes: it is satisfied, it names the operation of the commit with
its call and its output, it proposes the value, and its base is the state just before. -/
structure Attested (initial : String) (t : Tables) (i : ℕ) (c : CommitRow) : Prop where
  text : ∃ text e, c.evaluationDigest = Sha256.hexdigest (text.map Fin.val) ∧
    TypedEvaluation.codec.read text = some e ∧ e.verdict = .satisfied ∧
    e.stateUpdate = some c.value ∧ e.candidate.base = stateOf initial (t.commits.rows.take i) ∧
    ∃ row, t.operation? c.operationId = some row ∧ row.stage = .completed ∧
      row.candidate = .ok e.candidate

theorem Published.attested (hp : Published t) (hk : Checked t) {i : ℕ} {c : CommitRow}
    (hi : t.commits.rows[i]? = some c) (hshort : tooLong i = false) :
    Attested t.run.initialState t i c := by
  obtain ⟨q, hq, hdigest, hpublished, hbase⟩ := (hp.committed i c hi).evaluation
  obtain ⟨hm, hid⟩ := Table.lookup_some hq
  obtain ⟨row, hrow, hstage, hcandidate⟩ := (hp.evaluated q hm).candidate
  obtain ⟨e, he⟩ := hk q hm
  obtain ⟨hverdict, hupdate⟩ := published_iff.mp hpublished
  rw [← he] at hverdict hupdate hbase hcandidate
  have hlen : i ≤ t.commits.rows.length := by
    obtain ⟨hlt, -⟩ := List.getElem?_eq_some_iff.mp hi
    omega
  have hrevision : e.candidate.base.revision = i := by
    have hstate := @stateOf_revision t.run.initialState _ (numbered_take hp.numbered i)
    rw [List.length_take, Nat.min_eq_left hlen] at hstate
    exact (congrArg State.revision hbase).trans hstate
  obtain ⟨text, hhash, hread⟩ := digest_read (hrevision ▸ hshort)
  refine ⟨text, e, ?_, hread, Dyn.typed.inj hverdict, ?_, hbase, row, ?_, hstage, hcandidate⟩
  · rw [← hdigest, (hp.evaluated q hm).digest, ← he, hhash]
  · obtain ⟨v, hv, hc⟩ := Option.map_eq_some_iff.mp hupdate
    rw [hv, Dyn.typed.inj hc]
  · rwa [hid] at hrow

/-- Every operation was asked for on a revision that there was. -/
def Based (t : Tables) : Prop :=
  ∀ id row, t.operation? id = some row →
    0 ≤ row.request.base.revision ∧ row.request.base.revision ≤ t.commits.rows.length

theorem Change.commits_grow (h : Change handle clock t call t') :
    t.commits.rows.length ≤ t'.commits.rows.length := by
  cases h with
  | complete _ _ _ _ _ _ _ _ _ committed =>
    rw [Table.insertAll_rows committed, List.length_append]
    exact Nat.le_add_right _ _
  | _ => exact le_rfl

theorem Based.change (hb : Based t) (hp : Published t) (h : Change handle clock t call t') :
    Based t' := by
  intro id row hrow
  have hgrow := h.commits_grow
  have hrequest : ∃ revision : ℤ, row.request.base.revision = revision ∧ 0 ≤ revision ∧
      revision ≤ t.commits.rows.length := by
    rcases h.lookup id with ⟨-, hsame⟩ | ⟨-, request, output, guards, rfl, hstarted⟩ |
      ⟨old, new, hold, hnew, hmoves⟩
    · exact ⟨_, rfl, hb id row (hsame ▸ hrow)⟩
    · rw [hrow] at hstarted
      cases hstarted
      have hread : request.base = t.read := by
        cases h
        assumption
      refine ⟨_, rfl, ?_⟩
      dsimp only
      rw [hread, read_eq hp.numbered, stateOf_revision hp.numbered]
      omega
    · rw [hrow] at hnew
      cases hnew
      rw [hmoves.request]
      exact ⟨_, rfl, hb id old hold⟩
  obtain ⟨revision, hr, h₀, hle⟩ := hrequest
  rw [hr]
  exact ⟨h₀, by omega⟩

/-- What the texts that are hashed need of a run. -/
structure Hashed (t : Tables) : Prop where
  good : Good t
  published : Published t
  checked : Checked t
  based : Based t

theorem Hashed.change (hk : Hashed t) (h : Change handle clock t call t') : Hashed t' :=
  ⟨hk.good.change h, hk.published.change hk.good h, hk.checked.change h,
    hk.based.change hk.published h⟩

theorem hashed_fresh (run : RunRow) : Hashed (Tables.fresh run) where
  good := good_fresh run
  published := published_fresh run
  checked e he := by cases he
  based id row hr := by cases hr

/-- In every run the digest of a commit is the one of a text that the evaluation is read of,
and two evaluations are never hashed as one text. -/
theorem a_commit_is_attested_by_its_digest {now : ℚ} {runId : Dyn String} {initial : String}
    {limits : RunLimits} {observation : Option (Dyn String)} {self : SQLiteRun}
    (h : SQLiteRun.create now clock runId (.typed initial) limits observation = .ok self)
    (calls : List Timed) :
    let t := (self.after calls).db
    (∀ (i : ℕ) (c : CommitRow), t.commits.rows[i]? = some c → Attested initial t i c) ∧
    ∀ q ∈ t.evaluations.rows, ∀ q' ∈ t.evaluations.rows,
      JsonText.render JsonText.compact q.payload.json =
        JsonText.render JsonText.compact q'.payload.json → q = q' := by
  intro t
  obtain ⟨id, text, seen, hdb, hstate, -⟩ := create_ok h
  cases hstate
  have hi : t.run.initialState = initial :=
    after_keeps (fun t => t.run.initialState = initial)
      (fun _ _ _ _ _ hi hc => hc.initialState.trans hi) (by rw [hdb]; rfl) calls
  have hl : t.run.limits = limits.toLimitFields :=
    after_keeps (fun t => t.run.limits = limits.toLimitFields)
      (fun _ _ _ _ _ hl hc => hc.limits.trans hl) (by rw [hdb]; rfl) calls
  obtain ⟨hg, hp, hk, hb⟩ : Hashed t :=
    after_keeps Hashed (fun _ _ _ _ _ hk hc => hk.change hc) (hdb ▸ hashed_fresh _) calls
  have hr : Reserved (self.log calls) t := reserved_after (hdb ▸ reserved_fresh) calls
  have hshort : ∀ {revision : Int}, 0 ≤ revision → revision ≤ t.commits.rows.length →
      tooLong revision = false :=
    fun h₀ hle => hp.revision_short (fun id => (hr.tool id).mpr) (hl ▸ limits.accepted)
      (hr.room .tool) h₀ hle
  refine ⟨fun i c hc => ?_, ?_⟩
  · obtain ⟨hlt, -⟩ := List.getElem?_eq_some_iff.mp hc
    exact hi ▸ hp.attested hk hc (hshort (by omega) (by omega))
  intro q hq q' hq' hsame
  have hwritten : ∀ q ∈ t.evaluations.rows, ∃ (e : TypedEvaluation) (row : OperationRow),
      e.evaluation = q.payload ∧ tooLong e.candidate.base.revision = false ∧
      t.operation? q.operationId = some row ∧ row.id = q.payload.candidate.id := by
    intro q hq
    obtain ⟨e, he⟩ := hk q hq
    obtain ⟨row, hrow, -, hcand⟩ := (hp.evaluated q hq).candidate
    obtain ⟨call, -, hbound⟩ := candidate_ok.mp hcand
    have hbase : e.candidate.base = row.request.base := by
      rw [show e.candidate = q.payload.candidate from congrArg Evaluation.candidate he, hbound]
    refine ⟨e, row, he, ?_, hrow, (congrArg Candidate.id hbound).symm⟩
    rw [hbase]
    exact hshort (hb _ row hrow).1 (hb _ row hrow).2
  obtain ⟨e, row, he, hshort, hrow, hid⟩ := hwritten q hq
  obtain ⟨e', row', he', hshort', hrow', hid'⟩ := hwritten q' hq'
  have htext := evaluation_text hshort
  rw [he, hsame, ← he'] at htext
  have hpayload : q.payload = q'.payload := by
    rw [← he, ← he', Codec.text_inj htext (evaluation_text hshort')]
  refine Table.eq_of_key hq hq' ?_
  rw [← (Table.lookup_some hrow).2, ← (Table.lookup_some hrow').2, hid, hid', hpayload]

theorem a_commit_is_attested_by_its_digest_sample :
    Attested "draft" ((sampleRun (sampleLimits none none (by decide))).after sampleCalls).db 0
      ⟨1, "op", 0, "final", Evaluation.digest ⟨⟨"op", ⟨0, "draft"⟩, ⟨"act", "\x7b\x7d"⟩,
        some "done"⟩, .typed "evaluator", .typed "scope", .typed .satisfied, .typed "reason",
        some (.typed "final")⟩⟩ :=
  (a_commit_is_attested_by_its_digest (create_sample (sampleLimits none none (by decide)))
    sampleCalls).1 0 _ (by decide +kernel)

end FlynnAgents
