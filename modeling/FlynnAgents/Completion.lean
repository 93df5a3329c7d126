-- A returned output can always be completed: no other commit fits between the start of an
-- operation and its end, so its base is never stale and no constraint is in the way.
import FlynnAgents.RecoveryLaws

namespace FlynnAgents

open Relational Transactional

variable {handle : Handle} {clock : Clock} {t t' : Tables} {o : String} {c : Candidate}

/-! ## The refusal -/

/-- The refusal of `complete` that names the base of the candidate. -/
def staleBase : Exn := contractError "Stale candidate base; publication refused"

theorem contractError_ne {s : String} (h : s.toList.head? ≠ some 'S') :
    contractError s ≠ staleBase := by
  intro he
  have hs : s = "Stale candidate base; publication refused" := congrArg Exn.message he
  exact h (by rw [hs]; decide)

theorem otherType_ne {e : Exn} (h : e.typeName ≠ "ContractError") : e ≠ staleBase := by
  rintro rfl
  exact h rfl

theorem requireTime_fresh : (requireTime handle clock).Raises (· ≠ staleBase) := by
  refine Txn.raises_bind (Txn.raises_bind Txn.raises_get fun _ => Txn.raises_raiseIf ?_) fun _ =>
    Txn.raises_bind Txn.raises_get fun _ => Txn.raises_bind (Txn.raises_raiseIf ?_) fun _ =>
    Txn.raises_bind (Txn.raises_raiseIf ?_) fun _ => Txn.raises_modify _
  · exact contractError_ne (by decide)
  · exact contractError_ne (by decide)
  · exact otherType_ne (by decide)

theorem operation_fresh {stage : Option Stage} {e : Exn} (h : t.operation o stage = .error e) :
    e ≠ staleBase := by
  have hrefused : ∀ {found : Option Stage} {e : Exn},
      Tables.operation.refused o stage found = .error e → e ≠ staleBase := by
    intro found e he
    cases he
    apply contractError_ne
    simp [String.toList_append]
  unfold Tables.operation at h
  split at h
  · split at h
    · cases h
    · exact hrefused h
  · exact hrefused h

theorem candidate_fresh {row : OperationRow} {e : Exn} (h : row.candidate = .error e) :
    e ≠ staleBase := by
  unfold OperationRow.candidate at h
  split at h
  · cases h
  · cases h
    exact otherType_ne (by decide)

theorem checkEvaluation_fresh {evaluation : Evaluation} {e : Exn}
    (h : checkEvaluation c evaluation = .error e) : e ≠ staleBase := by
  unfold checkEvaluation at h
  split at h
  · cases h
    exact contractError_ne (by decide)
  split at h
  · cases h
    exact contractError_ne (by decide)
  split at h
  · cases h
    exact fun he => absurd (congrArg Exn.message he) (by decide)
  split at h
  · cases h
    exact contractError_ne (by decide)
  · cases h

theorem insertRow_fresh {ρ κ : Type} {key : ρ → κ} [DecidableEq κ] {table : String}
    {parent : Bool} {rows : Table key} {r : ρ} {e : Exn}
    (h : insertRow table parent rows r = .error e) : e ≠ staleBase := by
  unfold insertRow at h
  split at h
  · cases h
    exact otherType_ne (show "IntegrityError" ≠ "ContractError" by decide)
  · split at h
    · cases h
    · cases h
      exact otherType_ne (show "IntegrityError" ≠ "ContractError" by decide)

theorem insertPublished_fresh (current : State) (evaluation : Evaluation) :
    (insertPublished current c evaluation).Raises (· ≠ staleBase) := by
  unfold insertPublished
  split
  · exact fun _ _ h => by cases h
  · refine Txn.raises_bind ?_ fun _ => fun _ _ h => by cases h
    refine Txn.raises_bind Txn.raises_get fun _ =>
      Txn.raises_bind (Txn.raises_raiseIf (otherType_ne (by decide))) fun _ =>
      Txn.raises_bind (Txn.raises_raiseIf (otherType_ne (by decide))) fun _ =>
      Txn.raises_bind ?_ fun _ =>
      Txn.raises_modify _
    exact Txn.raises_ofExcept fun _ => insertRow_fresh

/-- What is left of `complete`, once the operation and its candidate are read. -/
theorem complete_tail_fresh {candidate : Candidate} (evaluation : Evaluation)
    (hbase : t.read = candidate.base) : Txn.Raises (· ≠ staleBase) (do
      Txn.ofExcept (checkEvaluation candidate evaluation)
      Txn.raiseIf (t.read ≠ candidate.base)
        (contractError "Stale candidate base; publication refused")
      insertEvaluation ⟨candidate.id, evaluation, evaluation.digest⟩
      let state ← insertPublished t.read candidate evaluation
      updateOperation candidate.id fun row => { row with stage := .completed }
      return (⟨candidate, evaluation, state, evaluation.published.isSome⟩ : StepResult)) := by
  refine Txn.raises_bind (Txn.raises_ofExcept fun _ => checkEvaluation_fresh) fun _ => ?_
  refine Txn.raises_bind ?_ fun _ => Txn.raises_bind ?_ fun _ =>
    Txn.raises_bind (insertPublished_fresh _ _) fun _ =>
    Txn.raises_bind (Txn.raises_modify _) fun _ => fun _ _ h => by cases h
  · intro s e he
    unfold Txn.raiseIf at he
    rw [if_neg (not_not_intro hbase)] at he
    cases he
  · refine Txn.raises_bind Txn.raises_get fun _ => Txn.raises_bind ?_ fun _ => Txn.raises_modify _
    exact Txn.raises_ofExcept fun _ => insertRow_fresh

/-- `complete` never refuses the base of a candidate. -/
theorem complete_fresh {self : SQLiteRun} (hp : Published self.db) (clock : Clock)
    (evaluation : Dyn Evaluation) :
    Call.answer (.complete evaluation) clock self ≠ .error staleBase := by
  intro he
  change ((SQLiteRun.complete clock evaluation).run self).1 = _ at he
  unfold SQLiteRun.complete at he
  rw [transaction_run] at he
  split at he
  · exact otherType_ne (by decide) (Except.error.inj he)
  rename_i handle _
  split at he
  · cases he
  rename_i e hbody
  cases he
  rw [Txn.run_bind] at hbody
  cases htime : (requireTime handle clock).run self.db with
  | error e =>
    rw [htime] at hbody
    cases hbody
    exact requireTime_fresh _ _ htime rfl
  | ok r =>
  obtain ⟨u, t⟩ := r
  obtain ⟨_, rfl⟩ := requireTime_ok.mp htime
  rw [htime] at hbody
  dsimp only at hbody
  cases evaluation with
  | other => exact otherType_ne (by decide) (Except.error.inj hbody)
  | typed evaluation =>
  dsimp only at hbody
  rw [Txn.run_get_bind] at hbody
  cases hrow : (self.db.tick clock).operation evaluation.candidate.id (some .returned) with
  | error e =>
    rw [hrow] at hbody
    cases hbody
    exact operation_fresh hrow rfl
  | ok row =>
  rw [hrow] at hbody
  change Txn.run (Txn.ofExcept row.candidate >>= _) (self.db.tick clock) = _ at hbody
  cases hcandidate : row.candidate with
  | error e =>
    rw [hcandidate] at hbody
    cases hbody
    exact candidate_fresh hcandidate rfl
  | ok candidate =>
  rw [hcandidate] at hbody
  -- the operation is under way, so its base is the state of the run
  obtain ⟨hoperation, hstage⟩ := operation_at_ok.mp hrow
  obtain ⟨call, -, rfl⟩ := candidate_ok.mp hcandidate
  have hbase : (self.db.tick clock).read = row.request.base :=
    (hp.base hoperation (by rw [hstage]; rfl)).symm
  refine complete_tail_fresh (t := self.db.tick clock) evaluation hbase _ _ hbody rfl

/-! ## The completion -/

/-- The evaluation is of exactly this candidate, and has all of its parts. -/
structure Evaluation.Binds (e : Evaluation) (c : Candidate) : Prop where
  candidate : e.candidate = c
  verdict : ∃ v, e.verdict = .typed v
  update : e.stateUpdate = none ∨ ∃ value, e.stateUpdate = some (.typed value)
  evaluator : ∃ text, e.evaluator = .typed text ∧ blank text = false
  scope : ∃ text, e.scope = .typed text ∧ blank text = false
  reason : ∃ text, e.reason = .typed text ∧ blank text = false

theorem Evaluation.Binds.checked {e : Evaluation} (h : e.Binds c) :
    checkEvaluation c e = .ok () := by
  obtain ⟨verdict, hverdict⟩ := h.verdict
  obtain ⟨evaluator, hevaluator, hnamed⟩ := h.evaluator
  obtain ⟨scope, hscope, hscoped⟩ := h.scope
  obtain ⟨reason, hreason, hgiven⟩ := h.reason
  have hupdate : e.stateUpdate ≠ some .other := by
    rcases h.update with hu | ⟨value, hu⟩ <;> simp [hu]
  unfold checkEvaluation
  simp [h.candidate, hverdict, hupdate, hevaluator, hscope, hreason, Dyn.isText, hnamed, hscoped,
    hgiven]

/-- What `pending` reports of a returned operation is in its row. -/
theorem kept_of_pending {p : PendingOperation} (h : t.pending = .ok (some p))
    (hc : p.candidate = some c) : t.Kept c.id c := by
  unfold Tables.pending at h
  split at h
  · cases h
  rename_i row hfind
  split at h
  · rename_i hstage
    cases hcandidate : row.candidate with
    | error e =>
      rw [hcandidate] at h
      cases h
    | ok candidate =>
      rw [hcandidate] at h
      cases h
      cases hc
      obtain ⟨call, -, rfl⟩ := candidate_ok.mp hcandidate
      exact ⟨row, Table.lookup_of_mem (List.mem_of_find?_eq_some hfind), hstage, hcandidate⟩
  · cases h
    cases hc

/-- Whether the evaluation advances the revision. -/
def Evaluation.advances (e : Evaluation) : Prop :=
  e.verdict = .typed .satisfied ∧ e.stateUpdate ≠ none

instance (e : Evaluation) : Decidable e.advances := inferInstanceAs (Decidable (_ ∧ _))

theorem commitRows_length {e : Evaluation} (h : e.Binds c) (current : State) :
    (commitRows current c e).length = if e.advances then 1 else 0 := by
  unfold commitRows
  cases hpublished : e.published with
  | none =>
    rw [if_neg]
    · rfl
    rintro ⟨hverdict, hsome⟩
    rcases h.update with hu | ⟨value, hu⟩
    · exact hsome hu
    · rw [published_iff.mpr ⟨hverdict, hu⟩] at hpublished
      cases hpublished
  | some value =>
    obtain ⟨hverdict, hu⟩ := published_iff.mp hpublished
    rw [if_pos ⟨hverdict, by simp [hu]⟩]
    rfl

/-- A completion advances the revision by its one commit, if it has one. -/
theorem complete_revision {e : Evaluation} (hg : Good t) (hp : Published t)
    (h : Change handle clock t (.complete (.typed e)) t') (hb : e.Binds c) :
    t'.read.revision = t.read.revision + if e.advances then 1 else 0 := by
  have hp' := hp.change hg h
  rw [read_eq hp'.numbered, read_eq hp.numbered, stateOf_revision hp'.numbered,
    stateOf_revision hp.numbered]
  cases h with
  | @complete _ row candidate evals commits _ operation stage loaded checked base evaluated _
      unpublished committed =>
    have hc : candidate = c := (checkEvaluation_binds checked).symm.trans hb.candidate
    rw [hc] at committed
    simp only [Table.insertAll_rows committed, List.length_append, commitRows_length hb]
    split <;> simp

/-- In every state of a run the base of an operation under way is the state of the run, so
that no evaluation is refused for a stale base; and while the run is open and in time, the
output that `pending` reports is completed by every evaluation that binds it. -/
theorem no_returned_evidence_is_stuck {now : ℚ} {runId state : Dyn String} {limits : RunLimits}
    {observation : Option (Dyn String)} {self : SQLiteRun}
    (h : SQLiteRun.create now clock runId state limits observation = .ok self)
    (calls : List Timed) :
    let run := self.after calls
    (∀ id row, run.db.operation? id = some row → row.stage ≠ .completed → row.stage ≠ .failed →
      row.request.base = run.db.read) ∧
    (∀ clock evaluation, Call.answer (.complete evaluation) clock run ≠ .error staleBase) ∧
    ∀ (clock : Clock) (handle : Handle) (p : PendingOperation) (c : Candidate) (e : Evaluation),
      run.handle = some handle → Timely handle clock run.db →
      Call.answer .pending clock run = .ok (some p) → p.candidate = some c → e.Binds c →
      ∃ r, Call.answer (.complete (.typed e)) clock run = .ok r ∧
        (exec ⟨clock, .complete (.typed e)⟩ run).2.db.At c.id .completed ∧
        (exec ⟨clock, .complete (.typed e)⟩ run).2.db.read.revision =
          run.db.read.revision + if e.advances then 1 else 0 := by
  intro run
  obtain ⟨id, text, seen, hdb, -⟩ := create_ok h
  have hgood : Good run.db := good_after (hdb ▸ good_fresh _) calls
  have hpub : Published run.db :=
    published_after (hdb ▸ good_fresh _) (hdb ▸ published_fresh _) calls
  refine ⟨fun id row hrow hcompleted hfailed => ?_, complete_fresh hpub, ?_⟩
  · refine hpub.base hrow ?_
    cases hs : row.stage <;> first | rfl | exact absurd hs hcompleted | exact absurd hs hfailed
  intro clock handle p c e hhandle htimely hpending hc hbinds
  have hkept : run.db.Kept c.id c := by
    refine kept_of_pending ?_ hc
    change ((query Tables.pending).run run).1 = _ at hpending
    rwa [query_of_live hhandle] at hpending
  obtain ⟨t', hchange⟩ := completes hpub htimely hkept hbinds.checked
  have hcommits : Commits clock (.complete (.typed e)) run { run with db := t' } :=
    ⟨handle, t', hhandle, hchange, rfl⟩
  refine ⟨e.result run.db.read, congrArg Prod.fst (complete_ok.mpr ⟨hcommits, rfl⟩), ?_⟩
  rw [exec_of_commits (i := ⟨clock, .complete (.typed e)⟩) hcommits]
  refine ⟨?_, complete_revision hgood hpub hchange hbinds⟩
  exact (hchange.completed_iff c.id).mpr (.inr ⟨e, rfl, by rw [hbinds.candidate]⟩)

/-- The candidate that the sample run waits with, and an evaluation of it. -/
def waitingCandidate : Candidate := ⟨"op", ⟨0, "draft"⟩, ⟨"act", "\x7b\x7d"⟩, some "done"⟩

def finalEvaluation : Evaluation where
  candidate := waitingCandidate
  evaluator := .typed "evaluator"
  scope := .typed "scope"
  verdict := .typed .satisfied
  reason := .typed "reason"
  stateUpdate := some (.typed "final")

theorem no_returned_evidence_is_stuck_sample :
    let run := (sampleRun (sampleLimits none none (by decide))).after (sampleCalls.take 5)
    ∃ r, Call.answer (.complete (.typed finalEvaluation)) ⟨5, 5⟩ run = .ok r ∧
      (exec ⟨⟨5, 5⟩, .complete (.typed finalEvaluation)⟩ run).2.db.At "op" .completed ∧
      (exec ⟨⟨5, 5⟩, .complete (.typed finalEvaluation)⟩ run).2.db.read.revision =
        run.db.read.revision + 1 := by
  have hbinds : finalEvaluation.Binds waitingCandidate :=
    ⟨rfl, ⟨_, rfl⟩, .inr ⟨_, rfl⟩, ⟨_, rfl, by decide⟩, ⟨_, rfl, by decide⟩, ⟨_, rfl, by decide⟩⟩
  have hstuck := no_returned_evidence_is_stuck
    (create_sample (sampleLimits none none (by decide))) (sampleCalls.take 5)
  refine hstuck.2.2 ⟨5, 5⟩ ⟨none⟩ ⟨"op", .returned, some waitingCandidate⟩ waitingCandidate
    finalEvaluation ?_ ?_ ?_ rfl hbinds
  · decide +kernel
  · exact ⟨by decide +kernel, by decide +kernel, by decide +kernel⟩
  · decide +kernel

end FlynnAgents
