-- What the run has accepted: the commits are numbered without a gap, each
-- one comes from a completed operation with a satisfied evaluation of the
-- exact candidate, and `read` gives the last of them.
import FlynnAgents.Operations
import FlynnAgents.Reservations

namespace FlynnAgents

open Relational Transactional

variable {handle : Handle} {clock : Clock} {t t' : Tables} {call : Call}

/-- The state after a list of commits. -/
def stateOf (initial : String) (commits : List CommitRow) : State :=
  match commits.getLast? with
  | some c => ⟨c.revision, c.value⟩
  | none => ⟨0, initial⟩

/-! ## The numbering of the commits -/

/-- The commits are 1, 2, 3 and so on, each on the one before it. -/
def Numbered (commits : List CommitRow) : Prop :=
  ∀ (i : ℕ) (c : CommitRow), commits[i]? = some c → c.revision = i + 1 ∧ c.baseRevision = i

theorem numbered_append {commits : List CommitRow} {c : CommitRow} (h : Numbered commits)
    (hr : c.revision = commits.length + 1) (hb : c.baseRevision = commits.length) :
    Numbered (commits ++ [c]) := by
  intro i d hd
  by_cases hi : i < commits.length
  · rw [List.getElem?_append_left hi] at hd
    exact h i d hd
  · obtain ⟨rfl, rfl⟩ : i = commits.length ∧ c = d := by
      rw [List.getElem?_append_right (by omega)] at hd
      have hlt : i - commits.length < 1 := by
        by_contra hn
        rw [List.getElem?_eq_none (by simp; omega)] at hd
        cases hd
      have hi : i = commits.length := by omega
      subst hi
      simpa using hd
    exact ⟨hr, hb⟩

theorem numbered_take {commits : List CommitRow} (h : Numbered commits) (n : ℕ) :
    Numbered (commits.take n) := by
  intro i c hi
  rw [List.getElem?_take] at hi
  split at hi
  · exact h i c hi
  · cases hi

theorem stateOf_revision {initial : String} {commits : List CommitRow} (h : Numbered commits) :
    (stateOf initial commits).revision = commits.length := by
  unfold stateOf
  rcases hl : commits.getLast? with _ | c
  · simp [List.getLast?_eq_none_iff.mp hl]
  · rw [List.getLast?_eq_getElem?] at hl
    have hpos : 0 < commits.length := by
      by_contra hn
      rw [List.getElem?_eq_none (by omega)] at hl
      cases hl
    have := (h _ c hl).1
    simp only [this]
    omega

theorem foldl_laterCommit_mem {commits : List CommitRow} {start : Option CommitRow}
    {b : CommitRow} (h : commits.foldl laterCommit start = some b) :
    start = some b ∨ b ∈ commits := by
  induction commits generalizing start with
  | nil => exact .inl h
  | cons c cs ih =>
    rcases ih h with hs | hm
    · unfold laterCommit at hs
      split at hs
      · cases hs
        exact .inr (by simp)
      · split at hs
        · cases hs
          exact .inr (by simp)
        · exact .inl hs
    · exact .inr (List.mem_cons_of_mem _ hm)

/-- Of numbered commits, the largest revision is the last. -/
theorem foldl_laterCommit {commits : List CommitRow} (h : Numbered commits) :
    commits.foldl laterCommit none = commits.getLast? := by
  rcases List.eq_nil_or_concat commits with rfl | ⟨init, c, rfl⟩
  · rfl
  · rw [List.concat_eq_append] at h ⊢
    rw [List.foldl_append, List.getLast?_append]
    simp only [List.foldl_cons, List.foldl_nil, List.getLast?_singleton, Option.some_or]
    rcases hf : init.foldl laterCommit none with _ | b
    · rfl
    · have hb : b ∈ init := (foldl_laterCommit_mem hf).resolve_left (by simp)
      obtain ⟨i, hi, hbi⟩ := List.getElem_of_mem hb
      have hbr := (h i b (by rw [List.getElem?_append_left hi, List.getElem?_eq_getElem hi, hbi])).1
      have hcr := (h init.length c (by simp)).1
      rw [laterCommit, if_pos (by omega)]

/-- `read` gives the last commit. -/
theorem read_eq (h : Numbered t.commits.rows) :
    t.read = stateOf t.run.initialState t.commits.rows := by
  have hf := foldl_laterCommit h
  rcases hl : t.commits.rows.getLast? with _ | c <;> simp only [Tables.read, stateOf, hf, hl]

/-! ## One change -/

/-- No change touches the initial state of the run. -/
theorem Change.initialState (h : Change handle clock t call t') :
    t'.run.initialState = t.run.initialState := by
  cases h <;> rfl

/-- Only `complete` writes evaluations and commits. -/
theorem Change.unpublished (h : Change handle clock t call t')
    (hc : ∀ e, call ≠ .complete (.typed e)) :
    t'.evaluations = t.evaluations ∧ t'.commits = t.commits := by
  cases h with
  | @complete e => exact absurd rfl (hc e)
  | _ => exact ⟨rfl, rfl⟩

theorem Change.read_eq (h : Change handle clock t call t')
    (hc : ∀ e, call ≠ .complete (.typed e)) : t'.read = t.read := by
  simp only [Tables.read, (h.unpublished hc).2, h.initialState]

/-- A completed operation stays completed, with its candidate. -/
theorem Moves.stays_completed {id : String} {row row' : OperationRow} (h : Moves id call row row')
    (hs : row.stage = .completed) :
    row'.stage = .completed ∧ row'.candidate = row.candidate := by
  cases h with
  | failed => exact ⟨by simp [hs, Stage.afterFailure], rfl⟩
  | abandoned h => rcases h with h | h <;> rw [hs] at h <;> cases h
  | proposed h | dispatched h | returned h | completed _ h => rw [hs] at h; cases h

theorem Moves.to_completed {id : String} {row row' : OperationRow} (h : Moves id call row row')
    (hs : row'.stage = .completed) :
    row.stage = .completed ∨ ∃ e, call = .complete (.typed e) ∧ e.candidate.id = id := by
  cases h with
  | failed =>
    left
    revert hs
    cases row.stage <;> simp [Stage.afterFailure]
  | completed hid => exact .inr ⟨_, rfl, hid⟩
  | _ => cases hs

/-- The operation is completed. -/
def Tables.Completed (t : Tables) (id : String) : Prop :=
  ∃ row, t.operation? id = some row ∧ row.stage = .completed

theorem Change.completed_iff (h : Change handle clock t call t') (id : String) :
    t'.Completed id ↔
      t.Completed id ∨ ∃ e, call = .complete (.typed e) ∧ e.candidate.id = id := by
  unfold Tables.Completed
  rcases h.lookup id with ⟨hw, he⟩ | ⟨hn, _, _, _, rfl, hs⟩ | ⟨row, row', hr, hr', hm⟩
  · rw [he]
    refine ⟨.inl, fun hor => hor.resolve_right ?_⟩
    rintro ⟨e, rfl, rfl⟩
    exact hw rfl
  · simp [hn, hs]
  · simp only [hr, hr', Option.some.injEq, exists_eq_left']
    refine ⟨hm.to_completed, ?_⟩
    rintro (hs | ⟨e, rfl, rfl⟩)
    · exact (hm.stays_completed hs).1
    · cases hm
      rfl

/-! ## Every run -/

/-- An evaluation row and the operation that it completed. -/
structure Evaluated (t : Tables) (e : EvaluationRow) : Prop where
  candidate : ∃ row, t.operation? e.operationId = some row ∧ row.stage = .completed ∧
    row.candidate = .ok e.payload.candidate
  digest : e.digest = e.payload.digest
  textual : e.payload.stateUpdate ≠ some .other

/-- A commit row, the evaluation that it publishes and the state before it. -/
structure Committed (t : Tables) (before : State) (c : CommitRow) : Prop where
  evaluation : ∃ e, t.evaluations.lookup c.operationId = some e ∧ e.digest = c.evaluationDigest ∧
    e.payload.published = some c.value ∧ e.payload.candidate.base = before

/-- What holds of the accepted state of every run. -/
structure Published (t : Tables) : Prop where
  numbered : Numbered t.commits.rows
  committed : ∀ (i : ℕ) (c : CommitRow), t.commits.rows[i]? = some c →
    Committed t (stateOf t.run.initialState (t.commits.rows.take i)) c
  evaluated : ∀ e ∈ t.evaluations.rows, Evaluated t e
  completed : ∀ id, t.evaluations.Has id ↔ t.Completed id
  publishes : ∀ e ∈ t.evaluations.rows,
    (∃ c ∈ t.commits.rows, c.operationId = e.operationId) ↔ e.payload.published.isSome = true
  base : ∀ {id : String} {row : OperationRow}, t.operation? id = some row →
    row.stage.live = true → row.request.base = t.read

theorem published_fresh (run : RunRow) : Published (Tables.fresh run) where
  numbered _ _ h := by cases h
  committed _ _ h := by cases h
  evaluated _ h := by cases h
  completed id := by simp [Tables.fresh, Table.Has, Tables.Completed, Tables.operation?]
  publishes _ h := by cases h
  base h := by cases h

/-- An evaluation row stays good while its operation stays completed. -/
theorem Evaluated.change {e : EvaluationRow} (he : Evaluated t e)
    (h : Change handle clock t call t') : Evaluated t' e where
  candidate := by
    obtain ⟨row, hr, hs, hc⟩ := he.candidate
    rcases h.lookup e.operationId with ⟨-, hl⟩ | ⟨hn, -⟩ | ⟨row₁, row', hr₁, hr', hm⟩
    · exact ⟨row, hl ▸ hr, hs, hc⟩
    · rw [hr] at hn
      cases hn
    · rw [hr] at hr₁
      cases hr₁
      obtain ⟨hs', hc'⟩ := hm.stays_completed hs
      exact ⟨row', hr', hs', hc'.trans hc⟩
  digest := he.digest
  textual := he.textual

/-- An operation under way keeps the request that it started with. -/
theorem Change.request (h : Change handle clock t call t') {id : String} {row' : OperationRow}
    (ho : t'.operation? id = some row') (hl : row'.stage.live = true) :
    row'.request.base = t.read ∨
      ∃ row, t.operation? id = some row ∧ row.stage.live = true ∧ row'.request = row.request := by
  rcases h.lookup id with ⟨-, he⟩ | ⟨-, _, _, _, rfl, hs⟩ | ⟨row, row₁, hr, hr', hm⟩
  · exact .inr ⟨row', he ▸ ho, hl, rfl⟩
  · cases h with
    | start _ _ _ _ _ _ base =>
      rw [ho] at hs
      cases hs
      exact .inl base
  · rw [ho] at hr'
    cases hr'
    exact .inr ⟨row, hr, hm.live hl, hm.request⟩

/-- A change that publishes nothing. -/
theorem Published.other (hp : Published t) (h : Change handle clock t call t')
    (hc : ∀ e, call ≠ .complete (.typed e)) : Published t' := by
  obtain ⟨hevals, hcommits⟩ := h.unpublished hc
  refine ⟨?_, ?_, ?_, fun id => ?_, ?_, fun ho hl => ?_⟩
  · rw [hcommits]
    exact hp.numbered
  · rw [hcommits, h.initialState]
    intro i c hi
    obtain ⟨e, he⟩ := (hp.committed i c hi).evaluation
    exact ⟨e, hevals ▸ he⟩
  · rw [hevals]
    exact fun e he => (hp.evaluated e he).change h
  · rw [hevals, hp.completed, h.completed_iff]
    refine ⟨.inl, fun hor => hor.resolve_right ?_⟩
    rintro ⟨e, he, -⟩
    exact hc e he
  · rw [hevals, hcommits]
    exact hp.publishes
  · rw [h.read_eq hc]
    rcases h.request ho hl with hb | ⟨row, hr, hl', he⟩
    · exact hb
    · rw [he]
      exact hp.base hr hl'

theorem candidate_ok {row : OperationRow} {candidate : Candidate} :
    row.candidate = .ok candidate ↔
      ∃ c, row.call = some c ∧ candidate = ⟨row.id, row.request.base, c, row.output⟩ := by
  unfold OperationRow.candidate
  rcases row.call with _ | c
  · simp
  · simp [eq_comm]

theorem checkEvaluation_textual {candidate : Candidate} {e : Evaluation}
    (h : checkEvaluation candidate e = .ok ()) : e.stateUpdate ≠ some .other := by
  unfold checkEvaluation at h
  intro hu
  simp only [hu, if_true] at h
  split at h
  · cases h
  · split at h <;> cases h

/-- While an operation is being completed, no other is under way. -/
theorem Change.complete_quiet {e : Evaluation} (hg : Good t)
    (h : Change handle clock t (.complete (.typed e)) t') {id : String} {row' : OperationRow}
    (ho : t'.operation? id = some row') : row'.stage.live = false := by
  by_contra hl
  rw [Bool.not_eq_false] at hl
  rcases h.live ho hl with ⟨row, hr, hl'⟩ | ⟨_, _, _, hc⟩
  · obtain ⟨done, hd, hs⟩ := (h.completed_iff e.candidate.id).mpr (.inr ⟨e, rfl, rfl⟩)
    have hid : id = e.candidate.id := by
      cases h with
      | complete _ operation stage =>
        exact hg.single hr operation hl' (by rw [stage]; rfl)
    rw [hid, hd] at ho
    cases ho
    rw [hs] at hl
    cases hl
  · cases hc

/-- The one commit of `complete`, if it publishes. -/
theorem mem_commitRows {current : State} {candidate : Candidate} {e : Evaluation} {c : CommitRow} :
    c ∈ commitRows current candidate e ↔ ∃ value, e.published = some value ∧
      c = ⟨current.revision + 1, candidate.id, candidate.base.revision, value, e.digest⟩ := by
  unfold commitRows
  rcases e.published with _ | value <;> simp

theorem commitRows_length_le (current : State) (candidate : Candidate) (e : Evaluation) :
    (commitRows current candidate e).length ≤ 1 := by
  unfold commitRows
  split <;> simp

/-- The commits after `complete` are numbered on. -/
theorem numbered_commitRows {candidate : Candidate} {e : Evaluation}
    (hn : Numbered t.commits.rows) (hb : t.read = candidate.base) :
    Numbered (t.commits.rows ++ commitRows t.read candidate e) := by
  have hr : (stateOf t.run.initialState t.commits.rows).revision = t.commits.rows.length :=
    stateOf_revision hn
  rw [← read_eq hn] at hr
  unfold commitRows
  split
  · exact numbered_append hn (by rw [hr]) (by rw [← hb, hr])
  · rwa [List.append_nil]

theorem Published.complete (hp : Published t) (hg : Good t) {e : Evaluation}
    (h : Change handle clock t (.complete (.typed e)) t') : Published t' := by
  have hc := h
  cases hc with
  | @complete _ row candidate evals commits _ operation stage loaded checked base evaluated _
      unpublished committed =>
    have hrows := Table.insertAll_rows committed
    have hbind := checkEvaluation_binds checked
    have hfresh : ¬ t.evaluations.Has candidate.id := (Table.insert_eq_some_iff.mp evaluated).1
    have hold : ∀ {id q}, t.evaluations.lookup id = some q → evals.lookup id = some q := by
      intro id q hq
      rw [Table.lookup_insert evaluated, if_neg]
      · exact hq
      · rintro rfl
        exact hfresh (Table.has_iff_lookup.mpr ⟨q, hq⟩)
    refine ⟨?_, ?_, ?_, fun id => ?_, ?_, fun ho hl => ?_⟩
    · simp only [hrows]
      exact numbered_commitRows hp.numbered base
    · simp only [hrows]
      intro i c hi
      by_cases hlt : i < t.commits.rows.length
      · rw [List.getElem?_append_left hlt] at hi
        rw [List.take_append_of_le_length (by omega)]
        obtain ⟨q, hq, hrest⟩ := (hp.committed i c hi).evaluation
        exact ⟨q, hold hq, hrest⟩
      · rw [List.getElem?_append_right (by omega)] at hi
        have hlen := commitRows_length_le t.read candidate e
        obtain ⟨hj, -⟩ := List.getElem?_eq_some_iff.mp hi
        obtain ⟨value, hv, rfl⟩ := mem_commitRows.mp (List.mem_of_getElem? hi)
        rw [show i = t.commits.rows.length by omega, List.take_left]
        refine ⟨⟨candidate.id, e, e.digest⟩, ?_, rfl, hv, ?_⟩
        · rw [Table.lookup_insert evaluated, if_pos rfl]
        · rw [hbind, ← base, read_eq hp.numbered]
          rfl
    · intro q hq
      rcases (Table.mem_insert evaluated).mp hq with hq | rfl
      · exact (hp.evaluated q hq).change h
      · refine ⟨⟨{ row with stage := .completed }, ?_, rfl, ?_⟩, rfl,
          checkEvaluation_textual checked⟩
        · rw [hbind] at operation
          rw [Tables.operation?] at operation ⊢
          rw [Table.lookup_update, if_pos rfl, operation]
          rfl
        · rw [hbind, ← loaded]
          rfl
    · rw [h.completed_iff, ← hp.completed, Table.has_insert evaluated]
      constructor
      · rintro (rfl | hh)
        · exact .inr ⟨e, rfl, by rw [hbind]⟩
        · exact .inl hh
      · rintro (hh | ⟨e', he, rfl⟩)
        · exact .inr hh
        · cases he
          exact .inl (by rw [hbind])
    · intro q hq
      simp only [hrows, List.mem_append]
      rcases (Table.mem_insert evaluated).mp hq with hq | rfl
      · rw [← hp.publishes q hq]
        constructor
        · rintro ⟨c, hc | hc, hid⟩
          · exact ⟨c, hc, hid⟩
          · refine absurd ⟨q, hq, ?_⟩ hfresh
            rw [← hid, commitRows_operationId hc]
        · rintro ⟨c, hc, hid⟩
          exact ⟨c, .inl hc, hid⟩
      · constructor
        · rintro ⟨c, hc | hc, hid⟩
          · obtain ⟨i, hi⟩ := List.mem_iff_getElem?.mp hc
            obtain ⟨q, hq, -⟩ := (hp.committed i c hi).evaluation
            rw [hid] at hq
            exact absurd (Table.has_iff_lookup.mpr ⟨q, hq⟩) hfresh
          · obtain ⟨value, hv, -⟩ := mem_commitRows.mp hc
            exact Option.isSome_of_eq_some hv
        · intro hv
          obtain ⟨value, hv⟩ := Option.isSome_iff_exists.mp hv
          exact ⟨_, .inr (mem_commitRows.mpr ⟨value, hv, rfl⟩), rfl⟩
    · rw [h.complete_quiet hg ho] at hl
      cases hl

theorem Published.change (hp : Published t) (hg : Good t)
    (h : Change handle clock t call t') : Published t' := by
  by_cases hc : ∃ e, call = .complete (.typed e)
  · obtain ⟨e, rfl⟩ := hc
    exact hp.complete hg h
  · exact hp.other h fun e he => hc ⟨e, he⟩

theorem published_after {self : SQLiteRun} (hg : Good self.db) (hp : Published self.db)
    (calls : List Timed) : Published (self.after calls).db :=
  (after_keeps (fun t => Good t ∧ Published t)
    (fun _ _ _ _ _ h hc => ⟨h.1.change hc, h.2.change h.1 hc⟩) ⟨hg, hp⟩ calls).2

/-- Each commit has a tool call of its own. -/
theorem Published.commits_le (hp : Published t)
    (hf : ∀ id, t.Spent id → t.reservations.Has (id, .tool)) :
    t.commits.rows.length ≤ t.used .tool := by
  have hnodup : (t.commits.rows.map CommitRow.operationId).Nodup := by
    rw [List.nodup_iff_injective_getElem]
    rintro ⟨i, hi⟩ ⟨j, hj⟩ hsame
    rw [List.length_map] at hi hj
    simp only [List.getElem_map] at hsame
    have hbase : ∀ (k : ℕ) (hk : k < t.commits.rows.length), ∃ e,
        t.evaluations.lookup t.commits.rows[k].operationId = some e ∧
          e.payload.candidate.base.revision = k := by
      intro k hk
      obtain ⟨e, he, -, -, hbase⟩ := (hp.committed k _ (List.getElem?_eq_getElem hk)).evaluation
      refine ⟨e, he, ?_⟩
      rw [hbase, stateOf_revision (numbered_take hp.numbered k), List.length_take,
        Nat.min_eq_left hk.le]
    obtain ⟨e, he, hei⟩ := hbase i hi
    obtain ⟨e', he', hej⟩ := hbase j hj
    rw [hsame, he'] at he
    cases he
    exact Fin.ext (by simpa [hei] using hej)
  have hsub : t.commits.rows.map CommitRow.operationId ⊆
      (t.reservations.rows.filter fun r => decide (r.kind = .tool)).map
        ReservationRow.operationId := by
    intro id hid
    obtain ⟨c, hc, rfl⟩ := List.mem_map.mp hid
    obtain ⟨i, hi⟩ := List.mem_iff_getElem?.mp hc
    obtain ⟨e, he, -⟩ := (hp.committed i c hi).evaluation
    obtain ⟨row, hrow, hstage⟩ := (hp.completed _).mp ⟨e, Table.lookup_some he⟩
    obtain ⟨r, hr, hkey⟩ := hf _ ⟨row, hrow, by rw [hstage]; rfl⟩
    exact List.mem_map.mpr ⟨r, List.mem_filter.mpr ⟨hr, decide_eq_true (congrArg Prod.snd hkey)⟩,
      congrArg Prod.fst hkey⟩
  have hle := (hnodup.subperm hsub).length_le
  rwa [List.length_map, List.length_map, ← List.countP_eq_length_filter] at hle

/-- A revision has few enough digits to be written. -/
theorem Published.revision_short (hp : Published t)
    (hf : ∀ id, t.Spent id → t.reservations.Has (id, .tool))
    (hl : t.run.limits.postInit = none) (hroom : 0 ≤ t.remaining .tool) {revision : Int}
    (h₀ : 0 ≤ revision) (h : revision ≤ t.commits.rows.length) : tooLong revision = false := by
  have hle := hp.commits_le hf
  have hlimit : sqliteInteger (t.run.limits.of .tool) = true := limits_counted hl .tool
  refine sqliteInteger_short ?_
  unfold sqliteInteger at hlimit ⊢
  unfold Tables.remaining at hroom
  obtain ⟨-, hlt⟩ := of_decide_eq_true hlimit
  exact decide_eq_true ⟨h₀, by omega⟩

/-- The accepted state of a run whose first state was `initial`. -/
structure Accepted (initial : String) (t : Tables) : Prop where
  numbered : ∀ (i : ℕ) (c : CommitRow), t.commits.rows[i]? = some c →
    c.revision = i + 1 ∧ c.baseRevision = c.revision - 1
  committed : ∀ (i : ℕ) (c : CommitRow), t.commits.rows[i]? = some c →
    ∃ row call output e, t.operation? c.operationId = some row ∧ row.stage = .completed ∧
      row.call = some call ∧ row.output = some output ∧
      t.evaluations.lookup c.operationId = some e ∧ e.digest = c.evaluationDigest ∧
      e.payload.verdict = .typed .satisfied ∧ e.payload.stateUpdate = some (.typed c.value) ∧
      e.payload.candidate = ⟨c.operationId, row.request.base, call, some output⟩ ∧
      row.request.base = stateOf initial (t.commits.rows.take i)
  evaluated : ∀ id, (∃ e ∈ t.evaluations.rows, e.operationId = id) ↔
    ∃ row, t.operation? id = some row ∧ row.stage = .completed
  once : (t.evaluations.rows.map EvaluationRow.operationId).Nodup
  publishes : ∀ e ∈ t.evaluations.rows,
    (∃ c ∈ t.commits.rows, c.operationId = e.operationId) ↔
      e.payload.verdict = .typed .satisfied ∧ e.payload.stateUpdate ≠ none
  read : t.read = stateOf initial t.commits.rows

theorem published_iff {e : Evaluation} {value : String} :
    e.published = some value ↔
      e.verdict = .typed .satisfied ∧ e.stateUpdate = some (.typed value) := by
  unfold Evaluation.published
  split
  · simp [*]
  · rename_i hn
    simp only [reduceCtorEq, false_iff]
    rintro ⟨hv, hu⟩
    exact hn value hv hu

theorem Published.accepted (hp : Published t) (hg : Good t) :
    Accepted t.run.initialState t where
  numbered i c hi := by
    obtain ⟨hr, hb⟩ := hp.numbered i c hi
    exact ⟨hr, by omega⟩
  committed i c hi := by
    obtain ⟨e, he, hd, hpub, hbase⟩ := (hp.committed i c hi).evaluation
    obtain ⟨hm, hid⟩ := Table.lookup_some he
    obtain ⟨row, hr, hs, hc⟩ := (hp.evaluated e hm).candidate
    obtain ⟨call, hcall, hcand⟩ := candidate_ok.mp hc
    rw [hid] at hr
    obtain ⟨output, hout⟩ := Option.isSome_iff_exists.mp ((hg.rows hr).returned (.inr hs))
    obtain ⟨hv, hu⟩ := published_iff.mp hpub
    refine ⟨row, call, output, e, hr, hs, hcall, hout, he, hd, hv, hu, ?_, ?_⟩
    · rw [hcand, (Table.lookup_some hr).2, hout]
    · rw [← hbase, hcand]
  evaluated id := hp.completed id
  once := t.evaluations.keysNodup
  publishes e he := by
    rw [hp.publishes e he, Option.isSome_iff_exists]
    constructor
    · rintro ⟨value, hv⟩
      obtain ⟨hv, hu⟩ := published_iff.mp hv
      exact ⟨hv, by simp [hu]⟩
    · rintro ⟨hv, hu⟩
      rcases hs : e.payload.stateUpdate with _ | value | _
      · exact absurd hs hu
      · exact ⟨value, published_iff.mpr ⟨hv, hs⟩⟩
      · exact absurd hs (hp.evaluated e he).textual
  read := read_eq hp.numbered

/-- For every sequence of calls, whatever they return or raise: the commits
are numbered from 1, each comes from a completed operation whose satisfied
evaluation binds the exact candidate on the state just before, an operation
is evaluated once exactly when it is completed, and `read` gives the last
commit. -/
theorem only_a_satisfied_evaluation_is_published {now : ℚ} {runId : Dyn String} {initial : String}
    {limits : RunLimits} {observation : Option (Dyn String)} {self : SQLiteRun}
    (h : SQLiteRun.create now clock runId (.typed initial) limits observation = .ok self)
    (calls : List Timed) : Accepted initial (self.after calls).db := by
  obtain ⟨id, text, seen, hdb, hstate, -⟩ := create_ok h
  cases hstate
  have hgood : Good self.db := hdb ▸ good_fresh _
  have hpub : Published self.db := hdb ▸ published_fresh _
  have hi : (self.after calls).db.run.initialState = initial :=
    after_keeps (fun t => t.run.initialState = initial)
      (fun _ _ _ _ _ hi hc => hc.initialState.trans hi) (by rw [hdb]; rfl) calls
  have ha := (published_after hgood hpub calls).accepted (good_after hgood calls)
  rwa [hi] at ha

theorem only_a_satisfied_evaluation_is_published_sample :
    Accepted "draft" ((sampleRun (sampleLimits none none (by decide))).after sampleCalls).db :=
  only_a_satisfied_evaluation_is_published (create_sample (sampleLimits none none (by decide)))
    sampleCalls

end FlynnAgents
