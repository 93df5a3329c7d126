-- A run is a ledger: every change of its file is one entry at most, and what the
-- entries pay for bounds the run.
import FlynnAgents.Publication
import FlynnAgents.Reservations
import FlynnAgents.Lib.Ledger

namespace FlynnAgents

open Relational Transactional Ledgers

variable {handle : Handle} {clock : Clock} {t t' : Tables} {call : Call}

/-! ## The ledger of a run -/

/-- What an entry costs: an inference, and a tool call, which may act externally. -/
def tariff : Tariff ReservationKind Bool where
  ask
    | .inference => 1
    | _ => 0
  act externalAction
    | .inference => 0
    | .tool => 1
    | .external => externalAction.toNat

abbrev RunLedger := Ledgers.Ledger String String (Option String) ReservationKind String

abbrev RunAct := Ledgers.Act String String (Option String) Bool String

/-- How far an operation is. -/
def OperationRow.progress (row : OperationRow) : Progress (Option String) :=
  match row.stage with
  | .dispatched => .acting
  | .returned => .answered row.output
  | _ => .asked

/-- The base of an operation under way, and how far it is. -/
def OperationRow.standing (row : OperationRow) : Option (Int × Progress (Option String)) :=
  if row.stage.live then some (row.request.base.revision, row.progress) else none

def standingIn (operations : Table OperationRow.id) (id : String) :
    Option (Int × Progress (Option String)) :=
  (operations.lookup id).bind OperationRow.standing

def Tables.standing (t : Tables) (id : String) : Option (Int × Progress (Option String)) :=
  standingIn t.operations id

/-- The file says what the ledger says. -/
structure Tables.Keeps (t : Tables) (l : RunLedger) : Prop where
  accepted : t.commits.rows.map CommitRow.value = l.accepted
  asked : t.operations.rows.map OperationRow.id = l.asked
  attempt : ∀ a, l.attempt = some a ↔ t.standing a.id = some (↑a.base, a.progress)
  left : ∀ kind, t.remaining kind = l.left kind
  ended : t.run.outcome = l.ended

/-- The entry that a call makes when it succeeds. -/
def Call.entry (t : Tables) : Call → Option RunAct
  | .start id .. => some (.ask id)
  | .dispatch _ _ externalAction => some (.act externalAction)
  | .returned _ (.typed output) => some (.answer (some output))
  | .complete (.typed evaluation) => some (match evaluation.published with
    | some value => .publish value
    | none => .keep)
  | .failed id _ =>
    match (t.operation? id).map OperationRow.stage with
    | some .inference | some .proposed => some .giveUp
    | _ => none
  | .abandonUndispatched _ => some .giveUp
  | .finish (.typed text) => some (.finish text)
  | _ => none

/-! ## Where an operation stands -/

theorem standing_some {id : String} {s : Int × Progress (Option String)} :
    t.standing id = some s ↔ ∃ row, t.operation? id = some row ∧ row.stage.live = true ∧
      s = (row.request.base.revision, row.progress) := by
  unfold Tables.standing standingIn OperationRow.standing
  rw [Option.bind_eq_some_iff]
  refine exists_congr fun row => and_congr_right fun _ => ?_
  by_cases hl : row.stage.live = true <;> simp [hl, eq_comm]

/-- One operation stands at most. -/
theorem Good.standing (hg : Good t) {i j : String} {s r : Int × Progress (Option String)}
    (hi : t.standing i = some s) (hj : t.standing j = some r) : i = j := by
  obtain ⟨row, hrow, hl, -⟩ := standing_some.mp hi
  obtain ⟨row', hrow', hl', -⟩ := standing_some.mp hj
  exact hg.single hrow hrow' hl hl'

theorem standing_update {id : String} {f : OperationRow → OperationRow} (k : String)
    (hf : ∀ row, (f row).id = row.id) :
    standingIn (t.operations.update id f hf) k =
      if id = k then (t.operation? k).bind fun row => (f row).standing else t.standing k := by
  unfold Tables.standing standingIn Tables.operation?
  rw [Table.lookup_update]
  split
  · rw [Option.bind_map]
    rfl
  · rfl

theorem standing_insert {id : String} {request : InferenceRequest} {ops : Table OperationRow.id}
    (h : t.operations.insert { id, stage := .inference, request } = some ops) (k : String) :
    standingIn ops k =
      if id = k then some (request.base.revision, Progress.asked) else t.standing k := by
  unfold Tables.standing standingIn
  rw [Table.lookup_insert h]
  split <;> rfl

theorem ids_update {id : String} {f : OperationRow → OperationRow} {ids : List String}
    (h : t.operations.rows.map OperationRow.id = ids)
    (hf : ∀ row, (f row).id = row.id := by exact fun _ => rfl) :
    (t.operations.update id f hf).rows.map OperationRow.id = ids := by
  unfold Table.update Table.mapRows
  rw [List.map_map, ← h]
  refine List.map_congr_left fun row _ => ?_
  rw [Function.comp_apply]
  split
  · exact hf row
  · rfl

/-! ## One change -/

section

variable {l : RunLedger} {id : String} {row : OperationRow}

/-- The base of an operation under way is the state that the ledger has reached. -/
theorem Tables.Keeps.revision_of (hk : t.Keeps l) (hp : Published t)
    (hrow : t.operation? id = some row) (hl : row.stage.live = true) :
    row.request.base.revision = l.accepted.length := by
  rw [hp.base hrow hl, read_eq hp.numbered, stateOf_revision hp.numbered, ← hk.accepted,
    List.length_map]

/-- The attempt of an operation under way. -/
theorem Tables.Keeps.attempt_of (hk : t.Keeps l) (hp : Published t)
    (hrow : t.operation? id = some row) (hl : row.stage.live = true) :
    l.attempt = some ⟨id, l.accepted.length, row.progress⟩ := by
  refine (hk.attempt _).mpr (standing_some.mpr ⟨row, hrow, hl, ?_⟩)
  rw [hk.revision_of hp hrow hl]

/-- A change of an operation that is under way before and after it. -/
theorem standing_moves (hg : Good t) {f : OperationRow → OperationRow}
    (hrow : t.operation? id = some row) (hl : row.stage.live = true) {b : ℕ}
    (hb : row.request.base.revision = b) (a : Ledgers.Attempt String (Option String))
    (hf : ∀ row, (f row).id = row.id) (hbase : (f row).request = row.request)
    (hlive : (f row).stage.live = true) :
    some (⟨id, b, (f row).progress⟩ : Ledgers.Attempt String (Option String)) = some a ↔
      standingIn (t.operations.update id f hf) a.id = some (↑a.base, a.progress) := by
  rw [standing_update]
  by_cases ha : id = a.id
  · subst ha
    have hrow' : (t.operation? a.id).bind (fun row => (f row).standing) =
        some ((b : Int), (f row).progress) := by
      rw [hrow, Option.bind_some, OperationRow.standing, if_pos hlive, hbase, hb]
    rw [if_pos rfl, hrow']
    obtain ⟨i, n, p⟩ := a
    simp
  · rw [if_neg ha]
    refine iff_of_false (fun h => ha ?_) (fun h => ha ?_)
    · rw [← Option.some.inj h]
    · exact hg.standing (standing_some.mpr ⟨row, hrow, hl, rfl⟩) h

/-- A change that ends the operation under way. -/
theorem standing_ends (hg : Good t) {f : OperationRow → OperationRow}
    (hrow : t.operation? id = some row) (hl : row.stage.live = true)
    (a : Ledgers.Attempt String (Option String)) (hf : ∀ row, (f row).id = row.id)
    (hover : (f row).stage.live = false) :
    none = some a ↔ standingIn (t.operations.update id f hf) a.id =
      some (↑a.base, a.progress) := by
  rw [standing_update]
  refine iff_of_false (fun h => by cases h) fun h => ?_
  by_cases ha : id = a.id
  · subst ha
    rw [if_pos rfl, hrow, Option.bind_some, OperationRow.standing, if_neg (by simp [hover])] at h
    cases h
  · rw [if_neg ha] at h
    exact ha (hg.standing (standing_some.mpr ⟨row, hrow, hl, rfl⟩) h)

/-- A change of an operation that leaves it where it stands. -/
theorem standing_stays (hk : t.Keeps l) {f : OperationRow → OperationRow}
    (hrow : t.operation? id = some row) (a : Ledgers.Attempt String (Option String))
    (hf : ∀ row, (f row).id = row.id) (hsame : (f row).standing = row.standing) :
    l.attempt = some a ↔ standingIn (t.operations.update id f hf) a.id =
      some (↑a.base, a.progress) := by
  rw [hk.attempt a, standing_update]
  split
  · rename_i ha
    subst ha
    unfold Tables.standing standingIn
    rw [Tables.operation?] at hrow ⊢
    rw [hrow, Option.bind_some, Option.bind_some, hsame]
  · rfl

/-- What a change leaves of the budget, for the entry that it makes. -/
theorem Change.left (h : Change handle clock t call t') (hk : t.Keeps l)
    {price : ReservationKind → ℕ}
    (hprice : ∀ k, call.reserves.countP (fun r => decide (r.kind = k)) = price k)
    (hpaid : ∀ k, price k ≤ l.left k) (k : ReservationKind) :
    t'.remaining k = ↑(l.left k - price k) := by
  rw [h.remaining, hk.left, hprice, Nat.cast_sub (hpaid k)]

/-- A change makes its entry: a step of the ledger where it has one, and nothing where it
has none. -/
theorem Change.entered (hg : Good t) (hp : Published t) (hk : t.Keeps l)
    (h : Change handle clock t call t') : match call.entry t with
      | none => t'.Keeps l
      | some a => ∃ m, Ledgers.Ledger.Step tariff l a m ∧ t'.Keeps m := by
  have hc := h
  cases h with
  | @start id request output guards _ ops _ _ _ _ _ ready timely _ _ base _ operations _ room =>
    have hidle : l.attempt = none := by
      by_contra hne
      obtain ⟨a, ha⟩ := Option.ne_none_iff_exists'.mp hne
      obtain ⟨row, hrow, hl, -⟩ := standing_some.mp ((hk.attempt a).mp ha)
      rw [hc.quiet hrow] at hl
      cases hl
    have hfresh : id ∉ l.asked := by
      rw [← hk.asked]
      rintro hm
      obtain ⟨row, hrow, hid⟩ := List.mem_map.mp hm
      exact (Table.insert_eq_some_iff.mp operations).1 ⟨row, hrow, hid⟩
    have hpaid : ∀ k, tariff.ask k ≤ l.left k := by
      intro k
      rw [hk.left] at room
      cases k with
      | inference => exact_mod_cast room
      | tool | external => exact Nat.zero_le _
    refine ⟨_, .ask (hk.ended ▸ timely.isOpen) hidle hfresh hpaid, ⟨hk.accepted, ?_, fun a => ?_,
      hc.left hk (fun k => by cases k <;> rfl) hpaid, hk.ended⟩⟩
    · simp only [(Table.insert_eq_some_iff.mp operations).2, List.map_append, hk.asked]
      rfl
    · have hnone : ∀ k, t.standing k = none := by
        intro k
        by_contra hne
        obtain ⟨r, hr⟩ := Option.ne_none_iff_exists'.mp hne
        obtain ⟨row, hrow, hl, -⟩ := standing_some.mp hr
        rw [hc.quiet hrow] at hl
        cases hl
      have hrevision : request.base.revision = l.accepted.length := by
        rw [base, FlynnAgents.read_eq hp.numbered, stateOf_revision hp.numbered, ← hk.accepted,
          List.length_map]
      refine Iff.trans ?_ (iff_of_eq (congrArg (· = _) (standing_insert operations a.id).symm))
      obtain ⟨i, n, progress⟩ := a
      rw [hrevision, hnone]
      by_cases hi : id = i <;> simp [hi]
  | recordGuard => exact ⟨hk.accepted, hk.asked, hk.attempt, hk.left, hk.ended⟩
  | recordEvent => exact ⟨hk.accepted, hk.asked, hk.attempt, hk.left, hk.ended⟩
  | recordUsage => exact ⟨hk.accepted, hk.asked, hk.attempt, hk.left, hk.ended⟩
  | proposed isOpen operation stage =>
    refine ⟨hk.accepted, ids_update hk.asked, fun a => ?_, hk.left, hk.ended⟩
    refine standing_stays hk operation a (by exact fun _ => rfl) ?_
    simp [OperationRow.standing, OperationRow.progress, stage, Stage.live]
  | @dispatch id observation externalAction row _ _ timely operation stage _ room _ externalRoom =>
    have hl : row.stage.live = true := by rw [stage]; rfl
    have hasked : l.attempt = some ⟨id, l.accepted.length, .asked⟩ := by
      rw [hk.attempt_of hp operation hl, OperationRow.progress, stage]
    have hpaid : ∀ k, tariff.act externalAction k ≤ l.left k := by
      intro k
      rw [hk.left] at room externalRoom
      cases k with
      | inference => exact Nat.zero_le _
      | tool => exact_mod_cast room
      | external =>
        cases externalAction with
        | false => exact Nat.zero_le _
        | true => exact_mod_cast externalRoom rfl
    refine ⟨_, .act (hk.ended ▸ timely.isOpen) hasked hpaid, ⟨hk.accepted,
      ids_update hk.asked, fun a => ?_,
      hc.left hk (fun k => ?_) hpaid, hk.ended⟩⟩
    · exact standing_moves hg
        (f := fun row => { row with stage := .dispatched, observation := observation })
        operation hl (hk.revision_of hp operation hl) a (fun _ => rfl) rfl rfl
    · cases externalAction <;> cases k <;> rfl
  | @returned id output row operation stage =>
    have hl : row.stage.live = true := by rw [stage]; rfl
    have hacting : l.attempt = some ⟨id, l.accepted.length, .acting⟩ := by
      rw [hk.attempt_of hp operation hl, OperationRow.progress, stage]
    refine ⟨_, .answer hacting, ⟨hk.accepted, ids_update hk.asked,
      fun a => ?_, hk.left, hk.ended⟩⟩
    exact standing_moves hg
      (f := fun row => { row with stage := .returned, output := some output })
      operation hl (hk.revision_of hp operation hl) a (fun _ => rfl) rfl rfl
  | @complete e row candidate evals commits timely operation stage loaded checked base evaluated
      positive unpublished committed =>
    have hbound := checkEvaluation_binds checked
    have hid : candidate.id = e.candidate.id := (congrArg Candidate.id hbound).symm
    rw [← hid] at operation
    have hl : row.stage.live = true := by rw [stage]; rfl
    have hanswered : l.attempt = some ⟨candidate.id, l.accepted.length, .answered row.output⟩ := by
      rw [hk.attempt_of hp operation hl, OperationRow.progress, stage]
    have hopen : l.ended = none := hk.ended ▸ timely.isOpen
    have hrows := Table.insertAll_rows committed
    cases hpublished : e.published with
    | some value =>
      have hvalues : commits.rows.map CommitRow.value = l.accepted ++ [value] := by
        rw [hrows, List.map_append, hk.accepted]
        unfold commitRows
        rw [hpublished]
        rfl
      simp only [Call.entry, hpublished]
      refine ⟨_, .publish hopen hanswered rfl, ⟨hvalues, ids_update hk.asked, fun a => ?_, hk.left,
        hk.ended⟩⟩
      exact standing_ends hg operation hl a (by exact fun _ => rfl) (by rfl)
    | none =>
      have hvalues : commits.rows.map CommitRow.value = l.accepted := by
        rw [hrows, List.map_append, hk.accepted]
        unfold commitRows
        rw [hpublished]
        exact List.append_nil _
      simp only [Call.entry, hpublished]
      refine ⟨_, .keep hopen hanswered, ⟨hvalues, ids_update hk.asked, fun a => ?_, hk.left,
        hk.ended⟩⟩
      exact standing_ends hg operation hl a (by exact fun _ => rfl) (by rfl)
  | @failed id error row operation =>
    have hstage : (t.operation? id).map OperationRow.stage = some row.stage := by
      rw [operation]
      rfl
    unfold Call.entry
    simp only [hstage]
    by_cases hasked : row.stage = .inference ∨ row.stage = .proposed
    · have hl : row.stage.live = true := by rcases hasked with h | h <;> rw [h] <;> rfl
      have hattempt : l.attempt = some ⟨id, l.accepted.length, .asked⟩ := by
        rw [hk.attempt_of hp operation hl, OperationRow.progress]
        rcases hasked with h | h <;> rw [h]
      have hover : row.stage.afterFailure.live = false := by
        rcases hasked with h | h <;> rw [h] <;> rfl
      have hgives : ∃ m, Ledgers.Ledger.Step tariff l .giveUp m ∧ Tables.Keeps { t with
          operations := t.operations.update id
            (fun q => { q with stage := row.stage.afterFailure, error := some error })
            (fun _ => rfl) } m := by
        refine ⟨_, .giveUp hattempt, ⟨hk.accepted, ids_update hk.asked, fun a => ?_, hk.left,
          hk.ended⟩⟩
        exact standing_ends hg operation hl a (by exact fun _ => rfl) hover
      rcases hasked with h | h <;> simpa only [h] using hgives
    · have hstays : Tables.Keeps { t with
          operations := t.operations.update id
            (fun q => { q with stage := row.stage.afterFailure, error := some error })
            (fun _ => rfl) } l := by
        refine ⟨hk.accepted, ids_update hk.asked, fun a => ?_, hk.left, hk.ended⟩
        refine standing_stays hk operation a (by exact fun _ => rfl) ?_
        have hafter : row.stage.afterFailure = row.stage := if_neg hasked
        rw [hafter]
        rfl
      cases hs : row.stage with
      | inference => exact absurd (.inl hs) hasked
      | proposed => exact absurd (.inr hs) hasked
      | dispatched | returned | completed | failed => simpa only [hs] using hstays
  | @abandonUndispatched id row isOpen operation stage =>
    have hl : row.stage.live = true := by rcases stage with h | h <;> rw [h] <;> rfl
    have hasked : l.attempt = some ⟨id, l.accepted.length, .asked⟩ := by
      rw [hk.attempt_of hp operation hl, OperationRow.progress]
      rcases stage with h | h <;> rw [h]
    refine ⟨_, .giveUp hasked, ⟨hk.accepted, ids_update hk.asked,
      fun a => ?_, hk.left, hk.ended⟩⟩
    exact standing_ends hg operation hl a (by exact fun _ => rfl) (by rfl)
  | finish isOpen named =>
    exact ⟨_, .finish (hk.ended ▸ isOpen), ⟨hk.accepted, hk.asked, hk.attempt, hk.left, rfl⟩⟩

end

/-! ## Every run -/

/-- The units of each kind that a run is given. -/
def RunLimits.budget (limits : RunLimits) (kind : ReservationKind) : ℕ := (limits.of kind).toNat

/-- What one call adds to the ledger: nothing, or its entry. -/
theorem exec_entered {self : SQLiteRun} {l : RunLedger} (hg : Good self.db)
    (hp : Published self.db) (hk : self.db.Keeps l) (i : Timed) :
    (exec i self).2.db.Keeps l ∨ ∃ a m, i.call.entry self.db = some a ∧
      Ledgers.Ledger.Step tariff l a m ∧ (exec i self).2.db.Keeps m := by
  rcases exec_cases i self with ⟨⟨handle, t', -, hc, he⟩, -⟩ | ⟨he, -⟩
  · have hentered := hc.entered hg hp hk
    rw [he]
    split at hentered
    · exact .inl hentered
    · rename_i a hentry
      obtain ⟨m, hstep, hm⟩ := hentered
      exact .inr ⟨a, m, hentry, hstep, hm⟩
  · rw [he]
    exact .inl hk

/-- What holds of a run that is a ledger. -/
structure Ledgered (limits : RunLimits) (t : Tables) (n : ℕ) : Prop where
  good : Good t
  published : Published t
  kept : ∃ acts l, Ledgers.Ledger.Run tariff (Ledgers.Ledger.opened limits.budget) acts l ∧
    t.Keeps l ∧
    acts.length ≤ n

theorem ledgered_fresh {now : ℚ} {id state : String} {limits : RunLimits}
    {observation : Option String} :
    Ledgered limits (Tables.fresh (createdRow now id state limits observation)) 0 where
  good := good_fresh _
  published := published_fresh _
  kept := by
    refine ⟨[], _, .nil, ⟨rfl, rfl, fun a => ?_, fun kind => ?_, rfl⟩, Nat.le_refl _⟩
    · exact iff_of_false (fun h => by cases h) (fun h => by cases h)
    · have hnonneg := limits_nonneg limits.accepted kind
      change limits.of kind - _ = ((limits.of kind).toNat : Int)
      rw [Int.toNat_of_nonneg hnonneg]
      exact Int.sub_zero _

theorem Ledgered.exec {self : SQLiteRun} {limits : RunLimits} {n : ℕ}
    (h : Ledgered limits self.db n) (i : Timed) : Ledgered limits (exec i self).2.db (n + 1) := by
  obtain ⟨hg, hp, acts, l, hrun, hk, hlength⟩ := h
  have hkept : ∃ acts l, Ledgers.Ledger.Run tariff (Ledgers.Ledger.opened limits.budget) acts l ∧
      (FlynnAgents.exec i self).2.db.Keeps l ∧ acts.length ≤ n + 1 := by
    rcases exec_entered hg hp hk i with hsame | ⟨a, m, -, hstep, hm⟩
    · exact ⟨acts, l, hrun, hsame, Nat.le_succ_of_le hlength⟩
    · refine ⟨acts ++ [a], m, .snoc hrun hstep, hm, ?_⟩
      rw [List.length_append, List.length_singleton]
      omega
  rcases exec_cases i self with ⟨⟨handle, t', -, hc, he⟩, -⟩ | ⟨he, -⟩
  · rw [he] at hkept ⊢
    exact ⟨hg.change hc, hp.change hg hc, hkept⟩
  · rw [he] at hkept ⊢
    exact ⟨hg, hp, hkept⟩

theorem ledgered_after {self : SQLiteRun} {limits : RunLimits} {n : ℕ}
    (h : Ledgered limits self.db n) (calls : List Timed) :
    Ledgered limits (self.after calls).db (n + calls.length) := by
  induction calls generalizing self n with
  | nil => exact h
  | cons i calls ih =>
    have hnext := ih (h.exec i)
    rw [List.length_cons, Nat.add_comm calls.length, ← Nat.add_assoc]
    exact hnext

/-- For every sequence of calls, whatever they return or raise: the file says what a ledger
says that the calls made, with one entry for a call at most. Each next call makes its entry
or none. So no value is accepted without a tool call of its own, no tool is called
without an inference of its own, and a run has at most four entries for each inference
and one for its end. -/
theorem a_run_is_a_paid_ledger {now : ℚ} {runId state : Dyn String} {limits : RunLimits}
    {observation : Option (Dyn String)} {self : SQLiteRun}
    (h : SQLiteRun.create now clock runId state limits observation = .ok self)
    (calls : List Timed) :
    let t := (self.after calls).db
    ∃ acts l, Ledgers.Ledger.Run tariff (Ledgers.Ledger.opened limits.budget) acts l ∧ t.Keeps l ∧
      acts.length ≤ calls.length ∧
      (∀ i, (self.after (calls ++ [i])).db.Keeps l ∨ ∃ a m, i.call.entry t = some a ∧
        Ledgers.Ledger.Step tariff l a m ∧ (self.after (calls ++ [i])).db.Keeps m) ∧
      t.commits.rows.length ≤ limits.toolCalls - t.remaining .tool ∧
      limits.toolCalls - t.remaining .tool ≤ limits.inferenceCalls - t.remaining .inference ∧
      (acts.length : Int) ≤ 4 * (limits.inferenceCalls - t.remaining .inference) + 1 := by
  intro t
  obtain ⟨id, text, seen, hdb, -⟩ := create_ok h
  have hledgered : Ledgered limits self.db 0 := hdb ▸ ledgered_fresh
  obtain ⟨hg, hp, acts, l, hrun, hk, hlength⟩ := ledgered_after hledgered calls
  have hbalanced := hrun.balanced
  obtain ⟨haccepted, hacts, hbound⟩ := hbalanced.bounds
  have hasks : acts.countP Ledgers.Act.isAsk = Ledgers.Ledger.spent tariff acts .inference :=
    Ledgers.Ledger.countP_eq_spent fun a => by cases a <;> rfl
  have htools : acts.countP Ledgers.Act.isAct = Ledgers.Ledger.spent tariff acts .tool :=
    Ledgers.Ledger.countP_eq_spent fun a => by cases a <;> rfl
  have hcommits : t.commits.rows.length = l.accepted.length := by
    rw [← hk.accepted, List.length_map]
  have hinference := hbalanced.paid .inference
  have htool := hbalanced.paid .tool
  have hleft := hk.left .inference
  have hleft' := hk.left .tool
  have hnonneg : limits.inferenceCalls = limits.budget .inference :=
    (Int.toNat_of_nonneg (limits_nonneg limits.accepted .inference)).symm
  have hnonneg' : limits.toolCalls = limits.budget .tool :=
    (Int.toNat_of_nonneg (limits_nonneg limits.accepted .tool)).symm
  refine ⟨acts, l, hrun, hk, by simpa using hlength, fun i => ?_, ?_, ?_, ?_⟩
  · have hnext := exec_entered hg hp hk i
    simp only [SQLiteRun.after, Machines.after_append]
    exact hnext
  all_goals
    simp only [t] at *
    omega

theorem a_run_is_a_paid_ledger_sample :
    ∃ acts l, Ledgers.Ledger.Run tariff
      (Ledgers.Ledger.opened (sampleLimits none none (by decide)).budget) acts l ∧
      ((sampleRun (sampleLimits none none (by decide))).after sampleCalls).db.Keeps l ∧
      acts.length ≤ 6 := by
  obtain ⟨acts, l, hrun, hk, hlength, -⟩ := a_run_is_a_paid_ledger
    (create_sample (sampleLimits none none (by decide))) sampleCalls
  exact ⟨acts, l, hrun, hk, hlength⟩

end FlynnAgents
