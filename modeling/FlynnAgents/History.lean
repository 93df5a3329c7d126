-- What the file of a run never loses. Every row that was written stays, an
-- operation only goes forward, and a run that has ended is frozen but for
-- the failures and the late outputs of its operations.
import FlynnAgents.Operations
import FlynnAgents.Publication

namespace FlynnAgents

open Relational Transactional

variable {handle : Handle} {clock : Clock} {self : SQLiteRun} {t t' u : Tables} {call : Call}
  {id : String} {row row' : OperationRow} {R : Stage → Stage → Prop}

/-! ## One operation -/

/-- The arrows along which an operation moves. -/
inductive Stage.Arrow : Stage → Stage → Prop where
  | proposes : Arrow .inference .proposed
  | dispatches : Arrow .proposed .dispatched
  | returns : Arrow .dispatched .returned
  | completes : Arrow .returned .completed
  | fails {stage : Stage} (h : stage = .inference ∨ stage = .proposed) : Arrow stage .failed

/-- The stage stays, or goes along one arrow. -/
abbrev Stage.Advances : Stage → Stage → Prop := Relation.ReflGen Stage.Arrow

/-- The stage goes along any number of arrows. -/
abbrev Stage.Reaches : Stage → Stage → Prop := Relation.ReflTransGen Stage.Arrow

theorem Stage.Arrow.live {s s' : Stage} (h : s.Arrow s') : s.live = true := by
  cases h with
  | fails h => rcases h with rfl | rfl <;> rfl
  | _ => rfl

/-- The stage of an operation that is over is the last one. -/
theorem Stage.Reaches.ended {s s' : Stage} (h : s.Reaches s') (hs : s.live = false) : s' = s := by
  rcases Relation.ReflTransGen.cases_head h with rfl | ⟨m, ha, -⟩
  · rfl
  · rw [ha.live] at hs
    cases hs

theorem Stage.Arrow.spent {s s' : Stage} (h : s.Arrow s') (hs : s.spent = true) :
    s'.spent = true := by
  cases h with
  | fails h => rcases h with rfl | rfl <;> cases hs
  | proposes => cases hs
  | _ => rfl

theorem Stage.Reaches.spent {s s' : Stage} (h : s.Reaches s') (hs : s.spent = true) :
    s'.spent = true := by
  induction h with
  | refl => exact hs
  | tail _ ha ih => exact ha.spent ih

/-- What may become of an operation row: what was written in it stays, and
only the error text is written again. -/
structure Evolves (R : Stage → Stage → Prop) (row row' : OperationRow) : Prop where
  id : row'.id = row.id
  stage : R row.stage row'.stage
  ended : row.stage.live = false → row'.stage = row.stage
  request : row'.request = row.request
  call : ∀ c, row.call = some c → row'.call = some c
  output : ∀ s, row.output = some s → row'.output = some s
  observation : row.stage.spent = true → row'.observation = row.observation

/-- The columns that no stage before has written. -/
structure OperationRow.Unset (row : OperationRow) : Prop where
  called : row.stage = .inference → row.call = none
  returned : row.stage ≠ .returned → row.stage ≠ .completed → row.output = none

theorem OperationRow.unset_started (id : String) (request : InferenceRequest) :
    OperationRow.Unset { id, stage := .inference, request } := ⟨fun _ => rfl, fun _ _ => rfl⟩

theorem afterFailure_advances (s : Stage) : s.Advances s.afterFailure := by
  unfold Stage.afterFailure
  split
  · rename_i h
    exact .single (.fails h)
  · exact .refl

theorem afterFailure_over {s : Stage} (h : s.live = false) : s.afterFailure = s := by
  cases s <;> simp_all [Stage.live, Stage.afterFailure]

theorem Moves.evolves (h : Moves id call row row') (hu : row.Unset) :
    Evolves Stage.Advances row row' := by
  have hover : ∀ {s : Stage}, row.stage = s → s.live = true → row.stage.live ≠ false := by
    rintro s rfl hl hf
    rw [hl] at hf
    cases hf
  have ha : ∀ {s s' : Stage}, row.stage = s → s.Arrow s' → row.stage.Advances s' := by
    rintro s s' rfl h
    exact .single h
  cases h with
  | proposed h =>
    refine ⟨rfl, ha h .proposes, fun ho => absurd ho (hover h rfl), rfl, fun c hc => ?_,
      fun _ hc => hc, fun _ => rfl⟩
    rw [hu.called h] at hc
    cases hc
  | dispatched h =>
    refine ⟨rfl, ha h .dispatches, fun ho => absurd ho (hover h rfl), rfl, fun _ hc => hc,
      fun _ hc => hc, fun hs => ?_⟩
    rw [h] at hs
    cases hs
  | returned h =>
    refine ⟨rfl, ha h .returns, fun ho => absurd ho (hover h rfl), rfl, fun _ hc => hc,
      fun s hs => ?_, fun _ => rfl⟩
    rw [hu.returned (by simp [h]) (by simp [h])] at hs
    cases hs
  | completed _ h =>
    exact ⟨rfl, ha h .completes, fun ho => absurd ho (hover h rfl), rfl, fun _ hc => hc,
      fun _ hc => hc, fun _ => rfl⟩
  | failed =>
    exact ⟨rfl, afterFailure_advances _, afterFailure_over, rfl, fun _ hc => hc, fun _ hc => hc,
      fun _ => rfl⟩
  | abandoned h =>
    have hl : row.stage.live = true := by rcases h with h | h <;> rw [h] <;> rfl
    exact ⟨rfl, .single (.fails h), fun ho => absurd ho (hover rfl hl), rfl, fun _ hc => hc,
      fun _ hc => hc, fun _ => rfl⟩

theorem Moves.unset (h : Moves id call row row') (hu : row.Unset) : row'.Unset := by
  obtain ⟨hc, hr⟩ := hu
  cases h with
  | proposed h => exact ⟨nofun, fun _ _ => hr (by simp [h]) (by simp [h])⟩
  | dispatched h => exact ⟨nofun, fun _ _ => hr (by simp [h]) (by simp [h])⟩
  | returned => exact ⟨nofun, fun h => absurd rfl h⟩
  | completed => exact ⟨nofun, fun _ h => absurd rfl h⟩
  | abandoned h => exact
      ⟨nofun, fun _ _ => by rcases h with h | h <;> exact hr (by simp [h]) (by simp [h])⟩
  | failed =>
    refine ⟨fun h => hc ?_, fun h h' => hr ?_ ?_⟩
    · cases hs : row.stage <;> simp_all [Stage.afterFailure]
    · intro hs
      simp [hs, Stage.afterFailure] at h
    · intro hs
      simp [hs, Stage.afterFailure] at h'

/-! ## One change -/

/-- Every row of every run has only what its stage wrote. -/
def Unset (t : Tables) : Prop := ∀ id row, t.operation? id = some row → row.Unset

theorem unset_fresh (run : RunRow) : Unset (Tables.fresh run) := fun _ _ h => by cases h

theorem Unset.change (hu : Unset t) (h : Change handle clock t call t') : Unset t' := by
  intro id row' ho
  rcases h.lookup id with ⟨-, he⟩ | ⟨-, _, _, _, -, hn⟩ | ⟨row, row₂, hr, hr', hm⟩
  · exact hu id row' (he ▸ ho)
  · rw [ho] at hn
    cases hn
    exact OperationRow.unset_started _ _
  · rw [ho] at hr'
    cases hr'
    exact hm.unset (hu id row hr)

/-- The rows of the other tables stay as they are, and new ones come after them. -/
structure Extends (t t' : Tables) : Prop where
  reservations : t.reservations.rows <+: t'.reservations.rows
  evaluations : t.evaluations.rows <+: t'.evaluations.rows
  commits : t.commits.rows <+: t'.commits.rows
  inferenceUsage : t.inferenceUsage.rows <+: t'.inferenceUsage.rows
  outputReservations : t.outputReservations.rows <+: t'.outputReservations.rows
  guardRequirements : t.guardRequirements.rows <+: t'.guardRequirements.rows
  guardDecisions : t.guardDecisions.rows <+: t'.guardDecisions.rows
  lifecycleEvents : t.lifecycleEvents <+: t'.lifecycleEvents

/-- The file has grown: the operations evolved, in their order, and no row of
another table is lost. -/
structure Grows (R : Stage → Stage → Prop) (t t' : Tables) : Prop extends Extends t t' where
  order : t.operations.rows.map OperationRow.id <+: t'.operations.rows.map OperationRow.id
  operations : ∀ {id row}, t.operation? id = some row →
    ∃ row', t'.operation? id = some row' ∧ Evolves R row row'

theorem evolves_refl (hR : ∀ s, R s s) (row : OperationRow) : Evolves R row row :=
  ⟨rfl, hR _, fun _ => rfl, rfl, fun _ hc => hc, fun _ hc => hc, fun _ => rfl⟩

theorem extends_refl (t : Tables) : Extends t t := by
  constructor <;> exact List.prefix_rfl

theorem Extends.trans (h : Extends t u) (h' : Extends u t') : Extends t t' where
  reservations := h.reservations.trans h'.reservations
  evaluations := h.evaluations.trans h'.evaluations
  commits := h.commits.trans h'.commits
  inferenceUsage := h.inferenceUsage.trans h'.inferenceUsage
  outputReservations := h.outputReservations.trans h'.outputReservations
  guardRequirements := h.guardRequirements.trans h'.guardRequirements
  guardDecisions := h.guardDecisions.trans h'.guardDecisions
  lifecycleEvents := h.lifecycleEvents.trans h'.lifecycleEvents

theorem grows_refl (hR : ∀ s, R s s) (t : Tables) : Grows R t t where
  toExtends := extends_refl t
  order := List.prefix_rfl
  operations h := ⟨_, h, evolves_refl hR _⟩

/-- A call that was made inserts at the end. -/
theorem insert_adds {ρ κ : Type} {key : ρ → κ} [DecidableEq κ] {t u : Table key} {r : ρ}
    (h : t.insert r = some u) : t.rows <+: u.rows := by
  rw [(Table.insert_eq_some_iff.mp h).2]
  exact List.prefix_append _ _

theorem insertAll_adds {ρ κ : Type} {key : ρ → κ} [DecidableEq κ] {t u : Table key}
    {rs : List ρ} (h : t.insertAll rs = some u) : t.rows <+: u.rows := by
  rw [Table.insertAll_rows h]
  exact List.prefix_append _ _

theorem Change.extends (h : Change handle clock t call t') : Extends t t' := by
  have hrefl := extends_refl t
  cases h with
  | start _ _ _ _ _ _ _ _ _ requirements _ reserved outputs =>
    exact { hrefl with
      guardRequirements := insertAll_adds requirements
      reservations := insert_adds reserved
      outputReservations := insertAll_adds outputs }
  | recordGuard _ _ _ _ decided => exact { hrefl with guardDecisions := insert_adds decided }
  | recordEvent => exact { hrefl with lifecycleEvents := List.prefix_append _ _ }
  | recordUsage _ _ _ reported => exact { hrefl with inferenceUsage := insert_adds reported }
  | dispatch _ _ _ _ _ reserved _ externalReserved =>
    exact { hrefl with
      reservations := (insert_adds reserved).trans (insertAll_adds externalReserved) }
  | complete _ _ _ _ _ _ evaluated _ _ committed =>
    exact { hrefl with
      evaluations := insert_adds evaluated
      commits := insertAll_adds committed }
  | proposed | returned | failed | abandonUndispatched | finish => exact { hrefl with }

theorem update_ids (t : Table OperationRow.id) (id : String) {f : OperationRow → OperationRow}
    (hf : ∀ row, (f row).id = row.id) :
    (t.update id f hf).rows.map OperationRow.id = t.rows.map OperationRow.id := by
  simp only [Table.update, Table.mapRows, List.map_map]
  refine List.map_congr_left fun row _ => ?_
  simp only [Function.comp_apply]
  split
  · exact hf row
  · rfl

/-- An operation keeps its place in the table. -/
theorem Change.order (h : Change handle clock t call t') :
    t.operations.rows.map OperationRow.id <+: t'.operations.rows.map OperationRow.id := by
  cases h with
  | start _ _ _ _ _ _ _ _ operations => exact (insert_adds operations).map _
  | recordGuard | recordEvent | recordUsage | finish => exact List.prefix_rfl
  | _ => simp only [update_ids, List.prefix_rfl]

theorem Change.grows (h : Change handle clock t call t') (hu : Unset t) :
    Grows Stage.Advances t t' where
  toExtends := h.extends
  order := h.order
  operations {id row} ho := by
    rcases h.lookup id with ⟨-, he⟩ | ⟨hn, -⟩ | ⟨row₁, row', hr, hr', hm⟩
    · exact ⟨row, he.trans ho, evolves_refl (fun _ => .refl) row⟩
    · rw [ho] at hn
      cases hn
    · rw [ho] at hr
      cases hr
      exact ⟨row', hr', hm.evolves (hu id row ho)⟩

theorem exec_grows (i : Timed) (hu : Unset self.db) :
    Grows Stage.Advances self.db (exec i self).2.db := by
  rcases exec_cases i self with ⟨⟨handle, t', -, hc, he⟩, -⟩ | ⟨he, -⟩
  · rw [he]
    exact hc.grows hu
  · rw [he]
    exact grows_refl (fun _ => .refl) _

/-! ## Every run -/

theorem unset_after (hu : Unset self.db) (calls : List Timed) : Unset (self.after calls).db :=
  after_keeps Unset (fun _ _ _ _ _ h hc => h.change hc) hu calls

theorem Evolves.trans {row₂ : OperationRow} (h : Evolves Stage.Reaches row row')
    (h' : Evolves Stage.Reaches row' row₂) : Evolves Stage.Reaches row row₂ where
  id := h'.id.trans h.id
  stage := Relation.ReflTransGen.trans h.stage h'.stage
  ended hs := (h'.ended (h.ended hs ▸ hs)).trans (h.ended hs)
  request := h'.request.trans h.request
  call c hc := h'.call c (h.call c hc)
  output s hs := h'.output s (h.output s hs)
  observation hs := (h'.observation (Stage.Reaches.spent h.stage hs)).trans (h.observation hs)

theorem Grows.trans (h : Grows Stage.Reaches t u) (h' : Grows Stage.Reaches u t') :
    Grows Stage.Reaches t t' where
  toExtends := h.toExtends.trans h'.toExtends
  order := h.order.trans h'.order
  operations ho := by
    obtain ⟨row₁, hr₁, he₁⟩ := h.operations ho
    obtain ⟨row₂, hr₂, he₂⟩ := h'.operations hr₁
    exact ⟨row₂, hr₂, he₁.trans he₂⟩

/-- In every reachable state of a run and for every call, whether it returns
or raises: no row disappears or changes, an operation stays or goes one arrow
forward, and what was written of it stays, all but the error text. -/
theorem durable_history_only_grows {now : ℚ} {runId state : Dyn String} {limits : RunLimits}
    {observation : Option (Dyn String)}
    (h : SQLiteRun.create now clock runId state limits observation = .ok self)
    (calls : List Timed) (i : Timed) :
    Grows Stage.Advances (self.after calls).db (exec i (self.after calls)).2.db := by
  obtain ⟨id, text, seen, hdb, -⟩ := create_ok h
  have hu : Unset self.db := hdb ▸ unset_fresh _
  exact exec_grows i (unset_after hu calls)

theorem durable_history_only_grows_sample :
    Grows Stage.Advances ((sampleRun (sampleLimits none none (by decide))).after sampleCalls).db
      (exec ⟨⟨6, 6⟩, .failed "op" "late"⟩
        ((sampleRun (sampleLimits none none (by decide))).after sampleCalls)).2.db :=
  durable_history_only_grows (create_sample (sampleLimits none none (by decide))) sampleCalls _

/-! ## A run that has ended -/

/-- What may become of an operation of an ended run: it fails before its
dispatch, or the output of its tool comes late. -/
structure Late (row row' : OperationRow) : Prop where
  id : row'.id = row.id
  request : row'.request = row.request
  call : row'.call = row.call
  observation : row'.observation = row.observation
  stage : (row'.stage = row.stage ∧ row'.output = row.output) ∨
    ((row.stage = .inference ∨ row.stage = .proposed) ∧ row'.stage = .failed ∧
      row'.output = row.output) ∨
    (row.stage = .dispatched ∧ row'.stage = .returned ∧ row'.output.isSome = true)

theorem late_refl (row : OperationRow) : Late row row := ⟨rfl, rfl, rfl, rfl, .inl ⟨rfl, rfl⟩⟩

theorem Late.trans {row₂ : OperationRow} (h : Late row row') (h' : Late row' row₂) :
    Late row row₂ where
  id := h'.id.trans h.id
  request := h'.request.trans h.request
  call := h'.call.trans h.call
  observation := h'.observation.trans h.observation
  stage := by
    rcases h.stage with ⟨hs, ho⟩ | ⟨hs, hf, ho⟩ | ⟨hs, hr, ho⟩
    · rw [← hs, ← ho]
      exact h'.stage
    · refine .inr (.inl ⟨hs, ?_⟩)
      rcases h'.stage with ⟨hs', ho'⟩ | ⟨hs', -⟩ | ⟨hs', -⟩
      · exact ⟨hs'.trans hf, ho'.trans ho⟩
      · rw [hf] at hs'
        simp at hs'
      · rw [hf] at hs'
        cases hs'
    · refine .inr (.inr ⟨hs, ?_⟩)
      rcases h'.stage with ⟨hs', ho'⟩ | ⟨hs', -⟩ | ⟨hs', -⟩
      · exact ⟨hs'.trans hr, ho' ▸ ho⟩
      · rw [hr] at hs'
        simp at hs'
      · rw [hr] at hs'
        cases hs'

/-- The file of a run that has ended with `o` before the tables `t`. Only the
operations may differ, and `read`, `remaining` and `output_budget` do not. -/
structure Frozen (o : String) (t t' : Tables) : Prop where
  outcome : t'.run.outcome = some o
  rest : t' = { t with operations := t'.operations }
  order : t'.operations.rows.map OperationRow.id = t.operations.rows.map OperationRow.id
  operations : ∀ {id row}, t.operation? id = some row →
    ∃ row', t'.operation? id = some row' ∧ Late row row'
  read : t'.read = t.read
  remaining : t'.remaining = t.remaining
  outputBudget : t'.outputBudget = t.outputBudget

/-- Tables that differ in their operations only. -/
theorem frozen_of_operations {o : String} {ops : Table OperationRow.id}
    (ho : t.run.outcome = some o)
    (horder : ops.rows.map OperationRow.id = t.operations.rows.map OperationRow.id)
    (hrows : ∀ {id row}, t.operation? id = some row →
      ∃ row', Tables.operation? { t with operations := ops } id = some row' ∧ Late row row') :
    Frozen o t { t with operations := ops } :=
  ⟨ho, rfl, horder, hrows, rfl, rfl, rfl⟩

theorem frozen_refl {o : String} (ho : t.run.outcome = some o) : Frozen o t t :=
  frozen_of_operations ho rfl fun h => ⟨_, h, late_refl _⟩

theorem Frozen.trans {o : String} (h : Frozen o t u) (h' : Frozen o u t') : Frozen o t t' where
  outcome := h'.outcome
  rest := by
    rw [h'.rest, h.rest]
  order := h'.order.trans h.order
  operations ho := by
    obtain ⟨row₁, hr₁, hl₁⟩ := h.operations ho
    obtain ⟨row₂, hr₂, hl₂⟩ := h'.operations hr₁
    exact ⟨row₂, hr₂, hl₁.trans hl₂⟩
  read := h'.read.trans h.read
  remaining := h'.remaining.trans h.remaining
  outputBudget := h'.outputBudget.trans h.outputBudget

theorem frozen_update {o : String} {f : OperationRow → OperationRow}
    {hf : ∀ row, (f row).id = row.id} (ho : t.run.outcome = some o)
    (hr : t.operation? id = some row) (hl : Late row (f row)) :
    Frozen o t { t with operations := t.operations.update id f hf } := by
  refine frozen_of_operations ho (update_ids _ _ hf) fun {k q} hq => ?_
  rw [Tables.operation?, Table.lookup_update]
  by_cases hk : id = k
  · subst hk
    rw [hr] at hq
    cases hq
    rw [Tables.operation?] at hr
    exact ⟨f row, by rw [if_pos rfl, hr]; rfl, hl⟩
  · rw [if_neg hk]
    exact ⟨q, hq, late_refl q⟩

/-- After the end, only a failure and a late output are written. -/
theorem Change.frozen {o : String} (h : Change handle clock t call t')
    (ho : t.run.outcome = some o) : Frozen o t t' := by
  have hended : ∀ {p : Prop}, t.run.outcome = none → p := by
    intro p hn
    rw [ho] at hn
    cases hn
  cases h with
  | start _ _ _ timely => exact hended timely.isOpen
  | dispatch timely => exact hended timely.isOpen
  | complete timely => exact hended timely.isOpen
  | recordGuard isOpen | recordEvent isOpen | recordUsage isOpen | proposed isOpen
  | abandonUndispatched isOpen | finish isOpen => exact hended isOpen
  | returned operation stage =>
    exact frozen_update ho operation ⟨rfl, rfl, rfl, rfl, .inr (.inr ⟨stage, rfl, rfl⟩)⟩
  | @failed _ _ row operation =>
    refine frozen_update ho operation ⟨rfl, rfl, rfl, rfl, ?_⟩
    by_cases hs : row.stage = .inference ∨ row.stage = .proposed
    · exact .inr (.inl ⟨hs, if_pos hs, rfl⟩)
    · exact .inl ⟨if_neg hs, rfl⟩

theorem frozen_after {o : String} (ho : self.db.run.outcome = some o) (calls : List Timed) :
    Frozen o self.db (self.after calls).db := by
  refine Machines.after_related exec (fun s => s.db.run.outcome = some o)
    (fun s s' => s.db.run.outcome = some o → Frozen o s.db s'.db) ?_
    (fun s hs => frozen_refl hs) ?_ ?_ ho calls ho
  · intro s i hs
    rcases exec_cases i s with ⟨⟨handle, t', -, hc, he⟩, -⟩ | ⟨he, -⟩
    · rw [he]
      exact (hc.frozen hs).outcome
    · rwa [he]
  · intro s₁ s₂ s₃ h h' hs
    exact (h hs).trans (h' (h hs).outcome)
  · intro s i _ hs
    rcases exec_cases i s with ⟨⟨handle, t', -, hc, he⟩, -⟩ | ⟨he, -⟩
    · rw [he]
      exact hc.frozen hs
    · rw [he]
      exact frozen_refl hs

/-- A `finish` with the text `o` that returned. -/
def Entry.finishes (e : Entry) (o : String) : Prop :=
  e.call = .finish (.typed o) ∧ e.ok = true

/-- A run that was finished with `o` has the outcome `o` from then on. -/
theorem outcome_of_finished {o : String} (calls : List Timed)
    (hf : ∃ e ∈ self.log calls, e.finishes o) : (self.after calls).db.run.outcome = some o := by
  obtain ⟨e, he, hfin, hok⟩ := hf
  obtain ⟨before, i, more, rfl, rfl⟩ := Machines.mem_log exec he
  obtain ⟨clock, call⟩ := i
  obtain rfl : call = .finish (.typed o) := hfin
  have hcommits := commits_of_ok (i := ⟨clock, .finish (.typed o)⟩) rfl hok
  obtain ⟨handle, t', -, hc, hs⟩ := hcommits
  rw [SQLiteRun.after, Machines.after_append, Machines.after_cons]
  refine (frozen_after ?_ more).outcome
  rw [hs]
  cases hc with
  | finish => rfl

/-- From every state in which a `finish` has returned, and for every further
sequence of calls, whatever they return or raise: the run row and all tables
but the operations stay as they are, no operation is added, and an operation
only fails before its dispatch or gets its late output. -/
theorem a_terminal_run_is_frozen (self : SQLiteRun) {o : String} (calls : List Timed)
    (hf : ∃ e ∈ self.log calls, e.finishes o) (more : List Timed) :
    Frozen o (self.after calls).db (self.after (calls ++ more)).db := by
  rw [SQLiteRun.after, SQLiteRun.after, Machines.after_append]
  exact frozen_after (outcome_of_finished calls hf) more

/-- A run that ends while a tool is out. -/
def sampleEnd : List Timed := sampleCalls.take 4 ++ [⟨⟨4, 4⟩, .finish (.typed "done")⟩]

theorem a_terminal_run_is_frozen_sample :
    Frozen "done" ((sampleRun (sampleLimits none none (by decide))).after sampleEnd).db
      ((sampleRun (sampleLimits none none (by decide))).after
        (sampleEnd ++ [⟨⟨5, 5⟩, .returned "op" (.typed "late")⟩])).db := by
  have hfin : ((sampleRun (sampleLimits none none (by decide))).log sampleEnd)[4]?.map
      (fun e => (e.call, e.ok)) = some (.finish (.typed "done"), true) := by decide +kernel
  obtain ⟨e, he, hcall⟩ := Option.map_eq_some_iff.mp hfin
  rw [Prod.mk.injEq] at hcall
  exact a_terminal_run_is_frozen _ sampleEnd ⟨e, List.mem_of_getElem? he, hcall⟩ _

end FlynnAgents
