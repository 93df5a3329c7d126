-- A scripted run goes on: as long as the application answers and the budgets last,
-- every step of the runtime returns and commits.
import FlynnAgents.Course
import FlynnAgents.Completion

namespace FlynnAgents

open Programs Relational Transactional

variable {handle : Handle} {clock : Clock} {t t' : Tables} {c : Call} {world : Nat → Beat}
  {s : Scene} {o : String}

/-! ## The file -/

/-- What a start needs of the file, besides its checks: nothing there belongs to an operation
that is not, and the output budget can be read. -/
structure Enabling (t : Tables) : Prop where
  regular : Regular t
  limits : t.run.limits.postInit = none
  reservations : ∀ r ∈ t.outputReservations.rows, r.reservation.postInit = none ∧
    (t.operation? r.operationId).isSome = true
  reports : ∀ u ∈ t.inferenceUsage.rows, u.payload.postInit = none
  required : ∀ r ∈ t.guardRequirements.rows, (t.operation? r.operationId).isSome = true
  decided : ∀ d ∈ t.guardDecisions.rows, t.guardRequirements.Has d.key

theorem Change.outputRows (h : Change handle clock t c t') :
    t'.outputReservations = t.outputReservations ∨
      ∃ id request output guards, c = .start id request output guards ∧
        t.outputReservations.insertAll (reservationRows id output) =
          some t'.outputReservations := by
  cases h with
  | start _ _ _ _ _ _ _ _ _ _ _ _ outputs => exact .inr ⟨_, _, _, _, rfl, outputs⟩
  | _ => exact .inl rfl

theorem mem_reservationRows {id : String} {output : Option (Dyn OutputReservation)}
    {r : OutputReservationRow} (h : r ∈ reservationRows id output) :
    r.operationId = id ∧ r.reservation.postInit = none := by
  unfold reservationRows at h
  split at h
  · rename_i reservation
    rw [List.mem_singleton.mp h]
    exact ⟨rfl, reservation.accepted⟩
  · cases h

theorem Enabling.change (he : Enabling t) (h : Change handle clock t c t') : Enabling t' := by
  have hold : ∀ {id : String}, (t.operation? id).isSome = true →
      (t'.operation? id).isSome = true := fun hid => (h.started_iff _).mpr (.inl hid)
  refine ⟨he.regular.change h, by rw [h.limits]; exact he.limits, ?_, ?_, ?_, ?_⟩
  · intro r hr
    rcases h.outputRows with hsame | ⟨id, request, output, guards, rfl, hinsert⟩
    · rw [hsame] at hr
      exact ⟨(he.reservations r hr).1, hold (he.reservations r hr).2⟩
    · rcases (Table.mem_insertAll hinsert).mp hr with hr | hr
      · exact ⟨(he.reservations r hr).1, hold (he.reservations r hr).2⟩
      · obtain ⟨rfl, haccepted⟩ := mem_reservationRows hr
        exact ⟨haccepted, (h.started_iff _).mpr (.inr (by simp [Call.reserves]))⟩
  · intro u hu
    rcases h.reports with hsame | ⟨id, v, row, -, -, -, hinsert⟩
    · rw [hsame] at hu
      exact he.reports u hu
    · rcases (Table.mem_insert hinsert).mp hu with hu | rfl
      · exact he.reports u hu
      · exact v.accepted
  · intro r hr
    rw [h.requires] at hr
    rcases List.mem_append.mp hr with hr | hr
    · exact hold (he.required r hr)
    · exact (h.started_iff _).mpr (.inr (mem_requires hr))
  · intro d hd
    have hkeep : ∀ {k : String × String}, t.guardRequirements.Has k →
        t'.guardRequirements.Has k := by
      rintro k ⟨r, hr, hk⟩
      refine ⟨r, ?_, hk⟩
      rw [h.requires]
      exact List.mem_append_left _ hr
    rcases h.decisions with hsame | ⟨d', hinsert, hrequired⟩
    · rw [hsame] at hd
      exact hkeep (he.decided d hd)
    · rcases (Table.mem_insert hinsert).mp hd with hd | rfl
      · exact hkeep (he.decided d hd)
      · exact hkeep hrequired

theorem enabling_created {now : ℚ} {runId state : Dyn String} {limits : RunLimits}
    {observation : Option (Dyn String)} {self : SQLiteRun}
    (h : SQLiteRun.create now clock runId state limits observation = .ok self)
    (calls : List Timed) : Enabling (self.after calls).db := by
  obtain ⟨id, text, seen, hdb, -⟩ := create_ok h
  have hregular : Regular self.db := regular_created h []
  have hfresh : Enabling self.db := by
    rw [hdb] at hregular ⊢
    exact ⟨hregular, limits.accepted, fun r hr => absurd hr List.not_mem_nil,
      fun u hu => absurd hu List.not_mem_nil, fun r hr => absurd hr List.not_mem_nil,
      fun d hd => absurd hd List.not_mem_nil⟩
  exact after_keeps Enabling (fun _ _ _ _ _ he hc => he.change hc) hfresh calls

/-- The output budget, without its totals. -/
theorem Enabling.outputBudget (he : Enabling t) : ∃ budget, t.outputBudget = .ok budget ∧
    budget.limit = t.run.limits.outputTokens ∧
    (budget.available.isSome = true ↔ budget.limit.isSome = true) := by
  cases hl : t.run.limits.outputTokens with
  | none =>
    refine ⟨⟨none, none, 0, 0, 0, 0⟩, ?_, rfl, Iff.rfl⟩
    unfold Tables.outputBudget
    simp only [he.limits, hl]
  | some limit =>
    have hsound : Sound t := ⟨he.limits, fun r hr => (he.reservations r hr).1, he.reports⟩
    exact ⟨_, hsound.outputBudget hl, rfl, Iff.rfl⟩

/-- Nothing in the file belongs to an operation that is not there. -/
theorem Enabling.fresh (he : Enabling t) (ho : t.operation? o = none) :
    (∀ g, ¬ t.guardRequirements.Has (o, g)) ∧ (∀ g, ¬ t.guardDecisions.Has (o, g)) ∧
      ¬ t.outputReservations.Has o ∧ ¬ t.inferenceUsage.Has o ∧
      ∀ kind, ¬ t.reservations.Has (o, kind) := by
  have hgone : ¬ (t.operation? o).isSome = true := by simp [ho]
  have hrequired : ∀ g, ¬ t.guardRequirements.Has (o, g) := by
    rintro g ⟨r, hr, hk⟩
    have hid : r.operationId = o := congrArg Prod.fst hk
    exact hgone (hid ▸ he.required r hr)
  have hspent : ¬ t.Spent o := by
    rintro ⟨row, hrow, -⟩
    rw [ho] at hrow
    cases hrow
  refine ⟨hrequired, ?_, ?_, ?_, ?_⟩
  · rintro g ⟨d, hd, hk⟩
    exact hrequired g (hk ▸ he.decided d hd)
  · rintro ⟨r, hr, hk⟩
    exact hgone (hk ▸ (he.reservations r hr).2)
  · intro hu
    obtain ⟨u, hu⟩ := Table.has_iff_lookup.mp hu
    have hreport := he.regular.ledger.reported ho
    unfold Tables.report at hreport
    rw [hu] at hreport
    cases hreport
  · intro kind hr
    cases kind with
    | inference => exact hgone ((he.regular.follows.inference o).mp hr)
    | tool => exact hspent ((he.regular.follows.tool o).mp hr)
    | external => exact hspent (he.regular.follows.external o hr)

/-- The revision has few enough digits to be written. -/
theorem Enabling.read_short (he : Enabling t) (hroom : 0 ≤ t.remaining .tool) :
    tooLong t.read.revision = false := by
  have hnumbered := he.regular.published.numbered
  have hrevision : t.read.revision = t.commits.rows.length := by
    rw [read_eq hnumbered, stateOf_revision hnumbered]
  exact he.regular.published.revision_short (fun id => (he.regular.follows.tool id).mpr) he.limits
    hroom (by omega) (by omega)

/-- A start that passes its checks finds its rows free. -/
theorem Enabling.starts (he : Enabling t) {request : InferenceRequest} {guards : List String}
    {output : Option (Dyn OutputReservation)} {budget : OutputBudget}
    (named : guards.any blank = false) (distinct : guards.Nodup) (ready : t.checkReady = .ok ())
    (timely : Timely handle clock t) (hbudget : t.outputBudget = .ok budget)
    (admitted : admitOutput budget request output = .ok ()) (base : request.base = t.read)
    (nonempty : o ≠ "") (ho : t.operation? o = none) (room : 0 < t.remaining .inference)
    (written : request.unwritable = false) :
    ∃ t', Change handle clock t (.start o request output (.typed guards)) t' := by
  obtain ⟨hrequired, -, houtput, -, hreserved⟩ := he.fresh ho
  obtain ⟨ops, hops⟩ := Table.insert_of_fresh (t := t.operations)
    (r := { id := o, stage := .inference, request }) (Table.lookup_eq_none_iff.mp ho)
  obtain ⟨reqs, hreqs⟩ := Table.insertAll_of_fresh (t := t.guardRequirements)
    (l := requirementRows o guards)
    (by
      rw [requirementRows, List.map_map]
      exact distinct.map fun g g' he => congrArg Prod.snd he)
    (by
      intro r hr
      obtain ⟨g, -, rfl⟩ := List.mem_map.mp hr
      exact hrequired g)
  obtain ⟨res, hres⟩ := Table.insert_of_fresh (t := t.reservations) (r := ⟨o, .inference⟩)
    (hreserved .inference)
  obtain ⟨outs, houts⟩ := Table.insertAll_of_fresh (t := t.outputReservations)
    (l := reservationRows o output)
    (by
      unfold reservationRows
      split <;> simp)
    (by
      intro r hr
      rw [(mem_reservationRows hr).1]
      exact houtput)
  exact ⟨_, .start named distinct ready timely hbudget admitted base nonempty hops hreqs room hres
    houts written⟩

/-! ## Nobody interferes -/

/-- Nobody else writes, no clock goes back, and the deadline is not reached. -/
structure Undisturbed (world : Nat → Beat) (handle : Handle) : Prop where
  quiet : Quiet world
  forward : ∀ n, (world n).clock.time ≤ (world (n + 1)).clock.time
  early : ∀ n, handle.secondsRemaining (world n).clock ≠ some 0

/-- The task stands before these tables, and no clock is behind them. -/
structure Faces (world : Nat → Beat) (handle : Handle) (t : Tables) (s : Scene) : Prop where
  handle : s.store.handle = some handle
  db : s.store.db = t
  clock : t.run.lastClock ≤ (world s.turn).clock.time

theorem Faces.timely (hw : Undisturbed world handle) (h : Faces world handle t s)
    (ho : t.run.outcome = none) : Timely handle (world s.turn).clock t :=
  ⟨ho, h.clock, hw.early s.turn⟩

theorem Faces.ask (hw : Undisturbed world handle) (h : Faces world handle t s) (a : Ask) :
    Faces world handle t (s.ask world a) := by
  have hstore : (s.ask world a).store = s.store := meanwhile_quiet hw.quiet a
  exact ⟨by rw [hstore]; exact h.handle, by rw [hstore]; exact h.db,
    h.clock.trans (hw.forward s.turn)⟩

theorem Faces.read (hw : Undisturbed world handle) (h : Faces world handle t s)
    (hc : c.onlyReads = true) : Faces world handle t (s.call world c) := by
  have hreads : ∀ i ∈ [(⟨(world s.turn).clock, c⟩ : Timed)], i.call.onlyReads = true := by
    intro i hi
    rw [List.mem_singleton.mp hi]
    exact hc
  have hstore : (s.call world c).store = s.store := after_onlyReads hreads
  exact ⟨by rw [hstore]; exact h.handle, by rw [hstore]; exact h.db,
    h.clock.trans (hw.forward s.turn)⟩

theorem Change.lastClock (h : Change handle clock t c t') :
    t'.run.lastClock = t.run.lastClock ∨ t'.run.lastClock = clock.time := by
  cases h with
  | start | dispatch | complete => exact .inr rfl
  | _ => exact .inl rfl

theorem Faces.write (hw : Undisturbed world handle) (h : Faces world handle t s)
    (hc : Change handle (world s.turn).clock t c t') : Faces world handle t' (s.call world c) := by
  have hstore : (s.call world c).store = { s.store with db := t' } :=
    exec_of_commits (i := ⟨(world s.turn).clock, c⟩) ⟨handle, t', h.handle, h.db ▸ hc, rfl⟩
  refine ⟨by rw [hstore]; exact h.handle, by rw [hstore], ?_⟩
  rcases hc.lastClock with hsame | hnow
  · rw [hsame]
    exact h.clock.trans (hw.forward s.turn)
  · rw [hnow]
    exact hw.forward s.turn

variable {ε α : Type}

/-- A call that only reads. -/
theorem plays_reads {x : c.Result} (hw : Undisturbed world handle) (h : Faces world handle t s)
    (hc : c.onlyReads = true) (hx : c.answer (world s.turn).clock s.store = .ok x) :
    Plays world (store c) s
      (Results (fun y s' => y = x ∧ Faces world handle t s') fun _ _ => False) := by
  refine plays_store ?_
  rw [hx]
  exact ⟨rfl, h.read hw hc⟩

/-- A call whose checks pass. -/
theorem plays_writes (hw : Undisturbed world handle) (h : Faces world handle t s)
    (hl : c.raisesLate = false) (hc : Change handle (world s.turn).clock t c t') :
    Plays world (store c) s (Results (fun _ s' => Faces world handle t' s') fun _ _ => False) := by
  have hok : (c.answer (world s.turn).clock s.store).isOk = true :=
    (call_commits h.handle (h.db ▸ hc) hl).1
  refine plays_store ?_
  cases ha : c.answer (world s.turn).clock s.store with
  | error e =>
    rw [ha] at hok
    cases hok
  | ok x => exact h.write hw hc

/-- An ask that is answered with a value. -/
theorem plays_answers {a : Ask} {r : a.Answer → Except ε α} {x : α}
    (hw : Undisturbed world handle) (h : Faces world handle t s)
    (hx : r ((world s.turn).reply a) = .ok x) :
    Plays world (.ask (.ask a) fun y => .ret (r y)) s
      (Results (fun y s' => y = x ∧ Faces world handle t s') fun _ _ => False) := by
  refine plays_ask (plays_ret ?_)
  rw [hx]
  exact ⟨rfl, h.ask hw a⟩

/-! ## The operation under way -/

/-- How far the operation of a step is, from the tables `t₀` before its start on. -/
structure Going (t₀ t : Tables) (o : String) (guards : List String) (row : OperationRow)
    (cost : ReservationKind → Nat) : Prop where
  enabling : Enabling t
  isOpen : t.run.outcome = none
  operation : t.operation? o = some row
  requirements : t.requirements o = requirementRows o guards
  read : t.read = t₀.read
  known : ∀ k, (t.operation? k).isSome = true ↔ (t₀.operation? k).isSome = true ∨ k = o
  paid : ∀ kind, t.remaining kind + cost kind = t₀.remaining kind

/-- The guards in `done` have decided to allow the operation, and no other has decided. -/
structure Allows (decisions : Table GuardDecisionRow.key) (o : String) (done : List String) :
    Prop where
  allowed : ∀ g ∈ done, ∃ d, decisions.lookup (o, g) = some d ∧ d.payload.postInit = none ∧
    d.payload.allowed = true
  others : ∀ g ∉ done, ¬ decisions.Has (o, g)

variable {t₀ : Tables} {guards done : List String} {row row' : OperationRow}
  {cost : ReservationKind → Nat}

theorem Change.stays_open (h : Change handle clock t c t') (ho : t.run.outcome = none)
    (hc : ∀ text, c ≠ .finish text) : t'.run.outcome = none := by
  cases h with
  | finish => exact absurd rfl (hc _)
  | _ => exact ho

/-- A change in the middle of the operation. -/
theorem Going.change (hg : Going t₀ t o guards row cost) (h : Change handle clock t c t')
    (hstart : ∀ id, ⟨id, .inference⟩ ∉ c.reserves) (hcomplete : ∀ e, c ≠ .complete (.typed e))
    (hfinish : ∀ text, c ≠ .finish text) (hrow : t'.operation? o = some row') :
    Going t₀ t' o guards row' fun kind =>
      cost kind + c.reserves.countP fun r => decide (r.kind = kind) where
  enabling := hg.enabling.change h
  isOpen := h.stays_open hg.isOpen hfinish
  operation := hrow
  requirements := by
    rw [h.requirements_eq (Option.isSome_of_eq_some hg.operation), hg.requirements]
  read := (h.read_eq hcomplete).trans hg.read
  known k := by
    rw [h.started_iff, hg.known]
    exact ⟨fun hk => hk.resolve_right (hstart k), .inl⟩
  paid kind := by
    have hremaining := h.remaining kind
    have hpaid := hg.paid kind
    push_cast
    omega

/-! ## The application of a scripted run -/

/-- `InferenceResult.scripted` -/
def InferenceResult.scripted (call : ToolCall) : InferenceResult :=
  ⟨.typed call, .typed InferenceUsage.scripted⟩

/-- `OutputReservation("scripted", 0)` -/
def OutputReservation.scripted : OutputReservation := ⟨⟨.scripted, 0⟩, by decide⟩

/-- The application answers: the scripted adapter has a call of a tool that is granted, the guards
allow it, its tool returns a text, and the evaluation publishes a state. -/
structure Cooperates (rt : Runtime) (world : Nat → Beat) : Prop where
  plain : rt.preparesRequest = false
  planned : rt.plansOutput = true ∧ ∀ n request available,
    (world n).reply (.planOutput request available) = .ok (.typed OutputReservation.scripted)
  acquired : ∀ n, (world n).reply .acquire = .ok ()
  notified : ∀ n event, (world n).reply (.notify event) = .ok ()
  generated : ∀ n o request, ∃ call : ToolCall,
    (world n).reply (.generate o request) = .ok (.typed (InferenceResult.scripted call)) ∧
      call.name ∈ rt.grants ∧ call.name ∈ rt.tools.tools.map Tool.name
  validated : ∀ n tool arguments, (world n).reply (.validate tool arguments) = .ok ()
  allowed : ∀ n g o request call, ∃ decision : GuardDecision,
    (world n).reply (.check g o request call) = .ok (.typed decision) ∧ decision.allowed = true
  executed : ∀ n o tool arguments, ∃ output,
    (world n).reply (.execute o tool arguments) = .ok (.typed output)
  evaluated : ∀ n candidate, ∃ e : Evaluation,
    (world n).reply (.evaluate candidate) = .ok (.typed e) ∧ e.Binds candidate ∧ e.advances

variable {rt : Runtime}

/-! ## The parts of a step -/

/-- An event is recorded, and changes nothing else. -/
theorem plays_emits {event : Event} {notifying : Bool} (hw : Undisturbed world handle)
    (ha : Cooperates rt world) (h : Faces world handle t s)
    (hg : Going t₀ t o guards row cost) (hid : event.stepId = o) (hnamed : event.stage ≠ "") :
    Plays world (rt.emit event notifying) s (Results (fun _ s' => ∃ events,
      Faces world handle { t with lifecycleEvents := events } s' ∧
        Going t₀ { t with lifecycleEvents := events } o guards row cost) fun _ _ => False) := by
  have hchange : Change handle (world s.turn).clock t (.recordEvent (.typed event)) _ :=
    .recordEvent hg.isOpen hnamed (hid ▸ hg.operation)
  have hgoing : Going t₀ _ o guards row cost :=
    hg.change hchange (by simp [Call.reserves]) (by simp) (by simp) hg.operation
  unfold Runtime.emit
  refine plays_after (plays_writes hw h rfl hchange) fun _ s₁ h₁ => ?_
  refine plays_after (plays_answers (x := ()) hw h₁ rfl) ?_
  rintro _ s₂ ⟨_, h₂⟩
  split
  · exact plays_mono (plays_answers hw h₂ (ha.notified _ event)) (fun _ s₃ h₃ => ⟨_, h₃.2, hgoing⟩)
      fun _ _ hn => hn
  · exact plays_value ⟨_, h₂, hgoing⟩

/-- Nothing is reported of the operation, and what it reserved is scripted. -/
structure Unreported (t : Tables) (o : String) : Prop where
  unused : ¬ t.inferenceUsage.Has o
  scripted : ∀ r, t.outputReservations.lookup o = some r → r.reservation = ⟨.scripted, 0⟩

/-- The scripted report is recorded, and breaches no reservation. -/
theorem plays_reports (hw : Undisturbed world handle) (h : Faces world handle t s)
    (hg : Going t₀ t o guards row cost) (hs : row.stage = .inference) (hu : Unreported t o) :
    Plays world (store (.recordUsage o (.typed InferenceUsage.scripted))) s
      (Results (fun _ s' => ∃ usages, Faces world handle { t with inferenceUsage := usages } s' ∧
        Going t₀ { t with inferenceUsage := usages } o guards row cost) fun _ _ => False) := by
  obtain ⟨usages, hinsert⟩ := Table.insert_of_fresh (t := t.inferenceUsage)
    (r := ⟨o, InferenceUsage.scripted.toUsageFields⟩) hu.unused
  have hchange : Change handle (world s.turn).clock t
      (.recordUsage o (.typed InferenceUsage.scripted)) { t with inferenceUsage := usages } :=
    .recordUsage hg.isOpen hg.operation hs hinsert
  have hgoing : Going t₀ _ o guards row cost :=
    hg.change hchange (by simp [Call.reserves]) (by simp) (by simp) hg.operation
  have hunbreached : ¬ Tables.Breached { t with inferenceUsage := usages } o := by
    rintro ⟨usage, reserved, husage, hreserved, hbreach⟩
    have hlookup : usages.lookup o = some ⟨o, InferenceUsage.scripted.toUsageFields⟩ := by
      rw [Table.lookup_insert hinsert, if_pos rfl]
    cases hlookup.symm.trans husage
    rw [hu.scripted reserved hreserved] at hbreach
    have hkept : ¬ Breaches InferenceUsage.scripted.toUsageFields ⟨.scripted, 0⟩ := by decide
    exact hkept hbreach
  have hcommits : Commits (world s.turn).clock (.recordUsage o (.typed InferenceUsage.scripted))
      s.store { s.store with db := { t with inferenceUsage := usages } } :=
    ⟨handle, _, h.handle, h.db ▸ hchange, rfl⟩
  refine plays_store ?_
  have hanswer : Call.answer (.recordUsage o (.typed InferenceUsage.scripted))
      (world s.turn).clock s.store = .ok () := (recordUsage_run hcommits).2.mpr hunbreached
  rw [hanswer]
  exact ⟨usages, h.write hw hchange, hgoing⟩

/-- The adapter has a call, and its report is in. -/
theorem plays_infers {request : InferenceRequest} (hw : Undisturbed world handle)
    (ha : Cooperates rt world) (h : Faces world handle t s) (hg : Going t₀ t o guards row cost)
    (hs : row.stage = .inference) (hu : Unreported t o) :
    Plays world (Runtime.infer o request) s (Results (fun response s' => ∃ call : ToolCall,
      response = InferenceResult.scripted call ∧
        (call.name ∈ rt.grants ∧ call.name ∈ rt.tools.tools.map Tool.name) ∧ ∃ usages,
          Faces world handle { t with inferenceUsage := usages } s' ∧
            Going t₀ { t with inferenceUsage := usages } o guards row cost)
      fun _ _ => False) := by
  obtain ⟨call, hcall, hknown⟩ := ha.generated s.turn o request
  unfold Runtime.infer
  refine plays_after (G := fun response s' =>
    response = .typed (InferenceResult.scripted call) ∧ Faces world handle t s')
    (plays_catching (plays_answers hw h hcall) (fun _ _ hok => hok) fun _ _ hn => hn.elim) ?_
  rintro response s₁ ⟨hresponse, h₁⟩
  subst hresponse
  refine plays_after (plays_reports hw h₁ hg hs hu) fun _ s₂ h₂ => ?_
  exact plays_value ⟨call, rfl, hknown, h₂⟩

/-- A tool that is granted and registered is found. -/
theorem plays_prepares {call : ToolCall} {grants : List String} (hw : Undisturbed world handle)
    (ha : Cooperates rt world) (h : Faces world handle t s) (hgranted : call.name ∈ grants)
    (hknown : call.name ∈ rt.tools.tools.map Tool.name) :
    Plays world (rt.tools.prepare call grants) s (Results (fun tool s' =>
      tool ∈ rt.tools.tools ∧ Faces world handle t s') fun _ _ => False) := by
  obtain ⟨tool, hfind⟩ : ∃ tool,
      rt.tools.tools.find? (fun tool => decide (tool.name = call.name)) = some tool := by
    obtain ⟨tool, htool, hname⟩ := List.mem_map.mp hknown
    exact Option.isSome_iff_exists.mp (List.find?_isSome.mpr ⟨tool, htool, by simp [hname]⟩)
  unfold ToolBroker.prepare
  refine plays_passes (fun hn => hn hgranted) ?_
  rw [hfind]
  refine plays_after (G := fun _ s' => Faces world handle t s')
    (plays_catching (plays_answers hw h (ha.validated _ tool call.arguments))
      (fun _ _ hok => hok.2) fun _ _ hn => hn.elim) fun _ s₁ h₁ => ?_
  exact plays_value ⟨List.mem_of_find?_eq_some hfind, h₁⟩

/-! ## Guards and dispatch -/

/-- A guard allows the operation, and its decision is recorded. -/
theorem plays_checks {request : InferenceRequest} {call : ToolCall} {guard : DispatchGuard}
    (hw : Undisturbed world handle) (ha : Cooperates rt world) (h : Faces world handle t s)
    (hg : Going t₀ t o guards row cost) (hs : row.stage = .proposed)
    (hd : Allows t.guardDecisions o done) (hguard : guard.id ∈ guards) (hnew : guard.id ∉ done) :
    Plays world (rt.checkGuard o request call guard) s (Results (fun _ s' => ∃ t',
      Faces world handle t' s' ∧ Going t₀ t' o guards row cost ∧
        Allows t'.guardDecisions o (done ++ [guard.id])) fun _ _ => False) := by
  obtain ⟨decision, hdecision, hallowed⟩ := ha.allowed s.turn guard.id o request call
  obtain ⟨rows, hinsert⟩ := Table.insert_of_fresh (t := t.guardDecisions)
    (r := ⟨o, guard.id, decision.toDecisionFields⟩) (hd.others guard.id hnew)
  have hrequired : t.guardRequirements.Has (o, guard.id) := by
    have hmem : (⟨o, guard.id⟩ : GuardRequirementRow) ∈ t.requirements o := by
      rw [hg.requirements]
      exact List.mem_map_of_mem hguard
    exact ⟨_, (List.mem_filter.mp hmem).1, rfl⟩
  have hchange : ∀ clock, Change handle clock t
      (.recordGuard o guard.id (.typed decision)) { t with guardDecisions := rows } :=
    fun _ => .recordGuard hg.isOpen hg.operation hs hrequired hinsert
  have hgoing : Going t₀ _ o guards row cost :=
    hg.change (hchange (world 0).clock) (by simp [Call.reserves]) (by simp) (by simp) hg.operation
  have hallows : Allows rows o (done ++ [guard.id]) := by
    constructor
    · intro g hgm
      rw [Table.lookup_insert hinsert]
      rcases List.mem_append.mp hgm with hold | hlast
      · have hne : guard.id ≠ g := by
          rintro rfl
          exact hnew hold
        rw [if_neg fun he => hne (congrArg Prod.snd he)]
        exact hd.allowed g hold
      · rw [List.mem_singleton.mp hlast]
        exact ⟨_, if_pos rfl, decision.accepted, hallowed⟩
    · intro g hgm
      rw [List.mem_append, not_or, List.mem_singleton] at hgm
      rw [Table.has_insert hinsert]
      rintro (hkey | hhas)
      · exact hgm.2 (congrArg Prod.snd hkey).symm
      · exact hd.others g hgm.1 hhas
  unfold Runtime.checkGuard
  refine plays_after (plays_answers hw h hdecision) ?_
  rintro answer s₁ ⟨hanswer, h₁⟩
  subst hanswer
  refine plays_after (plays_writes hw h₁ rfl (hchange _)) fun _ s₂ h₂ => ?_
  refine plays_after (plays_emits hw ha h₂ hgoing rfl (by simp [hallowed])) ?_
  rintro _ s₃ ⟨events, h₃, hg₃⟩
  exact plays_raiseIf (fun hn => by rw [hallowed] at hn; cases hn)
    fun _ => ⟨_, h₃, hg₃, hallows⟩

/-- The guards in their order all allow the operation. -/
theorem plays_guards {request : InferenceRequest} {call : ToolCall} (hw : Undisturbed world handle)
    (ha : Cooperates rt world) (h : Faces world handle t s)
    (hg : Going t₀ t o (rt.guards.map DispatchGuard.id) row cost) (hs : row.stage = .proposed)
    (hd : Allows t.guardDecisions o []) :
    Plays world (Prog.forEach (fun guard => at_ "guard" (rt.checkGuard o request call guard))
      rt.guards) s (Results (fun _ s' => ∃ t', Faces world handle t' s' ∧
        Going t₀ t' o (rt.guards.map DispatchGuard.id) row cost ∧
          Allows t'.guardDecisions o (rt.guards.map DispatchGuard.id)) fun _ _ => False) := by
  refine plays_forEach (fun done s' => ∃ t', Faces world handle t' s' ∧
    Going t₀ t' o (rt.guards.map DispatchGuard.id) row cost ∧
      Allows t'.guardDecisions o (done.map DispatchGuard.id)) ⟨t, h, hg, hd⟩ ?_
  rintro done guard hbefore s₁ ⟨t₁, h₁, hg₁, hd₁⟩
  have hmem : guard.id ∈ rt.guards.map DispatchGuard.id :=
    List.mem_map_of_mem (hbefore.subset (List.mem_append_right _ (List.mem_singleton.mpr rfl)))
  have hnew : guard.id ∉ done.map DispatchGuard.id := by
    have hnodup := (hbefore.sublist.map DispatchGuard.id).nodup rt.guardsDistinct
    rw [List.map_append, List.nodup_append] at hnodup
    exact fun hn => hnodup.2.2 _ hn _ (List.mem_singleton.mpr rfl) rfl
  rw [List.map_append]
  exact plays_at (plays_checks hw ha h₁ hg₁ hs hd₁ hmem hnew)

theorem lookup_updated {t : Tables} {f : OperationRow → OperationRow}
    {hf : ∀ row, (f row).id = row.id} (h : t.operation? o = some row) :
    Tables.operation? { t with operations := t.operations.update o f hf } o = some (f row) := by
  rw [Tables.operation?] at h ⊢
  rw [Table.lookup_update, if_pos rfl, h]
  rfl

/-- A proposed operation whose guards allow it is dispatched, while there is room. -/
theorem Going.dispatches (hg : Going t₀ t o guards row cost) (hs : row.stage = .proposed)
    (hd : Allows t.guardDecisions o guards) (ht : Timely handle clock t)
    (observation : Bool) {externalAction : Bool} (htool : 0 < t.remaining .tool)
    (hexternal : externalAction = true → 0 < t.remaining .external) :
    ∃ t', Change handle clock t (.dispatch o observation externalAction) t' ∧
      t'.operation? o = some { row with stage := .dispatched, observation := observation } := by
  have hunspent : ¬ t.Spent o := by
    rintro ⟨row', hrow', hspent⟩
    cases hg.operation.symm.trans hrow'
    rw [hs] at hspent
    cases hspent
  have hfollows := hg.enabling.regular.follows
  obtain ⟨tool, htoolRow⟩ := Table.insert_of_fresh (t := t.reservations) (r := ⟨o, .tool⟩)
    fun hh => hunspent ((hfollows.tool o).mp hh)
  have hfresh : ∀ r ∈ externalRows o externalAction, ¬ tool.Has r.key := by
    intro r hr
    unfold externalRows at hr
    split at hr
    · rw [List.mem_singleton.mp hr, Table.has_insert htoolRow]
      rintro (hkey | hhas)
      · cases hkey
      · exact hunspent (hfollows.external o hhas)
    · cases hr
  obtain ⟨res, hres⟩ := Table.insertAll_of_fresh (t := tool) (l := externalRows o externalAction)
    (by
      unfold externalRows
      split <;> simp) hfresh
  have hallowed : checkGuards t.guardDecisions (t.requirements o) = .ok () := by
    rw [hg.requirements]
    refine checkGuards_ok.mpr fun r hr => ?_
    obtain ⟨g, hgm, rfl⟩ := List.mem_map.mp hr
    exact hd.allowed g hgm
  exact ⟨_, .dispatch ht hg.operation hs hallowed htool htoolRow hexternal hres,
    lookup_updated hg.operation⟩

/-! ## The publication -/

theorem answer_secondsRemaining (h : Faces world handle t s) :
    Call.answer .secondsRemaining (world s.turn).clock s.store =
      .ok (handle.secondsRemaining (world s.turn).clock) := by
  change (SQLiteRun.secondsRemaining _ s.store).1 = _
  unfold SQLiteRun.secondsRemaining
  rw [(SQLiteRun.handle_some h.handle).1]

theorem plays_inTime (hw : Undisturbed world handle) (h : Faces world handle t s) :
    Plays world checkDeadline s
      (Results (fun _ s' => Faces world handle t s') fun _ _ => False) := by
  unfold checkDeadline
  refine plays_after (plays_reads hw h rfl (answer_secondsRemaining h)) ?_
  rintro left s₁ ⟨hleft, h₁⟩
  subst hleft
  exact plays_raiseIf (fun hn => absurd hn (hw.early s.turn)) fun _ => h₁

/-- What is left of the budgets pays for `k` steps. -/
def Affords (rt : Runtime) (t : Tables) (k : Nat) : Prop :=
  (k : Int) ≤ t.remaining .inference ∧ (k : Int) ≤ t.remaining .tool ∧
    (rt.tools.tools.any Tool.externalAction = true → (k : Int) ≤ t.remaining .external)

/-- One step further: the operation `o` is there, and the revision is the next. -/
structure Stepped (rt : Runtime) (t₀ t : Tables) (o : String) : Prop where
  enabling : Enabling t
  ready : t.checkReady = .ok ()
  revision : t.read.revision = t₀.read.revision + 1
  known : ∀ k, (t.operation? k).isSome = true ↔ (t₀.operation? k).isSome = true ∨ k = o
  affords : ∀ k, Affords rt t₀ (k + 1) → Affords rt t k

/-- What the operation has cost once it is dispatched. -/
structure Paid (rt : Runtime) (cost : ReservationKind → Nat) : Prop where
  inference : cost .inference = 1
  tool : cost .tool = 1
  external : cost .external ≤ 1
  outward : 0 < cost .external → rt.tools.tools.any Tool.externalAction = true

theorem Paid.affords (hp : Paid rt cost) (hpaid : ∀ kind, t.remaining kind + cost kind =
    t₀.remaining kind) {k : Nat} (h : Affords rt t₀ (k + 1)) : Affords rt t k := by
  obtain ⟨hinference, htool, hexternal⟩ := h
  have h₁ := hpaid .inference
  have h₂ := hpaid .tool
  have h₃ := hpaid .external
  rw [hp.inference] at h₁
  rw [hp.tool] at h₂
  have hle := hp.external
  push_cast at *
  refine ⟨by omega, by omega, fun hany => ?_⟩
  have := hexternal hany
  omega

/-- The operation that was under way has ended, at no further cost. -/
structure Freed (t t' : Tables) : Prop where
  enabling : Enabling t'
  ready : t'.checkReady = .ok ()
  known : ∀ k, (t'.operation? k).isSome = true ↔ (t.operation? k).isSome = true
  remaining : ∀ kind, t'.remaining kind = t.remaining kind

theorem Enabling.frees (he : Enabling t) (hopen : t.run.outcome = none)
    (hr : t.operation? o = some row) (hl : row.stage.live = true)
    (h : Change handle clock t c t') (hc : c.reserves = []) (hfinish : ∀ text, c ≠ .finish text)
    (hr' : t'.operation? o = some row') (hl' : row'.stage.live = false) : Freed t t' where
  enabling := he.change h
  ready := by
    refine checkReady_ok.mpr ⟨h.stays_open hopen hfinish, fun q hq => ?_⟩
    by_contra hlive
    rw [Bool.not_eq_false] at hlive
    have hlookup : t'.operation? q.id = some q := Table.lookup_of_mem hq
    rcases h.live hlookup hlive with ⟨p, hp, hplive⟩ | ⟨_, _, _, hcall⟩
    · have hsame : q.id = o := he.regular.ledger.good.single hp hr hplive hl
      rw [hsame, hr'] at hlookup
      cases hlookup
      rw [hl'] at hlive
      cases hlive
    · rw [hcall] at hc
      simp [Call.reserves] at hc
  known k := by
    rw [h.started_iff, hc]
    simp
  remaining kind := by
    rw [h.remaining, hc]
    simp

theorem Change.completes {e : Evaluation} (h : Change handle clock t (.complete (.typed e)) t')
    (hr : t.operation? o = some row) (hid : e.candidate.id = o) :
    t'.operation? o = some { row with stage := .completed } := by
  rcases h.lookup o with ⟨hw, -⟩ | ⟨hn, -⟩ | ⟨row₁, row₂, hr₁, hr₂, hm⟩
  · exact absurd (congrArg some hid) hw
  · rw [hr] at hn
    cases hn
  · cases hr.symm.trans hr₁
    cases hm
    exact hr₂

theorem Evaluation.Binds.id {e : Evaluation} {candidate : Candidate} (h : e.Binds candidate)
    (hr : t.operation? o = some row) (hc : row.candidate = .ok candidate) :
    e.candidate.id = o := by
  obtain ⟨call, -, rfl⟩ := candidate_ok.mp hc
  rw [h.candidate]
  exact (Table.lookup_some hr).2

/-- The completion of the operation ends the step. -/
theorem Going.completed (hg : Going t₀ t o guards row cost) (hp : Paid rt cost)
    (hs : row.stage = .returned) {e : Evaluation} {candidate : Candidate}
    (hc : row.candidate = .ok candidate) (hb : e.Binds candidate) (hadvances : e.advances)
    (h : Change handle clock t (.complete (.typed e)) t') :
    Stepped rt t₀ t' o ∧
      Going t' t' o guards { row with stage := .completed } fun _ => 0 := by
  have hrow := h.completes hg.operation (hb.id hg.operation hc)
  have hfreed := hg.enabling.frees hg.isOpen hg.operation (by rw [hs]; rfl) h rfl (by simp) hrow rfl
  refine ⟨⟨hfreed.enabling, hfreed.ready, ?_, fun k => (hfreed.known k).trans (hg.known k),
    fun k hk => ?_⟩, ⟨hfreed.enabling, h.stays_open hg.isOpen (by simp), hrow, ?_, rfl,
      fun k => ?_, fun kind => by simp⟩⟩
  · rw [complete_revision hg.enabling.regular.ledger.good hg.enabling.regular.published h hb,
      if_pos hadvances, hg.read]
  · exact hp.affords (fun kind => by rw [hfreed.remaining]; exact hg.paid kind) hk
  · rw [h.requirements_eq (Option.isSome_of_eq_some hg.operation), hg.requirements]
  · refine ⟨.inl, ?_⟩
    rintro (hk | rfl)
    · exact hk
    · exact Option.isSome_of_eq_some hrow

/-- An output that is kept is completed with an evaluation that publishes a state. -/
theorem plays_completes {candidate : Candidate} {e : Evaluation} (hw : Undisturbed world handle)
    (h : Faces world handle t s) (he : Enabling t) (hopen : t.run.outcome = none)
    (hr : t.operation? o = some row) (hs : row.stage = .returned)
    (hc : row.candidate = .ok candidate) (hb : e.Binds candidate) (hadvances : e.advances) :
    Plays world (store (.complete (.typed e))) s (Results (fun r s' =>
      (r.committed = true ∧ r.state.revision = t.read.revision + 1) ∧ ∃ clock t',
        Change handle clock t (.complete (.typed e)) t' ∧ Faces world handle t' s')
          fun _ _ => False) := by
  obtain ⟨t', hchange⟩ := completes he.regular.published (h.timely hw hopen) ⟨row, hr, hs, hc⟩
    hb.checked
  have hcommits : Commits (world s.turn).clock (.complete (.typed e)) s.store
      { s.store with db := t' } := ⟨handle, t', h.handle, h.db ▸ hchange, rfl⟩
  have hanswer : Call.answer (.complete (.typed e)) (world s.turn).clock s.store =
      .ok (e.result s.store.db.read) := congrArg Prod.fst (complete_ok.mpr ⟨hcommits, rfl⟩)
  obtain ⟨value, hvalue⟩ : ∃ value, e.published = some value := by
    rcases hb.update with hnone | ⟨value, hsome⟩
    · exact absurd hnone hadvances.2
    · exact ⟨value, published_iff.mpr ⟨hadvances.1, hsome⟩⟩
  refine plays_store ?_
  rw [hanswer, h.db]
  refine ⟨⟨by simp [Evaluation.result, hvalue], ?_⟩, _, t', hchange, h.write hw hchange⟩
  rw [Evaluation.result, publishedState, hvalue]

/-- The evaluation publishes a state. -/
theorem plays_publishes {call : ToolCall} {candidate : Candidate} (hw : Undisturbed world handle)
    (ha : Cooperates rt world) (h : Faces world handle t s) (hg : Going t₀ t o guards row cost)
    (hp : Paid rt cost) (hs : row.stage = .returned) (hc : row.candidate = .ok candidate) :
    Plays world (rt.publish o call candidate) s (Results (fun r s' => r.committed = true ∧
      r.state.revision = t₀.read.revision + 1 ∧ ∃ t', Faces world handle t' s' ∧
        Stepped rt t₀ t' o ∧ ∃ row', Going t' t' o guards row' fun _ => 0) fun _ _ => False) := by
  unfold Runtime.publish
  refine plays_after (plays_emits hw ha h hg rfl (by simp)) ?_
  rintro _ s₁ ⟨events, h₁, hg₁⟩
  refine plays_after (plays_inTime hw h₁) fun _ s₂ h₂ => ?_
  obtain ⟨e, he, hbinds, hadvances⟩ := ha.evaluated s₂.turn candidate
  refine plays_after (plays_answers hw h₂ he) ?_
  rintro evaluation s₃ ⟨hevaluation, h₃⟩
  subst hevaluation
  refine plays_after (plays_inTime hw h₃) fun _ s₄ h₄ => ?_
  refine plays_mono (plays_completes hw h₄ hg₁.enabling hg₁.isOpen hg₁.operation hs hc hbinds
    hadvances) ?_ fun _ _ hn => hn
  rintro r s' ⟨⟨hcommitted, hrevision⟩, clock, t', hchange, h'⟩
  obtain ⟨hstepped, hgoing⟩ := hg₁.completed hp hs hc hbinds hadvances hchange
  exact ⟨hcommitted, by rw [hrevision, hg₁.read], t', h', hstepped, _, hgoing⟩

/-! ## A step -/

/-- The output is kept, and answered with its candidate. -/
theorem plays_returns {output : String} (hw : Undisturbed world handle)
    (h : Faces world handle t s) (hg : Going t₀ t o guards row cost)
    (hs : row.stage = .dispatched) :
    Plays world (store (.returned o (.typed output))) s (Results (fun candidate s' => ∃ t',
      Faces world handle t' s' ∧
        Going t₀ t' o guards { row with stage := .returned, output := some output } cost ∧
          OperationRow.candidate { row with stage := .returned, output := some output } =
            .ok candidate) fun _ _ => False) := by
  obtain ⟨t', hchange, hrow⟩ : ∃ t', Change handle (world s.turn).clock t
      (.returned o (.typed output)) t' ∧
        t'.operation? o = some { row with stage := .returned, output := some output } :=
    ⟨_, .returned hg.operation hs, lookup_updated hg.operation⟩
  have hgoing := hg.change hchange (by simp [Call.reserves]) (by simp) (by simp) hrow
  have hledger : Ledger s.store.db := by
    rw [h.db]
    exact hg.enabling.regular.ledger
  have hcommits : Commits (world s.turn).clock (.returned o (.typed output)) s.store
      { s.store with db := t' } := ⟨handle, t', h.handle, h.db ▸ hchange, rfl⟩
  obtain ⟨row', candidate, hanswer, hrow', -, hcandidate⟩ := returned_answers hledger hcommits
  cases hrow.symm.trans hrow'
  refine plays_store ?_
  rw [hanswer]
  exact ⟨t', h.write hw hchange, hgoing, hcandidate⟩

/-- What an operation costs before its dispatch. -/
def oneInference (kind : ReservationKind) : Nat := if kind = .inference then 1 else 0

theorem paid_dispatched {tool : Tool} (htool : tool ∈ rt.tools.tools) : Paid rt fun kind =>
    oneInference kind + (Call.dispatch o tool.observation tool.externalAction).reserves.countP
      fun r => decide (r.kind = kind) := by
  cases he : tool.externalAction with
  | true =>
    exact ⟨rfl, rfl, le_rfl, fun _ => List.any_eq_true.mpr ⟨tool, htool, he⟩⟩
  | false => exact ⟨rfl, rfl, Nat.zero_le 1, fun hn => absurd hn (lt_irrefl 0)⟩

/-- From its start on, a step goes through to its end. -/
theorem plays_attempts {request : InferenceRequest} (hw : Undisturbed world handle)
    (ha : Cooperates rt world) (h : Faces world handle t s)
    (hg : Going t₀ t o (rt.guards.map DispatchGuard.id) { id := o, stage := .inference, request }
      oneInference)
    (hd : Allows t.guardDecisions o []) (hu : Unreported t o)
    (hgrants : request.allowedTools = rt.grants) (hafford : Affords rt t₀ 1) :
    Plays world (rt.attempt o request) s (Results (fun r s' => r.committed = true ∧
      r.state.revision = t₀.read.revision + 1 ∧ ∃ t', Faces world handle t' s' ∧
        Stepped rt t₀ t' o) fun _ _ => False) := by
  unfold Runtime.attempt
  refine plays_after (plays_at (plays_emits hw ha h hg rfl (by simp))) ?_
  rintro _ s₁ ⟨events₁, h₁, hg₁⟩
  refine plays_after (plays_at (plays_infers hw ha h₁ hg₁ rfl ⟨hu.unused, hu.scripted⟩)) ?_
  rintro response s₂ ⟨call, hresponse, ⟨hgranted, hknown⟩, usages, h₂, hg₂⟩
  subst hresponse
  -- the call is recorded
  have hproposed : Change handle (world s₂.turn).clock _ (.proposed o (.typed call)) _ :=
    .proposed hg₂.isOpen hg₂.operation rfl
  have hg₃ := hg₂.change hproposed (by simp [Call.reserves]) (by simp) (by simp)
    (lookup_updated hg₂.operation)
  refine plays_after (plays_at (plays_writes hw h₂ rfl hproposed)) fun _ s₃ h₃ => ?_
  refine plays_after (plays_at (plays_emits hw ha h₃ hg₃ rfl (by simp))) ?_
  rintro _ s₄ ⟨events₄, h₄, hg₄⟩
  refine plays_after (plays_at (G := fun found s' => found = call ∧ Faces world handle _ s')
    (plays_ret ⟨rfl, h₄⟩)) ?_
  rintro found s₅ ⟨hfound, h₅⟩
  subst hfound
  -- the call is checked, and dispatched
  refine plays_after (plays_at (plays_prepares hw ha h₅ (hgrants ▸ hgranted) hknown)) ?_
  rintro tool s₆ ⟨htool, h₆⟩
  refine plays_after (plays_guards hw ha h₆ hg₄ rfl hd) ?_
  rintro _ s₇ ⟨t₇, h₇, hg₇, hd₇⟩
  have hroom : 0 < t₇.remaining .tool := by
    have hpaid := hg₇.paid .tool
    have hone := hafford.2.1
    simp only [oneInference, Call.reserves, List.countP_nil, reduceCtorEq, if_false] at hpaid
    push_cast at hpaid hone
    omega
  have hexternal : tool.externalAction = true → 0 < t₇.remaining .external := by
    intro he
    have hpaid := hg₇.paid .external
    have hone := hafford.2.2 (List.any_eq_true.mpr ⟨tool, htool, he⟩)
    simp only [oneInference, Call.reserves, List.countP_nil, reduceCtorEq, if_false] at hpaid
    push_cast at hpaid hone
    omega
  obtain ⟨t₈, hdispatch, hrow₈⟩ := hg₇.dispatches rfl hd₇ (h₇.timely hw hg₇.isOpen)
    tool.observation hroom hexternal
  have hg₈ := hg₇.change hdispatch (by simp [Call.reserves, externalRows]) (by simp) (by simp) hrow₈
  refine plays_after (plays_at (plays_writes hw h₇ rfl hdispatch)) fun _ s₈ h₈ => ?_
  refine plays_after (plays_at (plays_emits hw ha h₈ hg₈ rfl (by simp))) ?_
  rintro _ s₉ ⟨events₉, h₉, hg₉⟩
  -- the tool returns, and its output is published
  obtain ⟨output, houtput⟩ := ha.executed s₉.turn o tool found.arguments
  refine plays_after (plays_at (plays_answers hw h₉ houtput)) ?_
  rintro answer s₁₀ ⟨hanswer, h₁₀⟩
  subst hanswer
  refine plays_after (plays_at (plays_returns hw h₁₀ hg₉ rfl)) ?_
  rintro candidate s₁₁ ⟨t₁₁, h₁₁, hg₁₁, hcandidate⟩
  refine plays_after (plays_at (plays_publishes hw ha h₁₁ hg₁₁ (paid_dispatched htool) rfl
    hcandidate)) ?_
  rintro result s₁₂ ⟨hcommitted, hrevision, t₁₂, h₁₂, hstepped, row', hg₁₂⟩
  refine plays_after (plays_at (plays_emits hw ha h₁₂ hg₁₂ rfl (by split <;> simp))) ?_
  rintro _ s₁₃ ⟨events₁₃, h₁₃, hg₁₃⟩
  exact plays_value ⟨hcommitted, hrevision, _, h₁₃, hg₁₃.enabling, hstepped.ready,
    hstepped.revision, hstepped.known, hstepped.affords⟩

/-- The request has the state of the run as its base, and every grant of the runtime. -/
theorem plays_asks {objective : String} (hw : Undisturbed world handle) (ha : Cooperates rt world)
    (h : Faces world handle t s) :
    Plays world (rt.request objective t.read rt.grants) s (Results (fun request s' =>
      (request.base = t.read ∧ request.allowedTools = rt.grants ∧
        request.maxOutputTokens = none) ∧ Faces world handle t s') fun _ _ => False) := by
  have hanswer : Call.answer .latestObservation (world s.turn).clock s.store =
      .ok t.latestObservation := by
    rw [← h.db]
    exact congrArg Prod.fst (query_of_live h.handle)
  unfold Runtime.request
  refine plays_after (plays_reads hw h rfl hanswer) ?_
  rintro observation s₁ ⟨_, h₁⟩
  unfold Runtime.prepared
  rw [ha.plain, if_neg (by decide)]
  refine plays_after (G := fun request s' => (request.base = t.read ∧
    request.allowedTools = rt.grants ∧ request.maxOutputTokens = none) ∧ Faces world handle t s')
    (plays_value ⟨⟨rfl, rfl, rfl⟩, h₁⟩) ?_
  rintro request s₂ ⟨⟨hbase, hgrants, hceiling⟩, h₂⟩
  refine plays_passes (fun hn => hn hbase) ?_
  refine plays_passes (fun hn => hn (by rw [hgrants]; exact List.Subset.refl _)) ?_
  exact plays_value ⟨⟨hbase, hgrants, hceiling⟩, h₂⟩

theorem scripted_short : tooLong OutputReservation.scripted.tokens = false := by decide +kernel

/-- The scripted reservation is admitted, where one is asked for. -/
theorem plays_reserves {request : InferenceRequest} (hw : Undisturbed world handle)
    (ha : Cooperates rt world) (h : Faces world handle t s) (he : Enabling t) :
    Plays world (rt.reservation request) s (Results (fun plan s' =>
      ((plan.2.base = request.base ∧ plan.2.allowedTools = request.allowedTools ∧
        (request.maxOutputTokens = none → plan.2.maxOutputTokens.any tooLong = false)) ∧
        (∃ budget, t.outputBudget = .ok budget ∧ admitOutput budget plan.2 plan.1 = .ok ()) ∧
        ∀ o, ∀ r ∈ reservationRows o plan.1, r.reservation = ⟨.scripted, 0⟩) ∧
      Faces world handle t s') fun _ _ => False) := by
  obtain ⟨budget, hbudget, -, havailable⟩ := he.outputBudget
  have hanswer : Call.answer .outputBudget (world s.turn).clock s.store = .ok budget := by
    rw [← hbudget, ← h.db]
    exact congrArg Prod.fst (query_of_live h.handle)
  unfold Runtime.reservation
  refine plays_after (plays_reads hw h rfl hanswer) ?_
  rintro found s₁ ⟨hfound, h₁⟩
  subst hfound
  cases hlimit : found.limit with
  | none =>
    have hnone : found.available = none := by
      rw [← Option.not_isSome_iff_eq_none, havailable, hlimit]
      decide
    rw [hnone]
    refine plays_value ⟨⟨⟨rfl, rfl, fun hn => by simp [hn]⟩, ⟨found, hbudget, ?_⟩,
      fun o r hr => by cases hr⟩, h₁⟩
    unfold admitOutput
    rw [hlimit]
  | some limit =>
    obtain ⟨available, hsome⟩ : ∃ available, found.available = some available :=
      Option.isSome_iff_exists.mp (havailable.mpr (by rw [hlimit]; rfl))
    rw [hsome]
    refine plays_passes (by rw [ha.planned.1]; decide) ?_
    refine plays_after (plays_answers hw h₁ (ha.planned.2 _ request available)) ?_
    rintro plan s₂ ⟨hplan, h₂⟩
    subst hplan
    refine plays_passes (fun hn => by cases hn.1) ?_
    refine plays_value ⟨⟨⟨rfl, rfl, fun _ => scripted_short⟩, ⟨found, hbudget, ?_⟩,
      fun o r hr => ?_⟩, h₂⟩
    · unfold admitOutput
      rw [hlimit]
      rfl
    · rw [List.mem_singleton.mp hr]
      rfl

/-- The operation is started. -/
theorem plays_opens {request : InferenceRequest} {output : Option (Dyn OutputReservation)}
    (hw : Undisturbed world handle) (h : Faces world handle t s) (he : Enabling t)
    (hready : t.checkReady = .ok ()) (hafford : Affords rt t 1) (hbase : request.base = t.read)
    (hadmitted : ∃ budget, t.outputBudget = .ok budget ∧ admitOutput budget request output = .ok ())
    (hscripted : ∀ r ∈ reservationRows o output, r.reservation = ⟨.scripted, 0⟩)
    (hnamed : o ≠ "") (hnew : t.operation? o = none) (hwritten : request.unwritable = false) :
    Plays world (store (.start o request output (.typed (rt.guards.map DispatchGuard.id)))) s
      (Results (fun _ s' => ∃ t', Faces world handle t' s' ∧
        Going t t' o (rt.guards.map DispatchGuard.id) { id := o, stage := .inference, request }
          oneInference ∧
        Allows t'.guardDecisions o [] ∧ Unreported t' o) fun _ _ => False) := by
  obtain ⟨budget, hbudget, hadmit⟩ := hadmitted
  have hopen := (checkReady_ok.mp hready).1
  have hguards : (rt.guards.map DispatchGuard.id).any blank = false := by
    rw [List.any_eq_false]
    intro g hg
    obtain ⟨guard, -, rfl⟩ := List.mem_map.mp hg
    simp [guard.named]
  have hone := hafford.1
  obtain ⟨t', hchange⟩ := he.starts hguards rt.guardsDistinct hready (h.timely hw hopen) hbudget
    hadmit hbase hnamed hnew (by push_cast at hone; omega) hwritten
  obtain ⟨-, hundecided, houtput, hunused, -⟩ := he.fresh hnew
  have hrow : t'.operation? o = some { id := o, stage := .inference, request } := by
    rcases hchange.lookup o with ⟨hw, -⟩ | ⟨-, _, _, _, hcall, hrow⟩ | ⟨row, _, hrow, -⟩
    · exact absurd rfl hw
    · cases hcall
      exact hrow
    · rw [hnew] at hrow
      cases hrow
  have hrequirements : t'.requirements o = requirementRows o (rt.guards.map DispatchGuard.id) := by
    have hnone : t.requirements o = [] := by
      rw [Tables.requirements, List.filter_eq_nil_iff]
      intro r hr hid
      rw [decide_eq_true_eq] at hid
      have hsome := he.required r hr
      rw [hid, hnew] at hsome
      cases hsome
    rw [Tables.requirements, hchange.requires, List.filter_append]
    change t.requirements o ++ _ = _
    rw [hnone, List.nil_append]
    refine List.filter_eq_self.mpr fun r hr => ?_
    obtain ⟨g, -, rfl⟩ := List.mem_map.mp hr
    simp
  have hdecisions : t'.guardDecisions = t.guardDecisions ∧
      t'.inferenceUsage = t.inferenceUsage := by
    cases hchange
    exact ⟨rfl, rfl⟩
  have houtputs : ∀ r, t'.outputReservations.lookup o = some r →
      r.reservation = ⟨.scripted, 0⟩ := by
    intro r hr
    obtain ⟨hmem, hkey⟩ := Table.lookup_some hr
    rcases hchange.outputRows with hsame | ⟨_, _, _, _, hcall, hinsert⟩
    · rw [hsame] at hmem
      exact absurd ⟨r, hmem, hkey⟩ houtput
    · cases hcall
      rcases (Table.mem_insertAll hinsert).mp hmem with hold | hnewRow
      · exact absurd ⟨r, hold, hkey⟩ houtput
      · exact hscripted r hnewRow
  refine plays_mono (plays_writes hw h rfl hchange) (fun _ s₁ h₁ => ⟨t', h₁, ?_, ?_, ?_⟩)
    fun _ _ hn => hn
  · refine ⟨he.change hchange, hchange.stays_open hopen (by simp), hrow, hrequirements,
      hchange.read_eq (by simp), fun k => ?_, fun kind => ?_⟩
    · rw [hchange.started_iff]
      simp [Call.reserves]
    · rw [hchange.remaining]
      cases kind <;> simp [Call.reserves, oneInference]
  · rw [hdecisions.1]
    exact ⟨fun g hg => (by cases hg), fun g _ => hundecided g⟩
  · exact ⟨by rw [hdecisions.2]; exact hunused, houtputs⟩

/-- No program turns the time back. -/
theorem plays_onward {x : Flow ε α} {G : α → Scene → Prop}
    (h : Plays world x s (Results G fun _ _ => False)) :
    Plays world x s (Results (fun a s' => G a s' ∧ s.turn ≤ s'.turn) fun _ _ => False) := by
  have hturn : Plays world x s fun _ s' => s.turn ≤ s'.turn :=
    plays_scene (I := fun s' => s.turn ≤ s'.turn) (fun _ _ hs => Nat.le_succ_of_le hs)
      (fun _ _ hs => Nat.le_succ_of_le hs) le_rfl
  refine plays_weaken (plays_and h hturn) ?_
  rintro (e | a) s' ⟨hres, hle⟩
  · exact hres
  · exact ⟨hres, hle⟩

/-- The identifiers are names and differ, and from a turn on none is in the tables. -/
structure Unused (world : Nat → Beat) (t : Tables) (turn : Nat) : Prop where
  named : ∀ n, (world n).reply .newId ≠ ""
  distinct : ∀ n n', (world n).reply .newId = (world n').reply .newId → n = n'
  unused : ∀ n, turn ≤ n → t.operation? ((world n).reply .newId) = none

theorem Unused.stepped {turn turn' n : Nat} (h : Unused world t₀ turn)
    (hs : Stepped rt t₀ t ((world n).reply .newId)) (hle : turn ≤ turn') (hn : n < turn') :
    Unused world t turn' where
  named := h.named
  distinct := h.distinct
  unused m hm := by
    rw [← Option.not_isSome_iff_eq_none, hs.known, not_or]
    refine ⟨?_, fun he => ?_⟩
    · rw [h.unused m (hle.trans hm)]
      decide
    · have hsame := h.distinct m n he
      omega

/-- The run is ready, and can pay for `k` steps. -/
structure Able (rt : Runtime) (world : Nat → Beat) (t : Tables) (turn k : Nat) : Prop where
  enabling : Enabling t
  ready : t.checkReady = .ok ()
  unused : Unused world t turn
  affords : Affords rt t k

/-- How a step ends that nothing hinders. -/
abbrev Advanced (rt : Runtime) (world : Nat → Beat) (handle : Handle) (t : Tables) (turn : Nat)
    (r : StepResult) (s : Scene) : Prop :=
  (r.committed = true ∧ r.state.revision = t.read.revision + 1) ∧
    ∃ n t', (turn ≤ n ∧ n < s.turn) ∧ Faces world handle t' s ∧
      Stepped rt t t' ((world n).reply .newId)

/-- The body of a step goes through to its end. -/
theorem plays_body (hw : Undisturbed world handle) (ha : Cooperates rt world)
    (h : Faces world handle t s) (hable : Able rt world t s.turn 1) (objective : String) :
    Plays world (rt.stepBody objective none) s
      (Results (Advanced rt world handle t s.turn) fun _ _ => False) := by
  have hread : Call.answer .read (world s.turn).clock s.store = .ok t.read := by
    rw [← h.db]
    exact congrArg Prod.fst (query_of_live h.handle)
  unfold Runtime.stepBody
  refine plays_passes (fun hn => hn (List.Subset.refl _)) ?_
  refine plays_after (plays_onward (plays_reads hw h rfl hread)) ?_
  rintro base s₁ ⟨⟨hbase, h₁⟩, hle₁⟩
  subst hbase
  refine plays_after (plays_onward (plays_asks hw ha h₁)) ?_
  rintro request s₂ ⟨⟨⟨hbase, hgrants, hceiling⟩, h₂⟩, hle₂⟩
  refine plays_after (plays_onward (plays_reserves hw ha h₂ hable.enabling)) ?_
  rintro plan s₃ ⟨⟨⟨⟨hplanBase, hplanGrants, hshort⟩, hadmitted, hscripted⟩, h₃⟩, hle₃⟩
  refine plays_after (G := fun o s' => o = (world s₃.turn).reply .newId ∧
    Faces world handle t s' ∧ s₃.turn < s'.turn)
    (plays_ask (plays_value ⟨rfl, h₃.ask hw _, Nat.lt_succ_self _⟩)) ?_
  rintro o s₄ ⟨ho, h₄, hlt⟩
  subst ho
  have hnew := hable.unused.unused s₃.turn ((hle₁.trans hle₂).trans hle₃)
  have hwritten : plan.2.unwritable = false := by
    have hroom := hable.affords.2.1
    unfold InferenceRequest.unwritable
    rw [hplanBase, hbase, hable.enabling.read_short (by omega), hshort hceiling]
    rfl
  refine plays_after (plays_onward (plays_opens hw h₄ hable.enabling hable.ready hable.affords
    (hplanBase.trans hbase) hadmitted (hscripted _) (hable.unused.named _) hnew hwritten)) ?_
  rintro _ s₅ ⟨⟨t₅, h₅, hg, hd, hu⟩, hle₅⟩
  -- no failure is left to be recorded
  refine plays_catching (plays_onward (plays_attempts hw ha h₅ hg hd hu
    (hplanGrants.trans hgrants) hable.affords)) ?_ fun _ _ hn => hn.elim
  rintro r s' ⟨⟨hcommitted, hrevision, t', h', hstepped⟩, hle⟩
  exact ⟨⟨hcommitted, hrevision⟩, s₃.turn, t', ⟨by omega, by omega⟩, h', hstepped⟩

/-- A step goes through to its end. -/
theorem plays_steps (hw : Undisturbed world handle) (ha : Cooperates rt world)
    (h : Faces world handle t s) (hable : Able rt world t s.turn 1) (objective : String) :
    Plays world (rt.step objective none) s
      (Results (Advanced rt world handle t s.turn) fun _ _ => False) := by
  have hready : ∀ s' : Scene, Faces world handle t s' →
      Call.answer .checkReady (world s'.turn).clock s'.store = .ok () := by
    intro s' h'
    rw [← hable.ready, ← h'.db]
    exact congrArg Prod.fst (query_of_live h'.handle)
  unfold Runtime.step
  refine plays_locked (fun e he => ?_) ?_ ?_ fun _ _ hn => hn
  · rw [ha.acquired] at he
    cases he
  · have h₁ := h.ask hw .acquire
    refine plays_after (G := fun _ s' => Faces world handle t s' ∧ s.turn ≤ s'.turn)
      (plays_ask (plays_value ⟨h₁.ask hw _, by simp only [Scene.ask]; omega⟩)) ?_
    rintro _ s₂ ⟨h₂, hle₂⟩
    refine plays_after (plays_onward (plays_reads hw h₂ rfl (hready s₂ h₂))) ?_
    rintro _ s₃ ⟨⟨_, h₃⟩, hle₃⟩
    have hturn : s.turn ≤ (s₃.call world .secondsRemaining).turn :=
      (hle₂.trans hle₃).trans (Nat.le_succ _)
    have hbody := plays_body hw ha (h₃.read hw (c := .secondsRemaining) rfl)
      { hable with unused := { hable.unused with
        unused := fun n hn => hable.unused.unused n (hturn.trans hn) } } objective
    refine plays_timeout (plays_mono hbody ?_ fun _ _ hn => hn) fun _ _ hn => hn.elim
    rintro r s' ⟨hr, n, t', ⟨hn, hn'⟩, h', hstepped⟩
    exact ⟨hr, n, t', ⟨hturn.trans hn, hn'⟩, h', hstepped⟩
  · rintro r s' ⟨hr, n, t', ⟨hn, hn'⟩, h', hstepped⟩
    exact ⟨hr, n, t', ⟨hn, Nat.lt_succ_of_lt hn'⟩, h'.ask hw _, hstepped⟩

/-! ## A run -/

/-- One step for each objective. -/
def Runtime.work (rt : Runtime) : List String → Flow Exn (List StepResult)
  | [] => return []
  | objective :: objectives => do
    let result ← rt.step objective none
    return result :: (← rt.work objectives)

/-- The results commit, one revision after the other. -/
def Ascends (revision : Int) (results : List StepResult) : Prop :=
  ∀ (i : Nat) (r : StepResult), results[i]? = some r →
    r.committed = true ∧ r.state.revision = revision + i + 1

theorem Affords.mono {k k' : Nat} (h : Affords rt t k) (hle : k' ≤ k) : Affords rt t k' := by
  obtain ⟨hinference, htool, hexternal⟩ := h
  refine ⟨by omega, by omega, fun hany => ?_⟩
  have := hexternal hany
  omega

theorem plays_works (hw : Undisturbed world handle) (ha : Cooperates rt world)
    (objectives : List String) (h : Faces world handle t s)
    (hable : Able rt world t s.turn objectives.length) :
    Plays world (rt.work objectives) s (Results (fun results s' =>
      (results.length = objectives.length ∧ Ascends t.read.revision results) ∧
        s'.store.handle = some handle ∧ s'.store.db.checkReady = .ok () ∧
          s'.store.db.read.revision = t.read.revision + objectives.length) fun _ _ => False) := by
  induction objectives generalizing s t with
  | nil =>
    refine plays_value ⟨⟨rfl, fun i r hr => by simp at hr⟩, h.handle, ?_, ?_⟩
    · rw [h.db]
      exact hable.ready
    · rw [h.db]
      simp
  | cons objective objectives ih =>
    have hone : Able rt world t s.turn 1 :=
      { hable with affords := hable.affords.mono (by simp) }
    refine plays_after (plays_onward (plays_steps hw ha h hone objective)) ?_
    rintro result s₁ ⟨⟨⟨hcommitted, hrevision⟩, n, t₁, ⟨_, hn⟩, h₁, hstepped⟩, hle⟩
    have hable₁ : Able rt world t₁ s₁.turn objectives.length :=
      ⟨hstepped.enabling, hstepped.ready, hable.unused.stepped hstepped hle hn,
        hstepped.affords _ hable.affords⟩
    refine plays_after (ih h₁ hable₁) ?_
    rintro results s₂ ⟨⟨hlength, hascends⟩, hhandle, hready, hlast⟩
    rw [hstepped.revision] at hascends hlast
    refine plays_value ⟨⟨by simp [hlength], ?_⟩, hhandle, hready, ?_⟩
    · rintro (_ | i) r hr
      · cases hr
        exact ⟨hcommitted, by rw [hrevision]; simp⟩
      · obtain ⟨hc, hrev⟩ := hascends i r hr
        refine ⟨hc, ?_⟩
        rw [hrev]
        push_cast
        omega
    · rw [hlast]
      simp only [List.length_cons]
      push_cast
      omega

/-- From every run that is ready, with budgets that pay for a step for each objective, nothing can
keep these steps from committing, each one revision further, and the run is ready again. -/
theorem a_scripted_run_goes_on {now : ℚ} {runId state : Dyn String} {limits : RunLimits}
    {observation : Option (Dyn String)} {self : SQLiteRun}
    (h : SQLiteRun.create now clock runId state limits observation = .ok self)
    (calls : List Timed) (hhandle : (self.after calls).handle = some handle)
    (hready : (self.after calls).db.checkReady = .ok ())
    (hclock : (self.after calls).db.run.lastClock ≤ (world 0).clock.time)
    (hw : Undisturbed world handle) (ha : Cooperates rt world)
    (hunused : Unused world (self.after calls).db 0) (objectives : List String)
    (hafford : Affords rt (self.after calls).db objectives.length) :
    ∃ results s', (rt.work objectives).run (Scene.answer world) { store := self.after calls } =
        (.ok results, s') ∧
      (results.length = objectives.length ∧
        Ascends (self.after calls).db.read.revision results) ∧
      s'.store.handle = some handle ∧ s'.store.db.checkReady = .ok () ∧
        s'.store.db.read.revision = (self.after calls).db.read.revision + objectives.length :=
  (plays_works hw ha objectives (s := { store := self.after calls }) ⟨hhandle, rfl, hclock⟩
    ⟨enabling_created h calls, hready, hunused, hafford⟩).returns

/-- A runtime with a guard, whose adapter plans its output. -/
def scriptedRuntime : Runtime where
  tools := ⟨[{ name := "act", externalAction := true }], by simp, by simp⟩
  grants := ["act"]
  guards := [⟨"guard", rfl⟩]
  guardsDistinct := List.nodup_singleton _
  plansOutput := true
  preparesRequest := false
  notifies := true

/-- What an application answers whose evaluator publishes each output. -/
def scriptedReply (n : Nat) : (a : Ask) → a.Answer
  | .newId => String.ofList (List.replicate (n + 1) 'o')
  | .planOutput _ _ => .ok (.typed OutputReservation.scripted)
  | .check _ _ _ _ => .ok (.typed ⟨⟨true, "fine"⟩, rfl⟩)
  | .evaluate candidate => .ok (.typed {
      candidate
      evaluator := .typed "evaluator"
      scope := .typed "scope"
      verdict := .typed .satisfied
      reason := .typed "reason"
      stateUpdate := some (.typed (candidate.output.getD "")) })
  | a => sampleReply a

def scriptedWorld (n : Nat) : Beat where
  clock := ⟨0, 0⟩
  reply := scriptedReply n
  others := []

theorem cooperates_scripted : Cooperates scriptedRuntime scriptedWorld where
  plain := rfl
  planned := ⟨rfl, fun _ _ _ => rfl⟩
  acquired _ := rfl
  notified _ _ := rfl
  generated _ _ _ := ⟨⟨"act", "\x7b\x7d"⟩, rfl, by decide, by decide⟩
  validated _ _ _ := rfl
  allowed _ _ _ _ _ := ⟨⟨⟨true, "fine"⟩, rfl⟩, rfl, rfl⟩
  executed _ _ _ _ := ⟨"done", rfl⟩
  evaluated _ candidate := by
    refine ⟨_, rfl, ⟨rfl, ⟨_, rfl⟩, .inr ⟨_, rfl⟩, ⟨_, rfl, ?_⟩, ⟨_, rfl, ?_⟩, ⟨_, rfl, ?_⟩⟩, rfl,
      by simp⟩ <;> decide

theorem a_scripted_run_goes_on_sample :
    ∃ results s', (scriptedRuntime.work ["plan", "write", "check"]).run (Scene.answer scriptedWorld)
        { store := sampleRun (sampleLimits (some 5) (some 0) (by decide)) } = (.ok results, s') ∧
      (results.length = 3 ∧ Ascends 0 results) ∧ s'.store.handle = some ⟨some 5⟩ ∧
        s'.store.db.checkReady = .ok () ∧ s'.store.db.read.revision = 3 := by
  have hw : Undisturbed scriptedWorld ⟨some 5⟩ := by
    refine ⟨fun _ i hi => absurd hi List.not_mem_nil, fun _ => le_rfl, fun n => ?_⟩
    simp [Handle.secondsRemaining, scriptedWorld]
  have hunused : Unused scriptedWorld
      (sampleRun (sampleLimits (some 5) (some 0) (by decide))).db 0 := by
    refine ⟨fun n he => ?_, fun n n' he => ?_, fun _ _ => rfl⟩
    · have hlist := congrArg String.toList he
      simp [scriptedWorld, scriptedReply, List.replicate_succ] at hlist
    · have hlength := congrArg String.length he
      simpa [scriptedWorld, scriptedReply] using hlength
  have hafford : Affords scriptedRuntime
      (sampleRun (sampleLimits (some 5) (some 0) (by decide))).db 3 := by
    refine ⟨by decide, by decide, fun _ => by decide⟩
  exact a_scripted_run_goes_on (create_sample _) [] (by simp [sampleRun, sampleLimits]) rfl le_rfl
    hw cooperates_scripted hunused ["plan", "write", "check"] hafford

end FlynnAgents
