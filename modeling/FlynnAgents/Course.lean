-- The course of a step. What holds of the file and of the records of a task at
-- every time, and where the operation of a step stands at each point of it.
import FlynnAgents.Lifecycle
import FlynnAgents.Scene
import FlynnAgents.EffectLaws

namespace FlynnAgents

open Programs Relational Transactional

variable {handle : Handle} {clock : Clock} {self : SQLiteRun} {t t' : Tables} {c : Call}
  {world : Nat → Beat} {s : Scene} {o : String}

/-! ## The file of every run -/

/-- The reservations follow the operations. -/
structure Follows (t : Tables) : Prop where
  inference (id : String) : t.reservations.Has (id, .inference) ↔ (t.operation? id).isSome = true
  tool (id : String) : t.reservations.Has (id, .tool) ↔ t.Spent id
  external (id : String) : t.reservations.Has (id, .external) → t.Spent id

theorem follows_fresh (run : RunRow) : Follows (Tables.fresh run) where
  inference id := by simp [Tables.fresh, Table.Has, Tables.operation?]
  tool id := by simp [Tables.fresh, Table.Has, Tables.Spent, Tables.operation?]
  external id := by simp [Tables.fresh, Table.Has]

theorem Follows.change (hf : Follows t) (h : Change handle clock t c t') : Follows t' where
  inference id := by rw [h.has_iff, hf.inference, h.started_iff]
  tool id := by rw [h.has_iff, hf.tool, h.spent_iff]
  external id := by
    rw [h.has_iff, h.spent_iff]
    rintro (he | he)
    · exact .inl (hf.external id he)
    · obtain ⟨observation, rfl⟩ := mem_reserves_external.mp he
      exact .inr (by simp [Call.reserves])

/-- What holds of the file of every run. -/
structure Regular (t : Tables) : Prop where
  ledger : Ledger t
  published : Published t
  unset : Unset t
  follows : Follows t
  logged : ∀ e ∈ t.lifecycleEvents, (t.operation? e.operationId).isSome = true

theorem Change.logged (h : Change handle clock t c t')
    (hl : ∀ e ∈ t.lifecycleEvents, (t.operation? e.operationId).isSome = true) :
    ∀ e ∈ t'.lifecycleEvents, (t'.operation? e.operationId).isSome = true := by
  have hold : ∀ e ∈ t.lifecycleEvents, (t'.operation? e.operationId).isSome = true :=
    fun e he => (h.started_iff _).mpr (.inl (hl e he))
  cases h with
  | recordEvent _ _ operation =>
    intro e he
    rcases List.mem_append.mp he with he | he
    · exact hold e he
    · rw [List.mem_singleton.mp he]
      exact Option.isSome_of_eq_some operation
  | _ => exact hold

theorem Regular.change (hr : Regular t) (h : Change handle clock t c t') : Regular t' where
  ledger := hr.ledger.change h
  published := hr.published.change hr.ledger.good h
  unset := hr.unset.change h
  follows := hr.follows.change h
  logged := h.logged hr.logged

/-- An operation that is not there has no event. -/
theorem Regular.silent (hr : Regular t) (ho : t.operation? o = none) : t.events o = [] := by
  unfold Tables.events
  rw [List.map_eq_nil_iff, List.filter_eq_nil_iff]
  intro e he hid
  have hsome := hr.logged e he
  rw [decide_eq_true_eq.mp hid, ho] at hsome
  cases hsome

theorem regular_created {now : ℚ} {runId state : Dyn String} {limits : RunLimits}
    {observation : Option (Dyn String)}
    (h : SQLiteRun.create now clock runId state limits observation = .ok self)
    (calls : List Timed) : Regular (self.after calls).db := by
  obtain ⟨id, text, seen, hdb, -⟩ := create_ok h
  have hfresh : Regular self.db :=
    hdb ▸ ⟨ledger_fresh _, published_fresh _, unset_fresh _, follows_fresh _,
      fun _ he => absurd he List.not_mem_nil⟩
  exact after_keeps Regular (fun _ _ _ _ _ hr hc => hr.change hc) hfresh calls

/-! ## The records of a task -/

/-- The operation that was started, if a call started one. -/
def Said.starts : Said Req Req.Answer → Option String
  | ⟨.store (.start o _ _ _), .ok _⟩ => some o
  | _ => none

/-- The operations that the task has started. -/
def Scene.starts (s : Scene) : List String := s.said.filterMap Said.starts

/-- The tool of an operation was asked for. -/
def Scene.Asked (s : Scene) (o : String) : Prop :=
  ∃ tool arguments x, ⟨.ask (.execute o tool arguments), x⟩ ∈ s.said

/-- The tool of an operation returned a text. -/
def Scene.Answered (s : Scene) (o : String) : Prop :=
  ∃ tool arguments output, ⟨.ask (.execute o tool arguments), .ok (.typed output)⟩ ∈ s.said

/-- The store is open, and it has what the task was told about its tools. -/
structure Steady (s : Scene) : Prop where
  regular : Regular s.store.db
  live : s.store.handle.isSome = true
  asked : ∀ o, s.Asked o → s.store.db.Spent o
  answered : ∀ o, s.Answered o → s.store.db.At o .returned ∨ s.store.db.At o .completed

/-- What each change keeps of the tables, a call of the task keeps. -/
theorem call_keeps {I : Tables → Prop}
    (hI : ∀ handle clock t c t', I t → Change handle clock t c t' → I t')
    (h : I s.store.db) (c : Call) : I (s.call world c).store.db :=
  after_keeps I hI h [⟨(world s.turn).clock, c⟩]

theorem Change.settles (h : Change handle clock t c t')
    (ha : t.At o .returned ∨ t.At o .completed) :
    t'.At o .returned ∨ t'.At o .completed := by
  rcases ha with ha | ha
  · rcases h.stays rfl ha with hs | ⟨hs, -⟩ | ⟨-, e, rfl, he⟩
    · exact .inl hs
    · cases hs
    · exact .inr ((h.completed_iff o).mpr (.inr ⟨e, rfl, he⟩))
  · exact .inr ((h.completed_iff o).mpr (.inl ha))

theorem said_call (c : Call) :
    (s.call world c).said = s.said ++ [⟨.store c, c.answer (world s.turn).clock s.store⟩] := by
  simp [Scene.said, Scene.call]

theorem said_ask (a : Ask) :
    (s.ask world a).said = s.said ++ [⟨.ask a, (world s.turn).reply a⟩] := by
  simp [Scene.said, Scene.ask]

theorem asked_call (h : (s.call world c).Asked o) : s.Asked o := by
  obtain ⟨tool, arguments, x, hm⟩ := h
  rw [said_call] at hm
  exact ⟨tool, arguments, x, by simpa using hm⟩

theorem answered_call (h : (s.call world c).Answered o) : s.Answered o := by
  obtain ⟨tool, arguments, output, hm⟩ := h
  rw [said_call] at hm
  exact ⟨tool, arguments, output, by simpa using hm⟩

theorem Steady.call (h : Steady s) (hc : c ≠ .close) (ho : c ≠ .openRun) :
    Steady (s.call world c) where
  regular := call_keeps (fun _ _ _ _ _ hr hc => hr.change hc) h.regular c
  live := (congrArg Option.isSome (exec_handle hc ho)).trans h.live
  asked o hx := call_keeps (I := fun t => t.Spent o)
    (fun _ _ _ _ _ hs hc => (hc.spent_iff o).mpr (.inl hs)) (h.asked o (asked_call hx)) c
  answered o hx := call_keeps (I := fun t => t.At o .returned ∨ t.At o .completed)
    (fun _ _ _ _ _ hs hc => hc.settles hs) (h.answered o (answered_call hx)) c

theorem OnlyFinishes.meanwhile_keeps (hw : OnlyFinishes world) {I : Tables → Prop}
    (hI : ∀ t text, I t → I { t with run := { t.run with outcome := some text } })
    (h : I s.store.db) (a : Ask) : I (s.meanwhile world a).db := by
  have hall : ∀ (calls : List Timed) (self : SQLiteRun),
      (∀ i ∈ calls, i.call.onlyReads = true ∨ ∃ text, i.call = .finish text) →
        I self.db → I (self.after calls).db := by
    intro calls
    induction calls with
    | nil => exact fun _ _ hi => hi
    | cons i calls ih =>
      intro self hcalls hi
      refine ih _ (fun j hj => hcalls j (List.mem_cons_of_mem i hj)) ?_
      rcases exec_cases i self with ⟨⟨handle, t', -, hc, he⟩, -⟩ | ⟨he, -⟩
      · rw [he]
        rcases hcalls i List.mem_cons_self with hr | ⟨text, ht⟩
        · generalize i.call = c at hr hc
          cases hc <;> cases hr
        · rw [ht] at hc
          cases hc
          exact hI _ _ hi
      · rw [he]
        exact hi
  unfold Scene.meanwhile
  split
  · exact hall _ _ (hw s.turn) h
  · exact h

theorem asked_ask {a : Ask} (ha : ∀ tool arguments, a ≠ .execute o tool arguments)
    (h : (s.ask world a).Asked o) : s.Asked o := by
  obtain ⟨tool, arguments, x, hm⟩ := h
  rw [said_ask] at hm
  rcases List.mem_append.mp hm with hm | hm
  · exact ⟨tool, arguments, x, hm⟩
  · have hq := congrArg Said.request (List.mem_singleton.mp hm)
    exact absurd (Req.ask.inj hq).symm (ha tool arguments)

theorem Scene.Answered.asked (h : s.Answered o) : s.Asked o := by
  obtain ⟨tool, arguments, output, hm⟩ := h
  exact ⟨tool, arguments, _, hm⟩

/-- An ask that is no tool leaves the scene steady. -/
theorem Steady.ask (h : Steady s) (hw : OnlyFinishes world) {a : Ask}
    (ha : ∀ o tool arguments, a ≠ .execute o tool arguments) : Steady (s.ask world a) where
  regular := meanwhile_keeps (fun _ _ _ _ _ hr hc => hr.change hc) h.regular a
  live := (congrArg Option.isSome (meanwhile_handle hw.staysOpen a)).trans h.live
  asked o hx := meanwhile_keeps (I := fun t => t.Spent o)
    (fun _ _ _ _ _ hs hc => (hc.spent_iff o).mpr (.inl hs)) (h.asked o (asked_ask (ha o) hx)) a
  answered o hx := by
    refine meanwhile_keeps (I := fun t => t.At o .returned ∨ t.At o .completed)
      (fun _ _ _ _ _ hs hc => hc.settles hs) (h.answered o ?_) a
    obtain ⟨tool, arguments, output, hm⟩ := hx
    rw [said_ask] at hm
    rcases List.mem_append.mp hm with hm | hm
    · exact ⟨tool, arguments, output, hm⟩
    · have hq := congrArg Said.request (List.mem_singleton.mp hm)
      exact absurd (Req.ask.inj hq).symm (ha o tool arguments)

theorem steady_created {now : ℚ} {runId state : Dyn String} {limits : RunLimits}
    {observation : Option (Dyn String)}
    (h : SQLiteRun.create now clock runId state limits observation = .ok self)
    (calls : List Timed) (hlive : (self.after calls).handle.isSome = true) :
    Steady { store := self.after calls } := by
  have hnone : ∀ i, ¬ Scene.Asked { store := self.after calls } i :=
    fun i ⟨_, _, _, hm⟩ => absurd hm List.not_mem_nil
  exact ⟨regular_created h calls, hlive, fun i hi => absurd hi (hnone i),
    fun i hi => absurd hi.asked (hnone i)⟩

/-! ## The points of a step -/

/-- The operation `o` that a step from the scene `base` has started stands in
the stage, with the events `marks`. -/
structure Stand (base : Scene) (o : String) (marks : List Mark) (stage : Stage) (s : Scene) :
    Prop where
  unset : Unset s.store.db
  starts : s.starts = base.starts ++ [o]
  stands : s.store.db.At o stage
  events : s.store.db.events o = marks.map Mark.event
  boundaries : ∀ m ∈ marks, Boundary s.store.db o m
  completed : s.store.db.completedOperations =
    base.store.db.completedOperations + if stage = .completed then 1 else 0
  opened : base.store.db.run.outcome = none

/-- It stands so in a steady scene, and no rejection is certified. -/
structure Point (base : Scene) (o : String) (marks : List Mark) (stage : Stage) (s : Scene) : Prop
    extends Stand base o marks stage s where
  steady : Steady s
  rejected : s.rejected = none

variable {base : Scene} {marks : List Mark} {stage stage' : Stage}

/-- Either a call made its one change, or the file is as it was. -/
theorem call_cases (world : Nat → Beat) (s : Scene) (c : Call) :
    (∃ handle, Change handle (world s.turn).clock s.store.db c (s.call world c).store.db ∧
        (c.raisesLate = false → (c.answer (world s.turn).clock s.store).isOk = true)) ∨
      ((s.call world c).store.db = s.store.db ∧
        (c.mutates = true → (c.answer (world s.turn).clock s.store).isOk = false)) := by
  rcases exec_cases ⟨(world s.turn).clock, c⟩ s.store with ⟨⟨handle, t', -, hc, he⟩, hok⟩ | h
  · refine .inl ⟨handle, ?_, hok⟩
    rw [Scene.call, he]
    exact hc
  · exact .inr h

/-- An ask leaves the operation where it stands. -/
theorem Stand.ask (h : Stand base o marks stage s) (hw : OnlyFinishes world) (a : Ask) :
    Stand base o marks stage (s.ask world a) where
  unset := meanwhile_keeps (fun _ _ _ _ _ hu hc => Unset.change hu hc) h.unset a
  starts := by
    rw [← h.starts, Scene.starts, said_ask]
    simp [Scene.starts, Said.starts]
  stands := hw.meanwhile_keeps (I := fun t => t.At o stage) (fun _ _ hi => hi) h.stands a
  events := hw.meanwhile_keeps (I := fun t => t.events o = marks.map Mark.event)
    (fun _ _ hi => hi) h.events a
  boundaries := by
    refine (meanwhile_keeps (I := fun t => Unset t ∧ ∀ m ∈ marks, Boundary t o m)
      (fun _ _ _ _ _ hi hc => ⟨hi.1.change hc, fun m hm => (hi.2 m hm).change hi.1 hc⟩)
      ⟨h.unset, h.boundaries⟩ a).2
  completed := hw.meanwhile_keeps (I := fun t => t.completedOperations =
    base.store.db.completedOperations + if stage = .completed then 1 else 0)
    (fun _ _ hi => hi) h.completed a
  opened := h.opened

/-- A call leaves the operation where the file says. -/
theorem Stand.call (h : Stand base o marks stage s)
    (hs : ∀ x, Said.starts ⟨.store c, x⟩ = none) {marks' : List Mark}
    (hat : (s.call world c).store.db.At o stage')
    (hevents : (s.call world c).store.db.events o = marks'.map Mark.event)
    (hmarks : ∀ m ∈ marks', m ∈ marks ∨ Boundary (s.call world c).store.db o m)
    (hdone : (s.call world c).store.db.completedOperations =
      base.store.db.completedOperations + if stage' = .completed then 1 else 0) :
    Stand base o marks' stage' (s.call world c) where
  unset := call_keeps (fun _ _ _ _ _ hu hc => Unset.change hu hc) h.unset c
  starts := by
    rw [← h.starts, Scene.starts, said_call]
    simp [Scene.starts, hs]
  stands := hat
  events := hevents
  boundaries := by
    intro m hm
    refine (hmarks m hm).elim (fun hold => ?_) id
    exact (call_keeps (I := fun t => Unset t ∧ Boundary t o m)
      (fun _ _ _ _ _ hi hc => ⟨hi.1.change hc, hi.2.change hi.1 hc⟩)
      ⟨h.unset, h.boundaries m hold⟩ c).2
  completed := hdone
  opened := h.opened

/-- A call that is no event leaves the events. -/
theorem events_call (hr : c.records? o = []) :
    (s.call world c).store.db.events o = s.store.db.events o := by
  rcases call_cases world s c with ⟨handle, hch, -⟩ | ⟨he, -⟩
  · rw [hch.events, hr, List.append_nil]
  · rw [he]

theorem Change.still (h : Change handle clock t c t') (hc : c.isStill = true) :
    t'.operations = t.operations := by
  cases h with
  | recordGuard | recordEvent | recordUsage => rfl
  | _ => cases hc

/-- A call that is still leaves the operation where it stands. -/
theorem Stand.still (h : Stand base o marks stage s) (hc : c.isStill = true) {marks' : List Mark}
    (hevents : (s.call world c).store.db.events o = marks'.map Mark.event)
    (hmarks : ∀ m ∈ marks', m ∈ marks ∨ Boundary (s.call world c).store.db o m) :
    Stand base o marks' stage (s.call world c) := by
  have hops : (s.call world c).store.db.operations = s.store.db.operations := by
    rcases call_cases world s c with ⟨handle, hch, -⟩ | ⟨he, -⟩
    · exact hch.still hc
    · rw [he]
  refine h.call ?_ ?_ hevents hmarks ?_
  · intro x
    cases c <;> first | rfl | cases hc
  · have := h.stands
    unfold Tables.At Tables.operation? at this ⊢
    rwa [hops]
  · have := h.completed
    unfold Tables.completedOperations at this ⊢
    rwa [hops]

/-- A call that is still and no event leaves all of it. -/
theorem Stand.idle (h : Stand base o marks stage s) (hc : c.isStill = true)
    (hr : c.records? o = []) : Stand base o marks stage (s.call world c) :=
  h.still hc ((events_call hr).trans h.events) fun _ hm => .inl hm

theorem Change.moves (h : Change handle clock t c t') (hw : c.writes = some o)
    (hs : ∀ request output guards, c ≠ .start o request output guards) :
    ∃ row row', t.operation? o = some row ∧ t'.operation? o = some row' ∧ Moves o c row row' := by
  rcases h.lookup o with ⟨hn, -⟩ | ⟨-, request, output, guards, hc, -⟩ | hm
  · exact absurd hw hn
  · exact absurd hc (hs request output guards)
  · exact hm

/-- A move of the operation that was made. -/
theorem Stand.moved (h : Stand base o marks stage s)
    (hs : ∀ x, Said.starts ⟨.store c, x⟩ = none) (hr : c.records? o = [])
    (hch : Change handle (world s.turn).clock s.store.db c (s.call world c).store.db)
    (hw : c.writes = some o) (hm : ∀ row row', Moves o c row row' → row'.stage = stage')
    (hd : c.completes = decide (stage' = .completed)) (hn : stage ≠ .completed) :
    Stand base o marks stage' (s.call world c) := by
  obtain ⟨row, row', -, hr', hmoves⟩ := hch.moves hw fun request output guards hc => by
    subst hc
    cases hs (.ok ())
  refine h.call hs ⟨row', hr', hm row row' hmoves⟩ ((events_call hr).trans h.events)
    (fun _ hm => .inl hm) ?_
  rw [hch.completedOperations, h.completed]
  simp [hd, hn]

/-- A call that did not write leaves the operation where it stands. -/
theorem Stand.same (h : Stand base o marks stage s) (hs : ∀ x, Said.starts ⟨.store c, x⟩ = none)
    (he : (s.call world c).store.db = s.store.db) : Stand base o marks stage (s.call world c) :=
  h.call hs (he ▸ h.stands) (he ▸ h.events) (fun _ hm => .inl hm) (he ▸ h.completed)

/-- So does a call that raised, and not late. -/
theorem Stand.refused (h : Stand base o marks stage s)
    (hs : ∀ x, Said.starts ⟨.store c, x⟩ = none) (hl : c.raisesLate = false)
    (hno : (c.answer (world s.turn).clock s.store).isOk = false) :
    Stand base o marks stage (s.call world c) := by
  refine h.same hs ?_
  rcases call_cases world s c with ⟨-, -, hok⟩ | ⟨he, -⟩
  · rw [hok hl] at hno
    cases hno
  · exact he

theorem Point.ask (h : Point base o marks stage s) (hw : OnlyFinishes world) {a : Ask}
    (ha : ∀ o tool arguments, a ≠ .execute o tool arguments)
    (hr : s.rejectedAfter a = s.rejected) : Point base o marks stage (s.ask world a) :=
  ⟨h.toStand.ask hw a, h.steady.ask hw ha, hr.trans h.rejected⟩

theorem Point.moved (h : Point base o marks stage s) (hc : c ≠ .close) (ho : c ≠ .openRun)
    (hs : ∀ x, Said.starts ⟨.store c, x⟩ = none) (hr : c.records? o = []) (hm : c.mutates = true)
    (hok : (c.answer (world s.turn).clock s.store).isOk = true)
    (hat : ∀ handle t', Change handle (world s.turn).clock s.store.db c t' → c.writes = some o ∧
      ∀ row row', Moves o c row row' → row'.stage = stage')
    (hd : c.completes = decide (stage' = .completed)) (hn : stage ≠ .completed) :
    Point base o marks stage' (s.call world c) := by
  rcases call_cases world s c with ⟨handle, hch, -⟩ | ⟨-, hno⟩
  · obtain ⟨hw, hmoves⟩ := hat handle _ hch
    exact ⟨h.toStand.moved hs hr hch hw hmoves hd hn, h.steady.call hc ho, h.rejected⟩
  · rw [hno hm] at hok
    cases hok

theorem Point.refused (h : Point base o marks stage s) (hc : c ≠ .close) (ho : c ≠ .openRun)
    (hs : ∀ x, Said.starts ⟨.store c, x⟩ = none) (hl : c.raisesLate = false)
    (hno : (c.answer (world s.turn).clock s.store).isOk = false) :
    Point base o marks stage (s.call world c) :=
  ⟨h.toStand.refused hs hl hno, h.steady.call hc ho, h.rejected⟩

theorem Point.idle (h : Point base o marks stage s) (hc : c.isStill = true)
    (hr : c.records? o = []) : Point base o marks stage (s.call world c) := by
  refine ⟨h.toStand.idle hc hr, h.steady.call ?_ ?_, h.rejected⟩ <;>
    rintro rfl <;>
    cases hc

/-! ## What the store raises -/

/-- The exception is no rejection, of a proposal or of an inference. -/
structure Unrejected (e : Exn) : Prop where
  proposal : e.isinstance .proposalRejected = false
  inference : e.isinstance .inferenceRejected = false

/-- It is no cancellation and no timeout either. -/
structure Ordinary (e : Exn) : Prop extends Unrejected e where
  uncancelled : e.isinstance .cancelledError = false
  untimed : e.isinstance .timeoutError = false

theorem transaction_raises {α : Type} {P : Exn → Prop} {body : Handle → Body α}
    (hclosed : P closedError) (h : ∀ handle, (body handle).Raises P) :
    (transaction body).Raises P := by
  intro self e he
  rw [transaction_run] at he
  split at he
  · cases he
    exact hclosed
  · split at he
    · cases he
    · rename_i hb
      cases he
      exact h _ _ _ hb

theorem query_raises {α : Type} {P : Exn → Prop} {f : Tables → Except Exn α}
    (hclosed : P closedError) (h : ∀ t e, f t = .error e → P e) : (query f).Raises P := by
  intro self e he
  rw [query_eq] at he
  split at he
  · cases he
    exact hclosed
  · exact h _ _ he

theorem requireOpen_raises : requireOpen.Raises Ordinary :=
  Txn.raises_bind Txn.raises_get fun _ => Txn.raises_raiseIf ⟨⟨rfl, rfl⟩, rfl, rfl⟩

theorem operation_raises {stage : Option Stage} {e : Exn} (h : t.operation o stage = .error e) :
    Ordinary e := by
  unfold Tables.operation Tables.operation.refused at h
  split at h
  · split at h
    · cases h
    · cases h
      exact ⟨⟨rfl, rfl⟩, rfl, rfl⟩
  · cases h
    exact ⟨⟨rfl, rfl⟩, rfl, rfl⟩

theorem insertRow_raises {ρ κ : Type} {key : ρ → κ} [DecidableEq κ] {table : String}
    {parent : Bool} {rows : Table key} {r : ρ} {e : Exn}
    (h : insertRow table parent rows r = .error e) : Ordinary e := by
  unfold insertRow at h
  split at h
  · cases h
    exact ⟨⟨rfl, rfl⟩, rfl, rfl⟩
  · split at h
    · cases h
    · cases h
      exact ⟨⟨rfl, rfl⟩, rfl, rfl⟩

theorem proposed_raises (x : Dyn ToolCall) : (SQLiteRun.proposed o x).Raises Ordinary := by
  cases x with
  | other => exact Method.raises_raise ⟨⟨rfl, rfl⟩, rfl, rfl⟩
  | typed x =>
    refine transaction_raises ⟨⟨rfl, rfl⟩, rfl, rfl⟩
      fun _ => Txn.raises_bind requireOpen_raises fun _ => ?_
    refine Txn.raises_bind Txn.raises_get fun _ => ?_
    refine Txn.raises_bind (Txn.raises_ofExcept fun _ => operation_raises) fun _ => ?_
    exact Txn.raises_modify _

theorem recordUsage_raises (x : Dyn InferenceUsage) :
    (SQLiteRun.recordUsage o x).Raises Ordinary := by
  cases x with
  | other => exact Method.raises_raise ⟨⟨rfl, rfl⟩, rfl, rfl⟩
  | typed x =>
    refine Method.raises_bind ?_ fun _ => Method.raises_bind ?_ fun reserved => ?_
    · refine transaction_raises ⟨⟨rfl, rfl⟩, rfl, rfl⟩
        fun _ => Txn.raises_bind requireOpen_raises fun _ => ?_
      refine Txn.raises_bind Txn.raises_get fun _ => ?_
      refine Txn.raises_bind (Txn.raises_ofExcept fun _ => operation_raises) fun _ => ?_
      refine Txn.raises_bind (Txn.raises_ofExcept fun _ => insertRow_raises) fun _ => ?_
      exact Txn.raises_modify _
    · exact query_raises ⟨⟨rfl, rfl⟩, rfl, rfl⟩ fun _ _ h => by cases h
    · cases reserved with
      | none => exact Method.raises_pure ()
      | some reserved => exact Method.raises_raiseIf ⟨⟨rfl, rfl⟩, rfl, rfl⟩

/-! ## The events of a step -/

/-- The events of a step that its guards allow. -/
def script (guards : List DispatchGuard) (name : String) (last : Mark) : List Mark :=
  [.started, .inferenceReturned] ++ guards.map (fun g => .guardAllowed g.id) ++
    [.toolDispatched name, .toolReturned name, last]

/-- The events of a step that a guard denies. -/
def denial (allowed : List DispatchGuard) (guardId : String) : List Mark :=
  [.started, .inferenceReturned] ++ allowed.map (fun g => .guardAllowed g.id) ++
    [.guardDenied guardId]

/-- The events are the first ones of a step with these guards. -/
inductive Conforms (guards : List DispatchGuard) (marks : List Mark) : Prop where
  | allowed {name : String} {last : Mark} (hl : last = .committed ∨ last = .observed)
      (h : marks <+: script guards name last)
  | denied {before : List DispatchGuard} {g : DispatchGuard} (hg : before ++ [g] <+: guards)
      (h : marks <+: denial before g.id)

theorem Conforms.less {guards : List DispatchGuard} {some : List Mark} (h : Conforms guards marks)
    (hs : some <+: marks) : Conforms guards some := by
  rcases h with ⟨hl, h⟩ | ⟨hg, h⟩
  · exact .allowed hl (hs.trans h)
  · exact .denied hg (hs.trans h)

/-! ## How a step breaks -/

/-- The failure is a rejection that the runtime certifies. -/
def Certifies (f : String × Exn) : Prop :=
  (f.1 = "inference" ∧ f.2.isinstance .inferenceRejected = true) ∨
    (f.1 = "validation" ∧ f.2.isinstance .proposalRejected = true)

/-- The usage that an exception carries is in the file, and keeps to its
reservation. -/
def UsageKept (t : Tables) (o : String) (e : Exn) : Prop :=
  ∀ usage, e.usage = some usage → ∃ u, usage = .typed u ∧ t.report o = some u.toUsageFields ∧
    ¬ t.Breached o

/-- The exception is a validator's own, which the broker handed on. -/
def Scene.Validating (s : Scene) (e : Exn) : Prop :=
  e.isinstance .budgetExhausted = true ∧
    ∃ tool arguments, ⟨.ask (.validate tool arguments), .error e⟩ ∈ s.said

/-- The usage of the exception is accounted for, or it is no usage of the
adapter. -/
def Excused (o : String) (e : Exn) (s : Scene) : Prop :=
  UsageKept s.store.db o e ∨ s.Validating e

/-- The label of a failure tells where the operation stands. -/
structure Labelled (o : String) (f : String × Exn) (stage : Stage) (s : Scene) : Prop where
  running : stage ≠ .failed
  tool : f.1 = "tool" ↔ stage = .dispatched
  certified : Certifies f → (stage = .inference ∨ stage = .proposed) ∧ Excused o f.2 s

/-- The body of a step has raised: where its operation stands, with which
events. -/
def Broken (guards : List DispatchGuard) (base : Scene) (o : String) (f : String × Exn)
    (s : Scene) : Prop :=
  ∃ marks stage, Conforms guards marks ∧ Point base o marks stage s ∧ Labelled o f stage s

variable {guards : List DispatchGuard} {rt : Runtime} {label : String} {e : Exn}

theorem labelled_of_ne (hi : label ≠ "inference") (hv : label ≠ "validation") (ht : label ≠ "tool")
    (hf : stage ≠ .failed) (hd : stage ≠ .dispatched) : Labelled o (label, e) stage s where
  running := hf
  tool := ⟨fun h => absurd h ht, fun h => absurd h hd⟩
  certified h := by
    rcases h with ⟨h, -⟩ | ⟨h, -⟩
    · exact absurd h hi
    · exact absurd h hv

theorem labelled_tool : Labelled o ("tool", e) .dispatched s where
  running := by simp
  tool := ⟨fun _ => rfl, fun _ => rfl⟩
  certified h := by
    rcases h with ⟨h, -⟩ | ⟨h, -⟩
    · simp at h
    · simp at h

/-! ## The parts of a step -/

/-- An event is refused only when the run has ended. -/
theorem Point.event_refused (h : Point base o marks stage s) {m : Mark} {e : Exn}
    (hans : (Call.recordEvent (.typed ⟨o, m.event.1, m.event.2⟩)).answer (world s.turn).clock
      s.store = .error e) : s.store.db.run.outcome ≠ none := by
  intro ho
  obtain ⟨handle, hh⟩ := Option.isSome_iff_exists.mp h.steady.live
  obtain ⟨row, hr, -⟩ := h.stands
  have hnamed : m.event.1 ≠ "" := by cases m <;> simp [Mark.event]
  have hch : Change handle (world s.turn).clock s.store.db
    (.recordEvent (.typed ⟨o, m.event.1, m.event.2⟩)) _ := .recordEvent ho hnamed hr
  have hok := (call_commits hh hch rfl).1
  rw [hans] at hok
  cases hok

/-- An event of the operation is recorded. -/
theorem Point.event (h : Point base o marks stage s) {m : Mark} (hb : Boundary s.store.db o m) :
    Plays world (store (.recordEvent (.typed ⟨o, m.event.1, m.event.2⟩))) s
      (Results (fun _ s' => Point base o (marks ++ [m]) stage s')
        fun _ s' => Point base o marks stage s' ∧ s'.store.db.run.outcome ≠ none) := by
  have hsteady : Steady (s.call world (.recordEvent (.typed ⟨o, m.event.1, m.event.2⟩))) :=
    h.steady.call (by simp) (by simp)
  refine plays_store (results_any (fun u hans => ⟨?_, hsteady, h.rejected⟩)
    fun e hans => ⟨⟨?_, hsteady, h.rejected⟩, ?_⟩)
  · rcases call_cases world s
      (.recordEvent (.typed ⟨o, m.event.1, m.event.2⟩)) with ⟨handle, hch, -⟩ | ⟨-, hno⟩
    · refine h.toStand.still rfl ?_ fun m' hm => ?_
      · rw [hch.events, h.events]
        simp [Call.records?]
      · rcases List.mem_append.mp hm with hm | hm
        · exact .inl hm
        · rw [List.mem_singleton.mp hm]
          exact .inr (hb.change h.unset hch)
    · rw [hans] at hno
      cases hno rfl
  · exact h.toStand.refused (fun _ => rfl) rfl (by rw [hans]; rfl)
  · rcases call_cases world s
      (.recordEvent (.typed ⟨o, m.event.1, m.event.2⟩)) with ⟨-, -, hok⟩ | ⟨he, -⟩
    · rw [hans] at hok
      cases hok rfl
    · rw [he]
      exact h.event_refused hans

/-- An event is recorded and not told. -/
theorem Point.record (h : Point base o marks stage s) (hw : OnlyFinishes world) {m : Mark}
    (hb : Boundary s.store.db o m) :
    Plays world (rt.emit ⟨o, m.event.1, m.event.2⟩ false) s
      (Results (fun _ s' => Point base o (marks ++ [m]) stage s')
        fun _ s' => Point base o marks stage s' ∧ s'.store.db.run.outcome ≠ none) := by
  unfold Runtime.emit
  refine plays_then (h.event hb) fun _ s₁ h₁ => ?_
  refine plays_ask ?_
  exact plays_value (h₁.ask (a := .appendEvent ⟨o, m.event.1, m.event.2⟩) hw (by simp) rfl)

/-- An event is recorded and told, if its boundary was crossed. -/
theorem Point.emit (h : Point base o marks stage s) (hw : OnlyFinishes world) {m : Mark}
    (hb : Boundary s.store.db o m) (b : Bool) :
    Plays world (rt.emit ⟨o, m.event.1, m.event.2⟩ b) s
      (Results (fun _ s' => Point base o (marks ++ [m]) stage s')
        fun _ s' => Point base o marks stage s' ∨ Point base o (marks ++ [m]) stage s') := by
  unfold Runtime.emit
  refine plays_then (plays_raised (h.event hb) fun _ _ hp => .inl hp.1)
    fun _ s₁ h₁ => ?_
  refine plays_ask ?_
  have h₂ := h₁.ask (a := .appendEvent ⟨o, m.event.1, m.event.2⟩) hw (by simp) rfl
  split
  · have h₃ := h₂.ask (a := .notify ⟨o, m.event.1, m.event.2⟩) hw (by simp) rfl
    exact plays_reply (fun _ _ => h₃) fun _ _ => .inr h₃
  · exact plays_value h₂

theorem Point.emits (h : Point base o marks stage s) (hw : OnlyFinishes world) {m : Mark}
    (hb : Boundary s.store.db o m) (hc : Conforms guards (marks ++ [m]))
    (hl : ∀ e s', Labelled o (label, e) stage s') :
    Plays world (rt.emit ⟨o, m.event.1, m.event.2⟩ true) s
      (Results (fun _ s' => Point base o (marks ++ [m]) stage s')
        fun e s' => Broken guards base o (label, e) s') := by
  refine plays_raised (h.emit hw hb true) fun e s' hp => ?_
  rcases hp with hp | hp
  · exact ⟨marks, stage, hc.less (List.prefix_append _ _), hp, hl e s'⟩
  · exact ⟨marks ++ [m], stage, hc, hp, hl e s'⟩

theorem labelled_inference
    (hk : e.isinstance .inferenceRejected = true → UsageKept s.store.db o e) :
    Labelled o ("inference", e) .inference s where
  running := by simp
  tool := by simp
  certified h := by
    rcases h with ⟨-, h⟩ | ⟨h, -⟩
    · exact ⟨.inl rfl, .inl (hk h)⟩
    · simp at h

/-- A report is written, or it is refused; the operation stays in inference. -/
theorem Point.report (h : Point base o marks stage s) (usage : Dyn InferenceUsage) :
    Plays world (store (.recordUsage o usage)) s
      (Results (fun _ s' => Point base o marks stage s' ∧ ∃ u, usage = .typed u ∧
          s'.store.db.report o = some u.toUsageFields ∧ ¬ s'.store.db.Breached o)
        fun e s' => Point base o marks stage s' ∧ Unrejected e) := by
  have hidle : Point base o marks stage (s.call world (.recordUsage o usage)) := h.idle rfl rfl
  refine plays_store (results_any (fun x hx => ⟨hidle, ?_⟩) fun e hx => ⟨hidle, ?_⟩)
  · obtain ⟨u, row, hu, -, hreport, hb⟩ := leaves_of_ok hx
    exact ⟨u, hu, hreport, hb⟩
  · exact (recordUsage_raises usage s.store e hx).toUnrejected

theorem isinstance_failure (h : e.isinstance .inferenceRejected = true) :
    e.isinstance .inferenceFailure = true := by
  unfold Exn.isinstance at h ⊢
  rw [List.any_eq_true] at h ⊢
  obtain ⟨b, hb, hc⟩ := h
  refine ⟨b, hb, ?_⟩
  cases b <;> simp [ExnClass.mro] at hc ⊢

theorem isinstance_value (h : e.isinstance .proposalRejected = true) :
    e.isinstance .valueError = true := by
  unfold Exn.isinstance at h ⊢
  rw [List.any_eq_true] at h ⊢
  obtain ⟨b, hb, hc⟩ := h
  refine ⟨b, hb, ?_⟩
  cases b <;> simp [ExnClass.mro] at hc ⊢

/-- The inference of a step. -/
theorem Point.infer (h : Point base o marks .inference s) (hw : OnlyFinishes world)
    (hc : Conforms guards marks) (request : InferenceRequest) :
    Plays world (Runtime.infer o request) s
      (Results (fun _ s' => Point base o marks .inference s')
        fun e s' => Broken guards base o ("inference", e) s') := by
  have hbroken : ∀ {e : Exn} {s' : Scene}, Point base o marks .inference s' →
      (e.isinstance .inferenceRejected = true → UsageKept s'.store.db o e) →
        Broken guards base o ("inference", e) s' :=
    fun hp hk => ⟨marks, .inference, hc, hp, labelled_inference hk⟩
  have hnever : ∀ {e : Exn} {s' : Scene}, Point base o marks .inference s' → Unrejected e →
      Broken guards base o ("inference", e) s' := by
    intro e s' hp hu
    refine hbroken hp fun he => ?_
    rw [hu.inference] at he
    cases he
  unfold Runtime.infer
  refine plays_then (G := fun _ s' => Point base o marks .inference s') ?_ fun response s₁ h₁ => ?_
  · have h₁ := h.ask (a := .generate o request) hw (by simp) rfl
    refine plays_catching (plays_reply (G := fun _ s' => Point base o marks .inference s')
      (B := fun _ s' => Point base o marks .inference s') (fun _ _ => h₁) fun _ _ => h₁)
      (fun _ _ hp => hp) fun e s₁ h₁ => ?_
    dsimp only
    split
    · split
      · rename_i usage hu
        refine plays_then (plays_raised (h₁.report usage)
          fun _ _ h₂ => hnever h₂.1 h₂.2) fun _ s₂ h₂ => plays_raise (hbroken h₂.1 fun _ u hs => ?_)
        rw [hu] at hs
        cases hs
        exact h₂.2
      · rename_i hu
        refine plays_raise (hbroken h₁ fun _ usage hs => ?_)
        rw [hu] at hs
        cases hs
    · rename_i hf
      refine plays_raise (hbroken h₁ fun hr => absurd ?_ hf)
      rw [isinstance_failure hr]
      rfl
  · cases response with
    | other => exact plays_raise (hnever h₁ ⟨rfl, rfl⟩)
    | typed response =>
      refine plays_then (plays_mono (h₁.report response.usage) (fun _ _ h₂ => h₂.1)
        fun _ _ h₂ => hnever h₂.1 h₂.2) fun _ s₂ h₂ => plays_value h₂

/-- The call of the model is accepted, or it is refused. -/
theorem Point.proposes (h : Point base o marks .inference s) (x : Dyn ToolCall) :
    Plays world (store (.proposed o x)) s
      (Results (fun _ s' => Point base o marks .proposed s')
        fun e s' => Point base o marks .inference s' ∧ Unrejected e) := by
  refine plays_store (results_any (fun u hans => ?_) fun e hans =>
    ⟨?_, (proposed_raises x _ e hans).toUnrejected⟩)
  · refine h.moved (by simp) (by simp) (fun _ => rfl) rfl rfl (by rw [hans]; rfl)
      (fun _ _ _ => ⟨rfl, ?_⟩) rfl (by simp)
    intro row row' hm
    cases hm
    rfl
  · exact h.refused (by simp) (by simp) (fun _ => rfl) rfl (by rw [hans]; rfl)

theorem Point.dispatches (h : Point base o marks .proposed s) (observation externalAction : Bool) :
    Plays world (store (.dispatch o observation externalAction)) s
      (Results (fun _ s' => Point base o marks .dispatched s')
        fun _ s' => Point base o marks .proposed s') := by
  refine plays_store (results_any (fun u hans => ?_) fun e hans => ?_)
  · refine h.moved (by simp) (by simp) (fun _ => rfl) rfl rfl (by rw [hans]; rfl)
      (fun _ _ _ => ⟨rfl, ?_⟩) rfl (by simp)
    intro row row' hm
    cases hm
    rfl
  · exact h.refused (by simp) (by simp) (fun _ => rfl) rfl (by rw [hans]; rfl)

/-- A publication leaves its evaluation, and its commit if it has one. -/
theorem published_boundary {evaluation : Evaluation} (ho : evaluation.candidate.id = o)
    (hp : Published t') (h : Change handle clock t (.complete (.typed evaluation)) t') :
    Boundary t' o (if evaluation.published.isSome then .committed else .observed) := by
  have hrow : ∃ e ∈ t'.evaluations.rows, e.operationId = o ∧ e.payload = evaluation := by
    cases h with
    | @complete _ _ candidate _ _ _ _ _ _ checked _ evaluated =>
      refine ⟨⟨candidate.id, evaluation, evaluation.digest⟩, ?_, ?_, rfl⟩
      · rw [(Table.insert_eq_some_iff.mp evaluated).2]
        exact List.mem_append_right _ (List.mem_singleton_self _)
      · exact (congrArg Candidate.id (checkEvaluation_binds checked)).symm.trans ho
  obtain ⟨e, he, hid, hpay⟩ := hrow
  have hiff := hp.publishes e he
  rw [hid, hpay] at hiff
  by_cases hc : evaluation.published.isSome = true
  · rw [if_pos hc]
    exact ⟨⟨e, he, hid⟩, hiff.mpr hc⟩
  · rw [if_neg hc]
    exact ⟨⟨e, he, hid⟩, fun c hm hce => hc (hiff.mp ⟨c, hm, hce⟩)⟩

/-- The evaluation that is published is one of this operation. -/
theorem Point.completes (h : Point base o marks .returned s) (x : Dyn Evaluation) :
    Plays world (store (.complete x)) s
      (Results (fun result s' => Point base o marks .completed s' ∧
          Boundary s'.store.db o (if result.committed then .committed else .observed))
        fun _ s' => Point base o marks .returned s') := by
  refine plays_store (results_any (fun result hans => ?_) fun e hans => ?_)
  · cases x with
    | other =>
      obtain ⟨e, he⟩ : ∃ e, (SQLiteRun.complete (world s.turn).clock .other).run s.store =
          (.error e, s.store) := complete_other
      change ((SQLiteRun.complete (world s.turn).clock .other).run s.store).1 = .ok result at hans
      rw [he] at hans
      cases hans
    | typed evaluation =>
      obtain ⟨row, hr, hs⟩ := h.stands
      have hown : ∀ {handle t'}, Change handle (world s.turn).clock s.store.db
          (.complete (.typed evaluation)) t' → evaluation.candidate.id = o := by
        intro handle t' hch
        cases hch with
        | complete _ operation stage =>
          exact h.steady.regular.ledger.good.single operation hr (by rw [stage]; rfl)
            (by rw [hs]; rfl)
      have hcomp : Point base o marks .completed
          (s.call world (.complete (.typed evaluation))) := by
        refine h.moved (by simp) (by simp) (fun _ => rfl) rfl rfl (by rw [hans]; rfl)
          (fun handle t' hch => ⟨congrArg some (hown hch), fun row row' hm => ?_⟩) rfl (by simp)
        cases hm
        rfl
      refine ⟨hcomp, ?_⟩
      obtain ⟨hc, rfl⟩ := complete_ok.mp (Prod.ext hans rfl)
      obtain ⟨handle, t', -, hch, he⟩ := hc
      have hdb : (s.call world (.complete (.typed evaluation))).store.db = t' :=
        congrArg SQLiteRun.db he
      have hp := hcomp.steady.regular.published
      rw [hdb] at hp ⊢
      exact published_boundary (hown hch) hp hch
  · exact h.refused (by simp) (by simp) (fun _ => rfl) rfl (by rw [hans]; rfl)

/-! ## The tool -/

theorem asked_execute {tool : Tool} {arguments i : String}
    (h : (s.ask world (.execute o tool arguments)).Asked i) : s.Asked i ∨ i = o := by
  obtain ⟨tool', arguments', x, hm⟩ := h
  rw [said_ask] at hm
  rcases List.mem_append.mp hm with hm | hm
  · exact .inl ⟨tool', arguments', x, hm⟩
  · have hq := Req.ask.inj (congrArg Said.request (List.mem_singleton.mp hm))
    cases hq
    exact .inr rfl

theorem answered_execute {tool : Tool} {arguments i : String}
    (h : (s.ask world (.execute o tool arguments)).Answered i) :
    s.Answered i ∨ i = o ∧ ∃ output,
      (world s.turn).reply (.execute o tool arguments) = .ok (.typed output) := by
  obtain ⟨tool', arguments', output, hm⟩ := h
  rw [said_ask] at hm
  rcases List.mem_append.mp hm with hm | hm
  · exact .inl ⟨tool', arguments', output, hm⟩
  · have hs := List.mem_singleton.mp hm
    have hq := Req.ask.inj (congrArg Said.request hs)
    cases hq
    simp only [Said.mk.injEq, heq_eq_eq, true_and] at hs
    exact .inr ⟨rfl, output, hs.symm⟩

/-- A tool that gives no text leaves the operation dispatched. -/
theorem Point.executed (h : Point base o marks .dispatched s) (hw : OnlyFinishes world)
    {tool : Tool}
    {arguments : String}
    (hx : ∀ output, (world s.turn).reply (.execute o tool arguments) ≠ .ok (.typed output)) :
    Point base o marks .dispatched (s.ask world (.execute o tool arguments)) := by
  have hstand := h.toStand.ask hw (.execute o tool arguments)
  refine ⟨hstand, ⟨?_, ?_, fun i hi => ?_, fun i hi => ?_⟩, h.rejected⟩
  · exact meanwhile_keeps (fun _ _ _ _ _ hr hc => hr.change hc) h.steady.regular _
  · exact (congrArg Option.isSome (meanwhile_handle hw.staysOpen _)).trans h.steady.live
  · rcases asked_execute hi with hi | rfl
    · exact meanwhile_keeps (I := fun t => t.Spent i)
        (fun _ _ _ _ _ hs hc => (hc.spent_iff i).mpr (.inl hs)) (h.steady.asked i hi) _
    · obtain ⟨row, hr, hs⟩ := hstand.stands
      exact ⟨row, hr, by rw [hs]; rfl⟩
  · rcases answered_execute hi with hi | ⟨-, output, ho⟩
    · exact meanwhile_keeps (I := fun t => t.At i .returned ∨ t.At i .completed)
        (fun _ _ _ _ _ hs hc => hc.settles hs) (h.steady.answered i hi) _
    · exact absurd ho (hx output)

/-- The store takes the text of a dispatched tool. -/
theorem returned_commits (hl : Ledger self.db) (hh : self.handle.isSome = true)
    (ha : self.db.At o .dispatched) (clock : Clock) (output : String) :
    ∃ handle candidate, Change handle clock self.db (.returned o (.typed output))
        (exec ⟨clock, .returned o (.typed output)⟩ self).2.db ∧
      (Call.returned o (.typed output)).answer clock self = .ok candidate := by
  obtain ⟨handle, hh⟩ := Option.isSome_iff_exists.mp hh
  obtain ⟨row, hr, hs⟩ := ha
  have hch : Change handle clock self.db (.returned o (.typed output)) _ := .returned hr hs
  have hcommits : Commits clock (.returned o (.typed output)) self _ := ⟨handle, _, hh, hch, rfl⟩
  obtain ⟨-, candidate, hans, -⟩ := returned_answers hl hcommits
  refine ⟨handle, candidate, ?_, hans⟩
  rw [exec_of_commits (i := ⟨clock, .returned o (.typed output)⟩) hcommits]
  exact hch

/-- The output of the tool gets into the file. -/
theorem Point.returns (h : Point base o marks .dispatched s) (hw : OnlyFinishes world) {tool : Tool}
    {arguments : String} {output : Dyn String}
    (hx : (world s.turn).reply (.execute o tool arguments) = .ok output) :
    Plays world (store (.returned o output)) (s.ask world (.execute o tool arguments))
      (Results (fun _ s' => Point base o marks .returned s')
        fun _ s' => Point base o marks .dispatched s') := by
  cases output with
  | other =>
    have h₁ := h.executed hw fun output ho => by
      rw [hx] at ho
      cases ho
    refine plays_store (results_any (fun c hans => ?_) fun e hans => ?_)
    · cases hans
    · exact ⟨h₁.toStand.same (fun _ => rfl) rfl, h₁.steady.call (by simp) (by simp), h₁.rejected⟩
  | typed output =>
    have h₁ := h.toStand.ask hw (.execute o tool arguments)
    have hregular : Regular (s.ask world (.execute o tool arguments)).store.db :=
      meanwhile_keeps (fun _ _ _ _ _ hr hc => hr.change hc) h.steady.regular _
    have hlive : (s.ask world (.execute o tool arguments)).store.handle.isSome = true :=
      (congrArg Option.isSome (meanwhile_handle hw.staysOpen _)).trans h.steady.live
    obtain ⟨handle, candidate, hch, hans⟩ := returned_commits hregular.ledger hlive h₁.stands
      (world (s.ask world (.execute o tool arguments)).turn).clock output
    have h₂ : Stand base o marks .returned
        ((s.ask world (.execute o tool arguments)).call world (.returned o (.typed output))) := by
      refine h₁.moved (fun _ => rfl) rfl hch rfl (fun row row' hm => ?_) rfl (by simp)
      cases hm
      rfl
    refine plays_store (results_any (fun c _ => ⟨h₂, ?_, h.rejected⟩) fun e he => ?_)
    · refine ⟨call_keeps (fun _ _ _ _ _ hr hc => hr.change hc) hregular _,
        (congrArg Option.isSome (exec_handle (by simp) (by simp))).trans hlive,
        fun i hi => ?_, fun i hi => ?_⟩
      · rcases asked_execute (asked_call hi) with hi | rfl
        · have hstep : ∀ handle clock t c t', t.Spent i → Change handle clock t c t' → t'.Spent i :=
            fun _ _ _ _ _ hs hc => (hc.spent_iff i).mpr (.inl hs)
          exact call_keeps hstep (meanwhile_keeps hstep (h.steady.asked i hi) _) _
        · obtain ⟨row, hr, hs⟩ := h₂.stands
          exact ⟨row, hr, by rw [hs]; rfl⟩
      · rcases answered_execute (answered_call hi) with hi | ⟨rfl, -⟩
        · have hstep : ∀ handle clock t c t', t.At i .returned ∨ t.At i .completed →
              Change handle clock t c t' → t'.At i .returned ∨ t'.At i .completed :=
            fun _ _ _ _ _ hs hc => hc.settles hs
          exact call_keeps hstep (meanwhile_keeps hstep (h.steady.answered i hi) _) _
        · exact .inl h₂.stands
    · rw [hans] at he
      cases he

/-! ## The body of a step -/

theorem labelled_validation
    (hk : e.isinstance .proposalRejected = true → Excused o e s) :
    Labelled o ("validation", e) .proposed s where
  running := by simp
  tool := by simp
  certified h := by
    rcases h with ⟨h, -⟩ | ⟨-, h⟩
    · simp at h
    · exact ⟨.inr rfl, hk h⟩

/-- The tool of the call is prepared. -/
theorem Point.prepare (h : Point base o marks .proposed s) (hw : OnlyFinishes world)
    (hc : Conforms guards marks) (broker : ToolBroker) (call : ToolCall) (grants : List String) :
    Plays world (broker.prepare call grants) s
      (Results (fun _ s' => Point base o marks .proposed s')
        fun e s' => Broken guards base o ("validation", e) s') := by
  have hnever : ∀ {e : Exn} {s' : Scene}, Point base o marks .proposed s' →
      e.isinstance .proposalRejected = false → Broken guards base o ("validation", e) s' := by
    intro e s' hp he
    refine ⟨marks, .proposed, hc, hp, labelled_validation fun h => ?_⟩
    rw [he] at h
    cases h
  unfold ToolBroker.prepare
  refine plays_then (G := fun _ s' => Point base o marks .proposed s')
    (plays_raiseIf (fun _ => hnever h rfl) fun _ => h) fun _ s₁ h₁ => ?_
  split
  · exact plays_raise (hnever h₁ rfl)
  · rename_i tool _
    refine plays_then (G := fun _ s' => Point base o marks .proposed s') ?_
      fun _ s₂ h₂ => plays_value h₂
    have h₂ := h₁.ask (a := .validate tool call.arguments) hw (by simp) rfl
    refine plays_catching (plays_reply (G := fun _ s' => Point base o marks .proposed s')
      (B := fun e s' => Point base o marks .proposed s' ∧
        ⟨.ask (.validate tool call.arguments), .error e⟩ ∈ s'.said) (fun _ _ => h₂)
      fun e he => ⟨h₂, ?_⟩) (fun _ _ hp => hp) fun e s₂ ⟨h₂, hsaid⟩ => ?_
    · rw [said_ask, he]
      simp
    · split
      · rename_i hb
        exact plays_raise ⟨marks, .proposed, hc, h₂, labelled_validation fun _ =>
          .inr ⟨hb, tool, call.arguments, hsaid⟩⟩
      · split
        · refine plays_raise ⟨marks, .proposed, hc, h₂, labelled_validation fun _ => .inl ?_⟩
          intro usage hu
          cases hu
        · rename_i hv
          refine plays_raise (hnever h₂ ?_)
          rw [Bool.eq_false_iff]
          exact fun hr => hv (isinstance_value hr)

/-- The events of a step whose first guards have allowed it. -/
abbrev passed (before : List DispatchGuard) : List Mark :=
  [.started, .inferenceReturned] ++ before.map (fun g => .guardAllowed g.id)

theorem conforms_passed {before : List DispatchGuard} (h : before <+: guards) :
    Conforms guards (passed before) := by
  refine @Conforms.allowed _ _ "" _ (.inr rfl) ?_
  unfold script
  refine ((List.prefix_append_right_inj _).mpr (h.map _)).trans (List.prefix_append _ _)

/-- A guard is asked, and its decision recorded and told. -/
theorem Point.checks {before : List DispatchGuard} {g : DispatchGuard}
    (h : Point base o (passed before) .proposed s) (hw : OnlyFinishes world)
    (hg : before ++ [g] <+: guards) (request : InferenceRequest) (call : ToolCall) :
    Plays world (rt.checkGuard o request call g) s
      (Results (fun _ s' => Point base o (passed (before ++ [g])) .proposed s')
        fun e s' => Broken guards base o ("guard", e) s') := by
  have hl : ∀ e s', Labelled o ("guard", e) .proposed s' := fun e s' =>
    labelled_of_ne (by simp) (by simp) (by simp) (by simp) (by simp)
  have hbefore : Conforms guards (passed before) :=
    conforms_passed ((List.prefix_append _ _).trans hg)
  unfold Runtime.checkGuard
  refine plays_then (G := fun _ s' => Point base o (passed before) .proposed s') ?_
    fun decision s₁ h₁ => ?_
  · have h₁ := h.ask (a := .check g.id o request call) hw (by simp) rfl
    exact plays_reply (fun _ _ => h₁) fun e _ => ⟨_, _, hbefore, h₁, hl e _⟩
  · cases decision with
    | other => exact plays_raise ⟨_, _, hbefore, h₁, hl _ _⟩
    | typed decision =>
      refine plays_then (G := fun _ s' => Point base o (passed before) .proposed s' ∧
        s'.store.db.guardDecisions.lookup (o, g.id) =
          some ⟨o, g.id, decision.toDecisionFields⟩) ?_ fun _ s₂ ⟨h₂, hd⟩ => ?_
      · have h₂ : Point _ _ _ _ (s₁.call world (.recordGuard o g.id (.typed decision))) :=
          h₁.idle rfl rfl
        refine plays_store (results_any (fun x hans => ⟨h₂, ?_⟩)
          fun e _ => ⟨_, _, hbefore, h₂, hl e _⟩)
        obtain ⟨d, hd, hlook⟩ := leaves_of_ok hans
        cases hd
        exact hlook
      · by_cases ha : decision.allowed = true
        · have hm : passed (before ++ [g]) = passed before ++ [.guardAllowed g.id] := by
            simp [passed]
          have hc : Conforms guards (passed before ++ [.guardAllowed g.id]) :=
            hm ▸ conforms_passed hg
          rw [if_pos ha]
          refine plays_then (h₂.emits (m := .guardAllowed g.id) hw ⟨_, hd, ha⟩ hc hl)
            fun _ s₃ h₃ => ?_
          rw [hm]
          refine plays_raiseIf (fun hf => ?_) fun _ => h₃
          rw [ha] at hf
          cases hf
        · have hf := Bool.eq_false_iff.mpr ha
          have hc : Conforms guards (passed before ++ [.guardDenied g.id]) :=
            .denied hg List.prefix_rfl
          rw [if_neg ha]
          refine plays_then (h₂.emits (m := .guardDenied g.id) hw ⟨_, hd, hf⟩ hc hl)
            fun _ s₃ h₃ => ?_
          exact plays_raiseIf (fun _ => ⟨_, _, hc, h₃, hl _ _⟩) fun hn => absurd hf hn

/-- The deadline is checked. -/
theorem Point.checkDeadline (h : Point base o marks stage s) :
    Plays world checkDeadline s (Results (fun _ s' => Point base o marks stage s')
      fun _ s' => Point base o marks stage s') := by
  unfold FlynnAgents.checkDeadline
  refine plays_then (G := fun _ s' => Point base o marks stage s') ?_ fun left s₁ h₁ =>
    plays_raiseIf (fun _ => h₁) fun _ => h₁
  have h₁ : Point base o marks stage (s.call world .secondsRemaining) := h.idle rfl rfl
  exact plays_store (results_any (fun _ _ => h₁) fun _ _ => h₁)

/-- The events of a step whose tool was dispatched. -/
abbrev performed (guards : List DispatchGuard) (name : String) : List Mark :=
  passed guards ++ [.toolDispatched name]

theorem conforms_performed (name : String) {rest : List Mark} {last : Mark}
    (hl : last = .committed ∨ last = .observed) (h : rest <+: [.toolReturned name, last]) :
    Conforms guards (performed guards name ++ rest) := by
  refine @Conforms.allowed _ _ name _ hl ?_
  unfold script performed
  rw [List.append_assoc]
  refine (List.prefix_append_right_inj _).mpr ?_
  exact (List.prefix_append_right_inj [Mark.toolDispatched name]).mpr h

/-- The candidate is evaluated and published. -/
theorem Point.publishes {call : ToolCall}
    (h : Point base o (performed guards call.name) .returned s)
    (hw : OnlyFinishes world) (candidate : Candidate) :
    Plays world (rt.publish o call candidate) s
      (Results (fun result s' =>
          Point base o (performed guards call.name ++ [.toolReturned call.name]) .completed s' ∧
            Boundary s'.store.db o (if result.committed then .committed else .observed))
        fun e s' => Broken guards base o ("evaluation", e) s') := by
  have hl : ∀ e s', Labelled o ("evaluation", e) .returned s' := fun e s' =>
    labelled_of_ne (by simp) (by simp) (by simp) (by simp) (by simp)
  have hc : Conforms guards (performed guards call.name ++ [.toolReturned call.name]) :=
    conforms_performed call.name (.inr rfl) ⟨[.observed], rfl⟩
  have hbroken : ∀ {e : Exn} {s' : Scene},
      Point base o (performed guards call.name ++ [.toolReturned call.name]) .returned s' →
        Broken guards base o ("evaluation", e) s' := fun hp => ⟨_, _, hc, hp, hl _ _⟩
  have hb : Boundary s.store.db o (.toolReturned call.name) := by
    obtain ⟨row, hr, hs⟩ := h.stands
    exact ⟨row, hr, (h.steady.regular.ledger.good.rows hr).returned (.inl hs)⟩
  unfold Runtime.publish
  refine plays_then (h.emits (m := .toolReturned call.name) hw hb hc hl) fun _ s₁ h₁ => ?_
  refine plays_then (plays_raised h₁.checkDeadline fun _ _ hp => hbroken hp)
    fun _ s₂ h₂ => ?_
  refine plays_then (G := fun _ s' =>
    Point base o (performed guards call.name ++ [.toolReturned call.name]) .returned s') ?_
    fun evaluation s₃ h₃ => ?_
  · have h₃ := h₂.ask (a := .evaluate candidate) hw (by simp) rfl
    exact plays_reply (fun _ _ => h₃) fun _ _ => hbroken h₃
  · refine plays_then (plays_raised h₃.checkDeadline fun _ _ hp => hbroken hp)
      fun _ s₄ h₄ => ?_
    exact plays_raised (h₄.completes evaluation) fun _ _ hp => hbroken hp

/-- The step has told all of its events. -/
def Finished (guards : List DispatchGuard) (base : Scene) (o : String) (result : StepResult)
    (s : Scene) : Prop :=
  ∃ name, Point base o (script guards name (if result.committed then .committed else .observed))
    .completed s

/-- The body of a step: every event of it, or it breaks at some point. -/
theorem Point.attempts (h : Point base o [] .inference s) (hw : OnlyFinishes world)
    (request : InferenceRequest) :
    Plays world (rt.attempt o request) s
      (Results (Finished rt.guards base o) (Broken rt.guards base o)) := by
  have hl : ∀ {stage : Stage} (e s'), stage ≠ .failed → stage ≠ .dispatched →
      Labelled o ("notification", e) stage s' := fun e s' hf hd =>
    labelled_of_ne (by simp) (by simp) (by simp) hf hd
  have hstarted : Conforms rt.guards [.started] :=
    (conforms_passed List.nil_prefix).less (List.prefix_append [Mark.started] _)
  have hinferred : Conforms rt.guards (passed []) := conforms_passed (List.nil_prefix)
  have hpassed : Conforms rt.guards (passed rt.guards) := conforms_passed List.prefix_rfl
  have hdispatched : ∀ name, Conforms rt.guards (performed rt.guards name) := by
    intro name
    have h : Conforms rt.guards (performed rt.guards name ++ []) :=
      conforms_performed name (.inr rfl) List.nil_prefix
    rwa [List.append_nil] at h
  unfold Runtime.attempt
  refine plays_then (plays_at (h.emits (m := .started) hw ?_ hstarted fun e s' =>
    hl e s' (by simp) (by simp))) fun _ s₁ h₁ => ?_
  · obtain ⟨row, hr, -⟩ := h.stands
    exact Option.isSome_of_eq_some hr
  refine plays_then (plays_at (h₁.infer hw hstarted request)) fun response s₂ h₂ => ?_
  refine plays_then (plays_at (plays_raised (h₂.proposes response.call)
    fun e s' hp => ⟨_, _, hstarted, hp.1, labelled_inference fun he => ?_⟩)) fun _ s₃ h₃ => ?_
  · rw [hp.2.inference] at he
    cases he
  refine plays_then (plays_at (h₃.emits (m := .inferenceReturned) hw ?_ hinferred fun e s' =>
    hl e s' (by simp) (by simp))) fun _ s₄ h₄ => ?_
  · obtain ⟨row, hr, hs⟩ := h₃.stands
    exact ⟨row, hr, (h₃.steady.regular.ledger.good.rows hr).called (.inl hs)⟩
  refine plays_then (G := fun _ s' => Point base o (passed []) .proposed s') (plays_at ?_)
    fun call s₅ h₅ => ?_
  · cases response.call with
    | typed call => exact plays_ret h₄
    | other =>
      refine plays_ret ⟨_, _, hinferred, h₄, labelled_validation fun he => ?_⟩
      cases he
  refine plays_then (plays_at (h₅.prepare hw hinferred rt.tools call request.allowedTools))
    fun tool s₆ h₆ => ?_
  refine plays_then (G := fun _ s' => Point base o (passed rt.guards) .proposed s')
    (plays_forEach (fun before s' => Point base o (passed before) .proposed s') h₆
      fun before g hg s' hp => plays_at (hp.checks hw hg request call)) fun _ s₇ h₇ => ?_
  refine plays_then (plays_at (plays_raised
    (h₇.dispatches tool.observation tool.externalAction) fun e s' hp => ⟨_, _, hpassed, hp,
      labelled_of_ne (by simp) (by simp) (by simp) (by simp) (by simp)⟩)) fun _ s₈ h₈ => ?_
  refine plays_then (plays_at (h₈.emits (m := .toolDispatched call.name) hw ?_
    (hdispatched call.name) fun e s' => labelled_tool)) fun _ s₉ h₉ => ?_
  · obtain ⟨row, hr, hs⟩ := h₈.stands
    have hspent : s₈.store.db.Spent o := ⟨row, hr, by rw [hs]; rfl⟩
    exact ⟨hspent, (h₈.steady.regular.follows.tool o).mpr hspent⟩
  refine plays_then (G := fun output s' =>
    s' = s₉.ask world (.execute o tool call.arguments) ∧
      (world s₉.turn).reply (.execute o tool call.arguments) = .ok output) (plays_at ?_)
    fun output s₁₀ hout => ?_
  · refine plays_reply (fun output hx => ⟨rfl, hx⟩) fun e hx => ?_
    refine ⟨_, _, hdispatched _, h₉.executed hw fun output ho => ?_, labelled_tool⟩
    rw [ho] at hx
    cases hx
  obtain ⟨rfl, hx⟩ := hout
  refine plays_then (plays_at (plays_raised (h₉.returns hw hx)
    fun e s' hp => ⟨_, _, hdispatched _, hp, labelled_tool⟩)) fun candidate s₁₁ h₁₁ => ?_
  refine plays_then (plays_at (h₁₁.publishes hw candidate)) fun result s₁₂ h₁₂ => ?_
  obtain ⟨h₁₂, hb⟩ := h₁₂
  have hlast : ∀ last, performed rt.guards call.name ++ [.toolReturned call.name] ++ [last] =
      script rt.guards call.name last := by simp [script]
  have hscript : Conforms rt.guards (performed rt.guards call.name ++
      [.toolReturned call.name] ++ [if result.committed then .committed else .observed]) := by
    rw [hlast]
    refine .allowed ?_ List.prefix_rfl
    cases result.committed
    · exact .inr rfl
    · exact .inl rfl
  have htold : Plays world (rt.emit ⟨o, _, _⟩ true) s₁₂ _ :=
    h₁₂.emits (m := if result.committed then .committed else .observed) hw hb hscript
      fun e s' => hl e s' (by simp) (by simp)
  refine plays_then (plays_at (G := fun _ s' => Point base o (script rt.guards call.name
    (if result.committed then .committed else .observed)) .completed s') ?_)
    fun _ s₁₃ h₁₃ => plays_value ⟨call.name, h₁₃⟩
  rw [hlast] at htold
  cases hc : result.committed <;> rw [hc] at htold <;> exact htold

/-! ## The handler -/

theorem UsageKept.change (h : Change handle clock t c t') (hk : UsageKept t o e)
    (ho : (t.operation? o).isSome = true) : UsageKept t' o e := by
  intro usage hu
  obtain ⟨u, hu, hreport, hb⟩ := hk usage hu
  exact ⟨u, hu, h.report_stays hreport, fun hb' => hb (h.unbreached hreport hb' ho)⟩

theorem kept_change : ∀ handle clock t c t', (t.operation? o).isSome = true ∧ UsageKept t o e →
    Change handle clock t c t' → (t'.operation? o).isSome = true ∧ UsageKept t' o e :=
  fun _ _ _ _ _ hi hc => ⟨(hc.started_iff o).mpr (.inl hi.1), hi.2.change hc hi.1⟩

theorem Excused.call (h : Excused o e s) (ho : (s.store.db.operation? o).isSome = true) (c : Call) :
    Excused o e (s.call world c) := by
  rcases h with h | ⟨hb, tool, arguments, hm⟩
  · exact .inl (call_keeps kept_change ⟨ho, h⟩ c).2
  · refine .inr ⟨hb, tool, arguments, ?_⟩
    rw [said_call]
    exact List.mem_append_left _ hm

theorem Excused.ask (h : Excused o e s) (ho : (s.store.db.operation? o).isSome = true) (a : Ask) :
    Excused o e (s.ask world a) := by
  rcases h with h | ⟨hb, tool, arguments, hm⟩
  · exact .inl (meanwhile_keeps kept_change ⟨ho, h⟩ a).2
  · refine .inr ⟨hb, tool, arguments, ?_⟩
    rw [said_ask]
    exact List.mem_append_left _ hm

theorem Stand.known (h : Stand base o marks stage s) : (s.store.db.operation? o).isSome = true := by
  obtain ⟨row, hr, -⟩ := h.stands
  exact Option.isSome_of_eq_some hr

/-- The last event of a step that raised. -/
def ending (label : String) : Mark :=
  if label = "tool" then .effectUnknown label else .failed label

/-- A step has raised `e`, after its body raised the failure `f`: where its
operation was left, with which events. The last event is missing only when the
run was ended. -/
structure Stopped (guards : List DispatchGuard) (base : Scene) (o : String) (f : String × Exn)
    (e : Exn) (s : Scene) : Prop where
  steady : Steady s
  stand : ∃ (marks : List Mark) (stage : Stage), Conforms guards marks ∧ stage ≠ .failed ∧
    (f.1 = "tool" ↔ stage = .dispatched) ∧
    (Stand base o (marks ++ [ending f.1]) stage.afterFailure s ∨
      Stand base o marks stage.afterFailure s ∧ s.store.db.run.outcome ≠ none)
  rejected : s.rejected = none ∨ s.rejected = some f.2 ∧ (e = f.2 ∨ e = timeoutError) ∧
    Certifies f ∧ s.store.db.At o .failed
  excused : Certifies f → Excused o f.2 s

/-- The failure of an operation is always recorded. -/
theorem Point.fails (h : Point base o marks stage s) (error : String) :
    Plays world (store (.failed o error)) s
      (Results (fun _ s' => Point base o marks stage.afterFailure s') fun _ _ => False) := by
  obtain ⟨handle, hh⟩ := Option.isSome_iff_exists.mp h.steady.live
  obtain ⟨row, hr, hs⟩ := h.stands
  have hch : Change handle (world s.turn).clock s.store.db (.failed o error) _ := .failed hr
  have hok := (call_commits hh hch rfl).1
  refine plays_store (results_any (fun u hans => ?_) fun e hans => ?_)
  · rcases call_cases world s (.failed o error) with ⟨_, hch, -⟩ | ⟨-, hno⟩
    · refine ⟨h.toStand.call (fun _ => rfl) ?_ ((events_call rfl).trans h.events)
        (fun _ hm => .inl hm) ?_, h.steady.call (by simp) (by simp), h.rejected⟩
      · obtain ⟨row₁, row', hr₁, hr', hm⟩ := hch.moves rfl (by simp)
        rw [hr] at hr₁
        cases hr₁
        cases hm
        exact ⟨_, hr', by rw [← hs]⟩
      · rw [hch.completedOperations, h.completed]
        cases stage <;> simp [Stage.afterFailure, Call.completes]
    · rw [hans] at hno
      cases hno rfl
  · rw [hans] at hok
    cases hok

/-- What excuses an exception stays. -/
theorem plays_excused {ε α : Type} {x : Flow ε α} (ho : (s.store.db.operation? o).isSome = true)
    (h : Excused o e s) : Plays world x s fun _ s' => Excused o e s' := by
  refine plays_weaken (plays_scene
    (I := fun s => (s.store.db.operation? o).isSome = true ∧ Excused o e s)
    (fun s c hi => ⟨?_, hi.2.call hi.1 c⟩) (fun s a hi => ⟨?_, hi.2.ask hi.1 a⟩) ⟨ho, h⟩)
    fun _ _ hi => hi.2
  · exact call_keeps (I := fun t => (t.operation? o).isSome = true)
      (fun _ _ _ _ _ hi hc => (hc.started_iff o).mpr (.inl hi)) hi.1 c
  · exact meanwhile_keeps (I := fun t => (t.operation? o).isSome = true)
      (fun _ _ _ _ _ hi hc => (hc.started_iff o).mpr (.inl hi)) hi.1 a

theorem ending_event (label : String) :
    (⟨o, if label = "tool" then "effect_unknown" else "failed", label⟩ : Event) =
      ⟨o, (ending label).event.1, (ending label).event.2⟩ := by
  unfold ending
  split <;> rfl

theorem ending_boundary (h : Point base o marks stage s)
    (ht : label = "tool" → stage = .dispatched) :
    Boundary s.store.db o (ending label) := by
  unfold ending
  split
  · rename_i hl
    obtain ⟨row, hr, hs⟩ := h.stands
    exact ⟨row, hr, by rw [hs, ht hl]; rfl⟩
  · exact h.known

/-- The handler records where the step broke, and raises. -/
theorem Broken.recordFailure {f : String × Exn} (h : Broken guards base o f s)
    (hw : OnlyFinishes world) :
    Plays world (rt.recordFailure o f) s
      (Results (fun _ _ => False) fun e s' => Stopped guards base o f e s') := by
  obtain ⟨marks, stage, hc, hp, hl⟩ := h
  obtain ⟨label, error⟩ := f
  have hkept : Plays world (rt.recordFailure o (label, error)) s fun _ s' =>
      Certifies (label, error) → Excused o error s' := by
    by_cases hcert : Certifies (label, error)
    · exact plays_weaken (plays_excused hp.known (hl.certified hcert).2) fun _ _ he _ => he
    · exact plays_weaken (plays_scene (I := fun _ => True) (fun _ _ _ => trivial)
        (fun _ _ _ => trivial) trivial) fun _ _ _ h => absurd h hcert
  have hrun : Plays world (rt.recordFailure o (label, error)) s (Results (fun _ _ => False)
      fun e s' => (Certifies (label, error) → Excused o error s') →
        Stopped guards base o (label, error) e s') := by
    unfold Runtime.recordFailure
    refine plays_then (plays_mono (G := fun _ s' => Point base o marks stage.afterFailure s')
      (hp.fails (label ++ ": " ++ error.typeName)) (fun _ _ hp => hp) fun _ _ hf => hf.elim)
      fun _ s₁ h₁ => ?_
    rw [ending_event]
    refine plays_then (plays_raised (h₁.record hw (ending_boundary h₁ fun ht => ?_))
      fun e s₂ h₂ hk => ?_) fun _ s₂ h₂ => ?_
    · rw [hl.tool.mp ht]
      rfl
    · exact ⟨h₂.1.steady, ⟨marks, stage, hc, hl.running, hl.tool, .inr ⟨h₂.1.toStand, h₂.2⟩⟩,
        .inl h₂.1.rejected, hk⟩
    · dsimp only
      split
      · rename_i hcert
        have h₃ := h₂.toStand.ask hw (.setRejected (some error))
        refine plays_ask (plays_raise fun hk => ⟨h₂.steady.ask hw (by simp),
          ⟨marks, stage, hc, hl.running, hl.tool, .inl h₃⟩, .inr ⟨rfl, .inl rfl, hcert, ?_⟩, hk⟩)
        have hat := h₃.stands
        rwa [show stage.afterFailure = .failed from if_pos (hl.certified hcert).1] at hat
      · exact plays_raise fun hk => ⟨h₂.steady, ⟨marks, stage, hc, hl.running, hl.tool,
          .inl h₂.toStand⟩, .inl h₂.rejected, hk⟩
  refine plays_weaken (plays_and hkept hrun) ?_
  rintro (e | u) s' ⟨hk, h⟩
  · exact h hk
  · exact h

/-! ## The whole step -/

/-- Nothing was started since the scene `base`. -/
structure Unstarted (base s : Scene) : Prop where
  steady : Steady s
  starts : s.starts = base.starts
  completed : s.store.db.completedOperations = base.store.db.completedOperations
  opens : s.store.db.run.outcome = none → base.store.db.run.outcome = none

theorem unstarted_refl (h : Steady base) : Unstarted base base := ⟨h, rfl, rfl, id⟩

theorem Unstarted.ask (h : Unstarted base s) (hw : OnlyFinishes world) {a : Ask}
    (ha : ∀ o tool arguments, a ≠ .execute o tool arguments) : Unstarted base (s.ask world a) where
  steady := h.steady.ask hw ha
  starts := by
    rw [← h.starts, Scene.starts, said_ask]
    simp [Scene.starts, Said.starts]
  completed := hw.meanwhile_keeps
    (I := fun t => t.completedOperations = base.store.db.completedOperations)
    (fun _ _ hi => hi) h.completed a
  opens := hw.meanwhile_keeps
    (I := fun t => t.run.outcome = none → base.store.db.run.outcome = none)
    (fun _ _ _ => by simp) h.opens a

theorem Unstarted.idle (h : Unstarted base s) (hc : c.isStill = true) :
    Unstarted base (s.call world c) where
  steady := by
    refine h.steady.call ?_ ?_ <;>
      rintro rfl <;>
      cases hc
  starts := by
    have hs : ∀ x, Said.starts ⟨.store c, x⟩ = none := by
      intro x
      cases c <;> first | rfl | cases hc
    rw [← h.starts, Scene.starts, said_call]
    simp [Scene.starts, hs]
  completed := by
    rw [← h.completed]
    rcases call_cases world s c with ⟨handle, hch, -⟩ | ⟨he, -⟩
    · unfold Tables.completedOperations
      rw [hch.still hc]
    · rw [he]
  opens ho := by
    refine h.opens ?_
    rcases call_cases world s c with ⟨handle, hch, -⟩ | ⟨he, -⟩
    · rwa [hch.outcome fun text hf => by rw [hf] at hc; cases hc] at ho
    · rwa [he] at ho

/-- How a step from the scene `base` has ended. -/
inductive Course (rt : Runtime) (world : Nat → Beat) (base : Scene) :
    Except Exn StepResult → Scene → Prop where
  | waited {e : Exn} {s : Scene} (h : Unstarted base s) (n : Nat)
      (he : (world n).reply .acquire = .error e) : Course rt world base (.error e) s
  | unstarted {e : Exn} {s : Scene} (h : Unstarted base s) (hr : s.rejected = none) :
      Course rt world base (.error e) s
  | finished {o : String} {result : StepResult} {s : Scene}
      (h : Finished rt.guards base o result s) : Course rt world base (.ok result) s
  | stopped {o : String} {f : String × Exn} {e : Exn} {s : Scene}
      (h : Stopped rt.guards base o f e s) : Course rt world base (.error e) s

/-- An operation starts in an open run. -/
theorem Change.opened {request : InferenceRequest} {output : Option (Dyn OutputReservation)}
    {required : Dyn (List String)}
    (h : Change handle clock t (.start o request output required) t') : t.run.outcome = none := by
  cases h with
  | start _ _ _ timely => exact timely.isOpen

/-- The start of the operation. -/
theorem Unstarted.begin (h : Unstarted base s) (hr : s.rejected = none) (request : InferenceRequest)
    (output : Option (Dyn OutputReservation)) (guards : Dyn (List String)) :
    Plays world (store (.start o request output guards)) s
      (Results (fun _ s' => Point base o [] .inference s')
        fun _ s' => Unstarted base s' ∧ s'.rejected = none) := by
  have hsteady : Steady (s.call world (.start o request output guards)) :=
    h.steady.call (by simp) (by simp)
  refine plays_store (results_any (fun u hans => ?_) fun e hans => ?_)
  · rcases call_cases world s (.start o request output guards) with
      ⟨handle, hch, -⟩ | ⟨-, hno⟩
    · refine ⟨⟨hsteady.regular.unset, ?_, ?_, ?_, nofun, ?_, h.opens hch.opened⟩, hsteady, hr⟩
      · rw [← h.starts, Scene.starts, said_call, hans]
        simp [Scene.starts, Said.starts]
      · rcases hch.lookup o with ⟨hw, -⟩ | ⟨-, _, _, _, -, hrow⟩ | ⟨row, row', -, -, hm⟩
        · exact absurd rfl hw
        · exact ⟨_, hrow, rfl⟩
        · cases hm
      · rw [hch.events, h.steady.regular.silent hch.fresh]
        rfl
      · rw [hch.completedOperations, h.completed]
        simp [Call.completes]
    · rw [hans] at hno
      cases hno rfl
  · rcases call_cases world s (.start o request output guards) with
      ⟨-, -, hok⟩ | ⟨he, -⟩
    · rw [hans] at hok
      cases hok rfl
    · refine ⟨⟨hsteady, ?_, he ▸ h.completed, he ▸ h.opens⟩, hr⟩
      rw [← h.starts, Scene.starts, said_call, hans]
      simp [Scene.starts, Said.starts]

/-- How the step ends that has the lock. -/
abbrev Ran (guards : List DispatchGuard) (base : Scene) : Except Exn StepResult → Scene → Prop :=
  Results (fun result s' => ∃ o, Finished guards base o result s') fun e s' =>
    (Unstarted base s' ∧ s'.rejected = none) ∨ ∃ o f, Stopped guards base o f e s'

theorem Unstarted.kept (hw : OnlyFinishes world) :
    Kept world fun s => Unstarted base s ∧ s.rejected = none where
  call _ _ hc h := ⟨h.1.idle hc, h.2⟩
  ask s a ha h := by
    refine ⟨h.1.ask hw fun o tool arguments he => ?_, ?_⟩
    · subst he
      cases ha
    · cases a <;> first | exact h.2 | cases ha

theorem Unstarted.stepBody (h : Unstarted base s) (hr : s.rejected = none)
    (hw : OnlyFinishes world) (objective : String) (grants : Option (List String)) :
    Plays world (rt.stepBody objective grants) s (Ran rt.guards base) := by
  refine plays_stepBody (Unstarted.kept hw) ⟨h, hr⟩ (fun _ _ h => .inl h)
    (fun o request output s₁ h₁ => plays_raised (h₁.1.begin h₁.2 request output _)
      fun _ _ hp => .inl hp) fun o request s₁ h₁ => ?_
  refine plays_catching (h₁.attempts hw request) (fun result s' hp => ⟨o, hp⟩) fun f s' hp => ?_
  exact plays_mono (hp.recordFailure hw) (fun _ _ hf => hf.elim) fun e s'' hs => .inr ⟨o, f, hs⟩

theorem Stopped.ask {f : String × Exn} (h : Stopped guards base o f e s) (hw : OnlyFinishes world)
    {a : Ask} (ha : ∀ o tool arguments, a ≠ .execute o tool arguments)
    (hr : s.rejectedAfter a = s.rejected) : Stopped guards base o f e (s.ask world a) where
  steady := h.steady.ask hw ha
  stand := by
    obtain ⟨marks, stage, hc, hrun, htool, hs | ⟨hs, ho⟩⟩ := h.stand
    · exact ⟨marks, stage, hc, hrun, htool, .inl (hs.ask hw a)⟩
    · exact ⟨marks, stage, hc, hrun, htool, .inr ⟨hs.ask hw a,
        hw.meanwhile_keeps (I := fun t => t.run.outcome ≠ none) (fun _ _ _ => by simp) ho a⟩⟩
  rejected := by
    rcases h.rejected with hn | ⟨hsome, he, hc, hat⟩
    · exact .inl (hr.trans hn)
    · exact .inr ⟨hr.trans hsome, he, hc,
        hw.meanwhile_keeps (I := fun t => t.At o .failed) (fun _ _ hi => hi) hat a⟩
  excused hc := by
    obtain ⟨marks, stage, -, -, -, hs | ⟨hs, -⟩⟩ := h.stand <;>
      exact (h.excused hc).ask hs.known a

/-- A timeout may take the place of the exception. -/
theorem Stopped.expire {f : String × Exn} (h : Stopped guards base o f e s) :
    Stopped guards base o f timeoutError s :=
  { h with rejected := h.rejected.imp_right fun ⟨hr, _, hc, hat⟩ => ⟨hr, .inr rfl, hc, hat⟩ }

/-- The course of every step from a steady scene. -/
theorem Steady.step (h : Steady base) (hw : OnlyFinishes world) (rt : Runtime) (objective : String)
    (grants : Option (List String)) :
    Plays world (rt.step objective grants) base (Course rt world base) := by
  have hbase := (unstarted_refl h).ask (a := .acquire) hw (by simp)
  have hran : Plays world (rt.step objective grants) base
      (Results (fun result s' => ∃ o, Finished rt.guards base o result s') fun e s' =>
        ((Unstarted base s' ∧ ∃ n, (world n).reply .acquire = .error e) ∨
          (Unstarted base s' ∧ s'.rejected = none) ∨
          ∃ o f, Stopped rt.guards base o f e s')) := by
    unfold Runtime.step
    refine plays_locked (fun e he => .inl ⟨hbase, base.turn, he⟩)
      (plays_mono (G := fun result s' => ∃ o, Finished rt.guards base o result s')
        (B := fun e s' => (Unstarted base s' ∧ s'.rejected = none) ∨
          ∃ o f, Stopped rt.guards base o f e s') ?_ (fun _ _ hp => hp) fun _ _ hp => .inr hp) ?_ ?_
    · have h₁ := hbase.ask (a := .setRejected none) hw (by simp)
      refine plays_then (G := fun _ s' => Unstarted base s' ∧ s'.rejected = none)
        (plays_ask (plays_value ⟨h₁, rfl⟩)) fun _ s₂ h₂ => ?_
      refine plays_then (plays_raised ((Unstarted.kept hw).store h₂ rfl)
        fun _ _ hp => .inl hp) fun _ s₃ h₃ => ?_
      have h₄ : Unstarted base (s₃.call world .secondsRemaining) := h₃.1.idle rfl
      refine plays_timeout (h₄.stepBody h₃.2 hw objective grants) ?_
      rintro e s' (⟨hu, hr⟩ | ⟨o, f, hs⟩)
      · have hu' := hu.ask (a := .expired e) hw (by simp)
        exact ⟨.inl ⟨hu', hr⟩, .inl ⟨hu', hr⟩⟩
      · have hs' := hs.ask (a := .expired e) hw (by simp) rfl
        exact ⟨.inr ⟨o, f, hs'⟩, .inr ⟨o, f, hs'.expire⟩⟩
    · rintro result s' ⟨o, name, hp⟩
      exact ⟨o, name, hp.ask hw (by simp) rfl⟩
    · rintro e s' (⟨hu, he⟩ | ⟨hu, hr⟩ | ⟨o, f, hs⟩)
      · exact .inl ⟨hu.ask hw (by simp), he⟩
      · exact .inr (.inl ⟨hu.ask hw (by simp), hr⟩)
      · exact .inr (.inr ⟨o, f, hs.ask hw (by simp) rfl⟩)
  refine plays_weaken hran ?_
  rintro (e | result) s' hres
  · rcases hres with ⟨hu, n, he⟩ | ⟨hu, hr⟩ | ⟨o, f, hs⟩
    · exact .waited hu n he
    · exact .unstarted hu hr
    · exact .stopped hs
  · obtain ⟨o, hf⟩ := hres
    exact .finished hf

theorem Course.steady {r : Except Exn StepResult} (h : Course rt world base r s) : Steady s := by
  cases h with
  | waited hu | unstarted hu => exact hu.steady
  | finished hf =>
    obtain ⟨name, hp⟩ := hf
    exact hp.steady
  | stopped hs => exact hs.steady

end FlynnAgents
