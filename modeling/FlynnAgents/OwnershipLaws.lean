-- The laws of the ownership. One process at most may write to the file of a
-- run, and what all of them do to it is what one owner does.
import FlynnAgents.Ownership

namespace FlynnAgents

open Flocks Descriptors

variable {w w' : Host} {b : Build} {o : RunObject} {pid d : Nat}

/-! ## The invariant -/

/-- Who has the lock. Whoever has come past `flock` holds it under its own
description, and shares that only with the copies that forks made. -/
structure Exclusive (w : Host) : Prop where
  sound : w.locks.Sound
  reserved : ∀ b ∈ w.builds, (b.pid, b.description) ∈ w.locks.refs
  locking : ∀ b ∈ w.builds, b.stage ≠ .opened → w.locks.holder = some b.description
  single : ∀ b ∈ w.builds, ∀ c ∈ w.builds, b.description = c.description → b = c
  present : ∀ b ∈ w.builds, w.file.isSome = true
  creator : ∀ b ∈ w.builds, ∀ c ∈ w.builds, b.creation.isSome = true → c.creation.isSome = true →
    b = c
  uncommitted : ∀ b ∈ w.builds, b.creation.isSome = true → b.stage ≠ .created → w.file = some none
  committed : ∀ b ∈ w.builds, b.stage = .created → ∃ db, w.file = some (some db)
  below : ∀ o ∈ w.objects, o.description < w.locks.next
  apart : ∀ b ∈ w.builds, ∀ o ∈ w.objects, o.description ≠ b.description
  owning : ∀ o ∈ w.objects, o.closed = false →
    (o.pid, o.description) ∈ w.locks.refs ∧ w.locks.holder = some o.description
  twins : ∀ o ∈ w.objects, ∀ q ∈ w.objects, o.description = q.description →
    o.ownerPid = q.ownerPid ∧ o.handle = q.handle
  filed : ∀ o ∈ w.objects, ∃ db, w.file = some (some db)

theorem exclusive_empty : Exclusive {} where
  sound := sound_empty
  reserved _ h := by cases h
  locking _ h := by cases h
  single _ h := by cases h
  present _ h := by cases h
  creator _ h := by cases h
  uncommitted _ h := by cases h
  committed _ h := by cases h
  below _ h := by cases h
  apart _ h := by cases h
  owning _ h := by cases h
  twins _ h := by cases h
  filed _ h := by cases h

/-- Two that own the file own it under one description. -/
theorem Exclusive.one (h : Exclusive w) {q : RunObject} (ho : o ∈ w.objects) (hq : q ∈ w.objects)
    (hoc : o.closed = false) (hqc : q.closed = false) : o.description = q.description :=
  Option.some.inj ((h.owning o ho hoc).2.symm.trans (h.owning q hq hqc).2)

/-- While a constructor holds the lock, every object is closed. -/
theorem Exclusive.alone (h : Exclusive w) (hb : b ∈ w.builds) (hs : b.stage ≠ .opened)
    (ho : o ∈ w.objects) : o.closed = true := by
  by_contra hc
  have hown := (h.owning o ho (Bool.not_eq_true _ ▸ hc)).2
  exact h.apart b hb o ho (Option.some.inj (hown.symm.trans (h.locking b hb hs)))

theorem build_some (h : w.build? pid d = some b) :
    b ∈ w.builds ∧ b.pid = pid ∧ b.description = d := by
  have hp := List.find?_some h
  exact ⟨List.mem_of_find?_eq_some h, of_decide_eq_true hp⟩

theorem object_some (h : w.object? pid d = some o) :
    o ∈ w.objects ∧ o.pid = pid ∧ o.description = d := by
  have hp := List.find?_some h
  exact ⟨List.mem_of_find?_eq_some h, of_decide_eq_true hp⟩

/-! ## What each deed keeps -/

theorem Exclusive.openFile (h : Exclusive w) (pid : Nat) (creation : Option Creation) :
    Exclusive (w.openFile pid creation).2 := by
  unfold Host.openFile
  split
  · exact h
  split
  · exact h
  split
  · exact h
  rename_i hmade hfound
  have hfile : ∀ x, w.file = some x → some w.file.join = some x := fun x hx => by rw [hx]; rfl
  have hnew : ∀ b ∈ w.builds, b.description ≠ w.locks.next := fun b hb =>
    Nat.ne_of_lt (h.sound.below _ (h.reserved b hb))
  have hcreates : creation.isSome = true → w.file = none := fun hc => by
    by_contra hn
    exact hmade ⟨hc, Option.isSome_iff_ne_none.mpr hn⟩
  have hfirst : creation.isSome = true → w.builds = [] := fun hc => by
    refine List.eq_nil_iff_forall_not_mem.mpr fun b hb => ?_
    have hp := h.present b hb
    rw [hcreates hc] at hp
    cases hp
  refine ⟨h.sound.opened pid, ?_, ?_, ?_, fun _ _ => rfl, ?_, ?_, ?_, ?_, ?_, ?_, h.twins, ?_⟩
  · rintro b hb
    rcases List.mem_cons.mp hb with rfl | hb
    · exact List.mem_cons_self
    · exact List.mem_cons_of_mem _ (h.reserved b hb)
  · intro b hb hs
    rcases List.mem_cons.mp hb with rfl | hb
    · exact absurd rfl hs
    · exact h.locking b hb hs
  · intro b hb c hc hd
    rcases List.mem_cons.mp hb with rfl | hb <;> rcases List.mem_cons.mp hc with rfl | hc
    · rfl
    · exact absurd hd.symm (hnew c hc)
    · exact absurd hd (hnew b hb)
    · exact h.single b hb c hc hd
  · intro b hb c hc hbs hcs
    rcases List.mem_cons.mp hb with rfl | hb <;> rcases List.mem_cons.mp hc with rfl | hc
    · rfl
    · rw [hfirst hbs] at hc
      cases hc
    · rw [hfirst hcs] at hb
      cases hb
    · exact h.creator b hb c hc hbs hcs
  · intro b hb hs hst
    rcases List.mem_cons.mp hb with rfl | hb
    · change some w.file.join = some none
      rw [hcreates hs]
      rfl
    · exact hfile _ (h.uncommitted b hb hs hst)
  · intro b hb hst
    rcases List.mem_cons.mp hb with rfl | hb
    · cases hst
    · obtain ⟨db, hdb⟩ := h.committed b hb hst
      exact ⟨db, hfile _ hdb⟩
  · exact fun o ho => Nat.lt_succ_of_lt (h.below o ho)
  · intro b hb o ho
    rcases List.mem_cons.mp hb with rfl | hb
    · exact Nat.ne_of_lt (h.below o ho)
    · exact h.apart b hb o ho
  · exact fun o ho hc => ⟨List.mem_cons_of_mem _ (h.owning o ho hc).1, (h.owning o ho hc).2⟩
  · intro o ho
    obtain ⟨db, hdb⟩ := h.filed o ho
    exact ⟨db, hfile _ hdb⟩

/-- A constructor that raises leaves the lock to the others. -/
theorem Exclusive.abandon (h : Exclusive w) (hb : b ∈ w.builds) :
    Exclusive (w.abandon b.pid b.description) := by
  have hsub : ∀ c ∈ (w.abandon b.pid b.description).builds,
      c ∈ w.builds ∧ c.description ≠ b.description := by
    intro c hc
    obtain ⟨hm, hn⟩ := List.mem_filter.mp hc
    refine ⟨hm, fun hd => ?_⟩
    rw [h.single c hm b hb hd] at hn
    exact of_decide_eq_true hn ⟨rfl, rfl⟩
  have hkeep : ∀ {q e : Nat}, e ≠ b.description → (q, e) ∈ w.locks.refs →
      (q, e) ∈ (w.abandon b.pid b.description).locks.refs := fun hne hr =>
    mem_refs_closed.mpr ⟨hr, fun he => hne (congrArg Prod.snd he)⟩
  refine ⟨h.sound.closed b.pid b.description,
    fun c hc => hkeep (hsub c hc).2 (h.reserved c (hsub c hc).1),
    ?_, fun c hc e he => h.single c (hsub c hc).1 e (hsub e he).1,
    fun c hc => h.present c (hsub c hc).1,
    fun c hc e he => h.creator c (hsub c hc).1 e (hsub e he).1,
    fun c hc => h.uncommitted c (hsub c hc).1, fun c hc => h.committed c (hsub c hc).1, ?_,
    fun c hc => h.apart c (hsub c hc).1, ?_, h.twins, h.filed⟩
  · intro c hc hs
    exact holder_closed (h.locking c (hsub c hc).1 hs) (h.reserved c (hsub c hc).1)
      fun he => (hsub c hc).2 (congrArg Prod.snd he)
  · intro o ho
    have := h.below o ho
    unfold Host.abandon Descriptors.closed
    rw [next_settle]
    exact this
  · intro o ho hc
    have hne := h.apart b hb o ho
    obtain ⟨hr, hold⟩ := h.owning o ho hc
    exact ⟨hkeep hne hr, holder_closed hold hr fun he => hne (congrArg Prod.snd he)⟩

theorem mem_advance {c : Build} {stage : Construction} (hb : b ∈ w.builds)
    (hsingle : ∀ b ∈ w.builds, ∀ c ∈ w.builds, b.description = c.description → b = c) :
    c ∈ (w.advance b.pid b.description stage).builds ↔
      c = { b with stage } ∨ (c ∈ w.builds ∧ c ≠ b) := by
  unfold Host.advance
  rw [List.mem_map]
  constructor
  · rintro ⟨q, hq, rfl⟩
    split
    · rename_i hid
      rw [hsingle q hq b hb hid.2]
      exact .inl rfl
    · rename_i hid
      refine .inr ⟨hq, fun he => hid ?_⟩
      rw [he]
      exact ⟨rfl, rfl⟩
  · rintro (rfl | ⟨hc, hne⟩)
    · exact ⟨b, hb, if_pos ⟨rfl, rfl⟩⟩
    · exact ⟨c, hc, if_neg fun hid => hne (hsingle c hc b hb hid.2)⟩

/-- A constructor goes on with the lock `holder` over the file `file`. -/
theorem Exclusive.advance (h : Exclusive w) (hb : b ∈ w.builds) {stage : Construction}
    {locks : Descriptors Nat} {file : Option (Option Tables)} {journal : Bool}
    (hrefs : locks.refs = w.locks.refs)
    (hnext : locks.next = w.locks.next) (hholder : locks.holder = some b.description)
    (hgrant : ∀ e, w.locks.holder = some e → e = b.description)
    (hfile : file = w.file ∧ stage ≠ .created ∧ b.stage ≠ .created ∨
      b.creation.isSome = true ∧ stage = .created ∧ ∃ db, file = some (some db)) :
    Exclusive { w.advance b.pid b.description stage with locks, file, journal } := by
  have hmem : ∀ {c}, c ∈ (w.advance b.pid b.description stage).builds ↔
      c = { b with stage } ∨ (c ∈ w.builds ∧ c ≠ b) := mem_advance hb h.single
  have hheld : ∀ {e}, w.locks.holder = some e → locks.holder = some e := fun he => by
    rw [hgrant _ he]
    exact hholder
  have hothers : file = w.file ∨ ∀ c ∈ w.builds, c ≠ b → c.creation.isSome = false := by
    rcases hfile with ⟨hf, -, -⟩ | ⟨hcr, -, -⟩
    · exact .inl hf
    · refine .inr fun c hc hne => ?_
      by_contra hcs
      exact hne (h.creator c hc b hb (Bool.not_eq_false _ ▸ hcs) hcr)
  have hsome : ∀ db, w.file = some (some db) → ∃ db, file = some (some db) := fun db hdb => by
    rcases hfile with ⟨hf, -, -⟩ | ⟨-, -, hf⟩
    · exact ⟨db, hf.trans hdb⟩
    · exact hf
  refine ⟨⟨fun r hr => ?_, fun e he => ?_⟩, ?_, ?_, ?_, ?_, ?_, ?_, ?_, ?_, ?_, ?_, h.twins, ?_⟩
  · rw [hnext]
    exact h.sound.below r (hrefs ▸ hr)
  · rw [hholder] at he
    cases he
    rw [hrefs]
    exact ⟨b.pid, h.reserved b hb⟩
  · intro c hc
    rw [hrefs]
    rcases hmem.mp hc with rfl | ⟨hc, -⟩
    · exact h.reserved b hb
    · exact h.reserved c hc
  · intro c hc hs
    rcases hmem.mp hc with rfl | ⟨hc, -⟩
    · exact hholder
    · exact hheld (h.locking c hc hs)
  · intro c hc e he hd
    rcases hmem.mp hc with rfl | ⟨hc, hcb⟩ <;> rcases hmem.mp he with rfl | ⟨he, heb⟩
    · rfl
    · exact absurd (h.single e he b hb hd.symm) heb
    · exact absurd (h.single c hc b hb hd) hcb
    · exact h.single c hc e he hd
  · intro c _
    rcases hfile with ⟨hf, -, -⟩ | ⟨-, -, db, hf⟩
    · rw [hf]
      exact h.present b hb
    · rw [hf]
      rfl
  · intro c hc e he hcs hes
    rcases hmem.mp hc with rfl | ⟨hc, hcb⟩ <;> rcases hmem.mp he with rfl | ⟨he, heb⟩
    · rfl
    · exact absurd (h.creator e he b hb hes hcs) heb
    · exact absurd (h.creator c hc b hb hcs hes) hcb
    · exact h.creator c hc e he hcs hes
  · intro c hc hcs hst
    rcases hmem.mp hc with rfl | ⟨hc, hcb⟩
    · rcases hfile with ⟨hf, -, hb'⟩ | ⟨-, hs, -⟩
      · exact hf.trans (h.uncommitted b hb hcs hb')
      · exact absurd hs hst
    · rcases hothers with hf | hno
      · exact hf.trans (h.uncommitted c hc hcs hst)
      · rw [hno c hc hcb] at hcs
        cases hcs
  · intro c hc hst
    rcases hmem.mp hc with rfl | ⟨hc, -⟩
    · rcases hfile with ⟨-, hs, -⟩ | ⟨-, -, hf⟩
      · exact absurd hst hs
      · exact hf
    · obtain ⟨db, hdb⟩ := h.committed c hc hst
      exact hsome db hdb
  · intro o ho
    rw [hnext]
    exact h.below o ho
  · intro c hc o ho
    rcases hmem.mp hc with rfl | ⟨hc, -⟩
    · exact h.apart b hb o ho
    · exact h.apart c hc o ho
  · intro o ho hoc
    obtain ⟨hr, hold⟩ := h.owning o ho hoc
    exact ⟨hrefs ▸ hr, hheld hold⟩
  · intro o ho
    obtain ⟨db, hdb⟩ := h.filed o ho
    exact hsome db hdb

theorem Exclusive.flock (h : Exclusive w) (hb : b ∈ w.builds) : Exclusive (w.flock b).2 := by
  unfold Host.flock
  split
  · exact h
  rename_i hs
  rw [not_not] at hs
  split
  · rename_i hg
    refine h.advance hb rfl rfl rfl (fun e he => ?_) (.inl ⟨rfl, by decide, by rw [hs]; decide⟩)
    rcases of_decide_eq_true hg with hn | hd
    · rw [hn] at he
      cases he
    · exact Option.some.inj (he.symm.trans hd)
  · exact h.abandon hb

theorem Exclusive.connect (h : Exclusive w) (hb : b ∈ w.builds) (fails : Bool) :
    Exclusive (w.connect b fails).2 := by
  unfold Host.connect
  split
  · exact h
  rename_i hs
  rw [not_not] at hs
  split
  · exact h.abandon hb
  · have hold := h.locking b hb (by rw [hs]; decide)
    exact h.advance hb rfl rfl hold (fun e he => Option.some.inj (he.symm.trans hold))
      (.inl ⟨rfl, (by decide : Construction.connected ≠ .created), by rw [hs]; decide⟩)

theorem Exclusive.commitSchema (h : Exclusive w) (hb : b ∈ w.builds) (now : Option ℚ) :
    Exclusive (w.commitSchema b now).2 := by
  unfold Host.commitSchema
  split
  · exact h
  rename_i c hc
  split
  · exact h
  rename_i hs
  rw [not_not] at hs
  split
  · exact h.abandon hb
  · have hold := h.locking b hb (by rw [hs]; decide)
    exact h.advance hb rfl rfl hold (fun e he => Option.some.inj (he.symm.trans hold))
      (.inr ⟨by rw [hc]; rfl, rfl, _, rfl⟩)

theorem bound_ok {clock : Clock} {handle : Handle} (h : w.bound b clock = .ok handle) :
    ∃ db, w.file = some (some db) ∧ bindClock db clock = .ok handle := by
  unfold Host.bound at h
  rcases hf : w.file with _ | _ | db <;> rw [hf] at h
  · cases h
  · cases h
  · refine ⟨db, rfl, ?_⟩
    simp only [Option.join_some] at h
    split at h
    · cases h
    · exact h

theorem due_locked (h : b.stage = b.due) : b.stage ≠ .opened := by
  rw [h]
  unfold Build.due
  split <;> decide

/-- A constructor that returns has the file to itself. -/
theorem Exclusive.bind (h : Exclusive w) (hb : b ∈ w.builds) (clock : Clock) :
    Exclusive (w.bind b clock).2 := by
  unfold Host.bind
  split
  · exact h
  rename_i hs
  rw [not_not] at hs
  have hopened := due_locked hs
  split
  · exact h.abandon hb
  rename_i handle hok
  obtain ⟨db, hfile, -⟩ := bound_ok hok
  have hsub : ∀ c ∈ w.builds.filter fun q =>
      decide (¬ (q.pid = b.pid ∧ q.description = b.description)),
      c ∈ w.builds ∧ c.description ≠ b.description := by
    intro c hc
    obtain ⟨hm, hn⟩ := List.mem_filter.mp hc
    refine ⟨hm, fun hd => ?_⟩
    rw [h.single c hm b hb hd] at hn
    exact of_decide_eq_true hn ⟨rfl, rfl⟩
  have hmem : ∀ {o : RunObject},
      o ∈ w.objects ++ [⟨b.pid, b.description, b.pid, false, handle⟩] →
        o ∈ w.objects ∨ o = ⟨b.pid, b.description, b.pid, false, handle⟩ := fun ho =>
    (List.mem_append.mp ho).imp_right List.mem_singleton.mp
  refine ⟨h.sound, fun c hc => h.reserved c (hsub c hc).1, fun c hc => h.locking c (hsub c hc).1,
    fun c hc e he => h.single c (hsub c hc).1 e (hsub e he).1,
    fun c hc => h.present c (hsub c hc).1,
    fun c hc e he => h.creator c (hsub c hc).1 e (hsub e he).1,
    fun c hc => h.uncommitted c (hsub c hc).1, fun c hc => h.committed c (hsub c hc).1,
    ?_, ?_, ?_, ?_, fun _ _ => ⟨db, hfile⟩⟩
  · intro o ho
    rcases hmem ho with ho | rfl
    · exact h.below o ho
    · exact h.sound.below _ (h.reserved b hb)
  · intro c hc o ho
    rcases hmem ho with ho | rfl
    · exact h.apart c (hsub c hc).1 o ho
    · exact fun he => (hsub c hc).2 he.symm
  · intro o ho hoc
    rcases hmem ho with ho | rfl
    · exact h.owning o ho hoc
    · exact ⟨h.reserved b hb, h.locking b hb hopened⟩
  · intro o ho q hq hd
    rcases hmem ho with ho | rfl <;> rcases hmem hq with hq | rfl
    · exact h.twins o ho q hq hd
    · exact absurd hd (h.apart b hb o ho)
    · exact absurd hd.symm (h.apart b hb q hq)
    · exact ⟨rfl, rfl⟩

theorem Exclusive.call (h : Exclusive w) (ho : o ∈ w.objects) (i : Timed) :
    Exclusive (w.call o i).2 := by
  unfold Host.call
  obtain ⟨db, hfile⟩ := h.filed o ho
  split
  · exact h
  split
  · exact h
  split
  · refine { h with
      present := fun _ _ => rfl
      uncommitted := ?_
      committed := fun _ _ _ => ⟨_, rfl⟩
      filed := fun _ _ => ⟨_, rfl⟩ }
    intro b hb hs hst
    rw [h.uncommitted b hb hs hst] at hfile
    cases hfile
  · exact h

theorem Exclusive.close (h : Exclusive w) (ho : o ∈ w.objects) : Exclusive (w.close o) := by
  unfold Host.close
  split
  · exact h
  have hmem : ∀ {q}, q ∈ (w.objects.map fun q =>
      if q.pid = o.pid ∧ q.description = o.description then { q with closed := true } else q) →
        ∃ p ∈ w.objects, q.description = p.description ∧ q.ownerPid = p.ownerPid ∧
          q.handle = p.handle ∧
          (q.closed = false → q = p ∧ (q.pid, q.description) ≠ (o.pid, o.description)) := by
    intro q hq
    obtain ⟨p, hp, rfl⟩ := List.mem_map.mp hq
    refine ⟨p, hp, ?_⟩
    split
    · exact ⟨rfl, rfl, rfl, fun hc => by cases hc⟩
    · rename_i hn
      refine ⟨rfl, rfl, rfl, fun _ => ⟨rfl, fun he => hn ?_⟩⟩
      exact ⟨congrArg Prod.fst he, congrArg Prod.snd he⟩
  have hbuild : ∀ b ∈ w.builds, (b.pid, b.description) ≠ (o.pid, o.description) := fun b hb he =>
    h.apart b hb o ho (congrArg Prod.snd he).symm
  refine ⟨h.sound.closed _ _, fun b hb => mem_refs_closed.mpr ⟨h.reserved b hb, hbuild b hb⟩,
    fun b hb hs => holder_closed (h.locking b hb hs) (h.reserved b hb) (hbuild b hb), h.single,
    h.present, h.creator, h.uncommitted, h.committed, ?_, ?_, ?_, ?_, ?_⟩
  · intro q hq
    obtain ⟨p, hp, hd, -⟩ := hmem hq
    unfold Descriptors.closed
    rw [next_settle, hd]
    exact h.below p hp
  · intro b hb q hq
    obtain ⟨p, hp, hd, -⟩ := hmem hq
    rw [hd]
    exact h.apart b hb p hp
  · intro q hq hqc
    obtain ⟨p, hp, -, -, -, hopen⟩ := hmem hq
    obtain ⟨rfl, hne⟩ := hopen hqc
    obtain ⟨hr, hold⟩ := h.owning q hp hqc
    exact ⟨mem_refs_closed.mpr ⟨hr, hne⟩, holder_closed hold hr hne⟩
  · intro q hq r hr hd
    obtain ⟨p, hp, hqd, hqo, hqh, -⟩ := hmem hq
    obtain ⟨s, hs, hrd, hro, hrh, -⟩ := hmem hr
    rw [hqo, hro, hqh, hrh]
    exact h.twins p hp s hs (hqd.symm.trans (hd.trans hrd))
  · intro q _
    exact h.filed o ho

theorem Exclusive.fork (h : Exclusive w) (pid child : Nat) : Exclusive (w.fork pid child) := by
  unfold Host.fork
  split
  · have hmem : ∀ {q}, q ∈ w.objects ++
        (w.objects.filter fun o => decide (o.pid = pid)).map (fun o => { o with pid := child }) →
          q ∈ w.objects ∨ ∃ p ∈ w.objects, p.pid = pid ∧ q = { p with pid := child } := by
      intro q hq
      rcases List.mem_append.mp hq with hq | hq
      · exact .inl hq
      · obtain ⟨p, hp, rfl⟩ := List.mem_map.mp hq
        obtain ⟨hp, hpid⟩ := List.mem_filter.mp hp
        exact .inr ⟨p, hp, of_decide_eq_true hpid, rfl⟩
    have horigin : ∀ {q}, q ∈ w.objects ++
        (w.objects.filter fun o => decide (o.pid = pid)).map (fun o => { o with pid := child }) →
          ∃ p ∈ w.objects, q.description = p.description ∧ q.ownerPid = p.ownerPid ∧
            q.handle = p.handle := by
      intro q hq
      rcases hmem hq with hq | ⟨p, hp, -, rfl⟩
      · exact ⟨q, hq, rfl, rfl, rfl⟩
      · exact ⟨p, hp, rfl, rfl, rfl⟩
    refine { h with
      sound := h.sound.forked pid child
      reserved := fun b hb => mem_refs_forked.mpr (.inl (h.reserved b hb))
      below := ?_
      apart := ?_
      owning := ?_
      twins := ?_
      filed := ?_ }
    · intro q hq
      obtain ⟨p, hp, hd, -⟩ := horigin hq
      rw [hd]
      exact h.below p hp
    · intro b hb q hq
      obtain ⟨p, hp, hd, -⟩ := horigin hq
      rw [hd]
      exact h.apart b hb p hp
    · intro q hq hqc
      rcases hmem hq with hq | ⟨p, hp, hpid, rfl⟩
      · obtain ⟨hr, hold⟩ := h.owning q hq hqc
        exact ⟨mem_refs_forked.mpr (.inl hr), hold⟩
      · obtain ⟨hr, hold⟩ := h.owning p hp hqc
        exact ⟨mem_refs_forked.mpr (.inr ⟨hpid ▸ hr, rfl⟩), hold⟩
    · intro q hq r hr hd
      obtain ⟨p, hp, hqd, hqo, hqh⟩ := horigin hq
      obtain ⟨s, hs, hrd, hro, hrh⟩ := horigin hr
      rw [hqo, hro, hqh, hrh]
      exact h.twins p hp s hs (hqd.symm.trans (hd.trans hrd))
    · intro q hq
      obtain ⟨p, hp, -⟩ := horigin hq
      exact h.filed p hp
  · exact h

theorem Exclusive.exit (h : Exclusive w) (pid : Nat) (committing : Bool) :
    Exclusive (w.exit pid committing) := by
  have hb : ∀ b ∈ (w.exit pid committing).builds, b ∈ w.builds ∧ b.pid ≠ pid := fun b hb =>
    (List.mem_filter.mp hb).imp_right of_decide_eq_true
  have ho : ∀ o ∈ (w.exit pid committing).objects, o ∈ w.objects ∧ o.pid ≠ pid := fun o ho =>
    (List.mem_filter.mp ho).imp_right of_decide_eq_true
  refine ⟨h.sound.exited pid,
    fun b hm => mem_refs_exited.mpr ⟨h.reserved b (hb b hm).1, (hb b hm).2⟩,
    fun b hm hs => holder_exited (h.locking b (hb b hm).1 hs) (h.reserved b (hb b hm).1)
      (hb b hm).2,
    fun b hm c hc => h.single b (hb b hm).1 c (hb c hc).1, fun b hm => h.present b (hb b hm).1,
    fun b hm c hc => h.creator b (hb b hm).1 c (hb c hc).1,
    fun b hm => h.uncommitted b (hb b hm).1, fun b hm => h.committed b (hb b hm).1, ?_,
    fun b hm o hq => h.apart b (hb b hm).1 o (ho o hq).1, ?_,
    fun o hq q hr => h.twins o (ho o hq).1 q (ho q hr).1, fun o hq => h.filed o (ho o hq).1⟩
  · intro o hq
    unfold Host.exit Descriptors.exited
    rw [next_settle]
    exact h.below o (ho o hq).1
  · intro o hq hc
    obtain ⟨hr, hold⟩ := h.owning o (ho o hq).1 hc
    exact ⟨mem_refs_exited.mpr ⟨hr, (ho o hq).2⟩, holder_exited hold hr (ho o hq).2⟩

/-- What a build or an object does, or nothing. -/
theorem getD_keeps {α β : Type} {P : β → Prop} {x : Option α} {f : α → β} {v : β} (hv : P v)
    (hf : ∀ a, x = some a → P (f a)) : P ((x.map f).getD v) := by
  cases x with
  | none => exact hv
  | some a => exact hf a rfl

theorem Exclusive.step (h : Exclusive w) (deed : Deed) : Exclusive (w.step deed).2 := by
  cases deed with
  | spawn pid =>
    change Exclusive (if pid ∈ w.alive then w else { w with alive := pid :: w.alive })
    split
    · exact h
    · exact { h with }
  | openFile pid creation => exact h.openFile pid creation
  | flock pid d =>
    exact getD_keeps (P := fun r : Report × Host => Exclusive r.2) h fun b hb =>
      h.flock (build_some hb).1
  | connect pid d fails =>
    exact getD_keeps (P := fun r : Report × Host => Exclusive r.2) h fun b hb =>
      h.connect (build_some hb).1 fails
  | commitSchema pid d now =>
    exact getD_keeps (P := fun r : Report × Host => Exclusive r.2) h fun b hb =>
      h.commitSchema (build_some hb).1 now
  | bind pid d clock =>
    exact getD_keeps (P := fun r : Report × Host => Exclusive r.2) h fun b hb =>
      h.bind (build_some hb).1 clock
  | call pid d timed =>
    exact getD_keeps (P := fun r : Report × Host => Exclusive r.2) h fun o ho =>
      h.call (object_some ho).1 timed
  | close pid d => exact getD_keeps (P := Exclusive) h fun o ho => h.close (object_some ho).1
  | fork pid child => exact h.fork pid child
  | exit pid committing => exact h.exit pid committing

theorem exclusive_after (deeds : List Deed) : Exclusive (Host.after {} deeds) :=
  Machines.after_keeps Host.step Exclusive (fun _ deed h => h.step deed) exclusive_empty deeds

/-! ## One writer -/

/-- The process may write: it made an object that is open, or it is about to
commit the schema. -/
def Host.MayWrite (w : Host) (pid d : Nat) : Prop :=
  (∃ o ∈ w.objects, o.pid = pid ∧ o.description = d ∧ o.closed = false ∧ o.ownerPid = pid) ∨
    ∃ b ∈ w.builds, b.pid = pid ∧ b.description = d ∧ b.creation.isSome = true ∧
      b.stage = .connected

theorem Exclusive.mayWrite (h : Exclusive w) {p q e : Nat} (hp : w.MayWrite p d)
    (hq : w.MayWrite q e) : p = q ∧ d = e := by
  have hstage : ∀ {b : Build}, b.stage = .connected → b.stage ≠ .opened := fun hs => by
    rw [hs]
    decide
  rcases hp with ⟨o, ho, rfl, rfl, hoc, hop⟩ | ⟨b, hb, rfl, rfl, -, hs⟩ <;>
    rcases hq with ⟨r, hr, rfl, rfl, hrc, hrp⟩ | ⟨c, hc, rfl, rfl, -, ht⟩
  · have hd := h.one ho hr hoc hrc
    exact ⟨hop.symm.trans ((h.twins o ho r hr hd).1.trans hrp), hd⟩
  · rw [h.alone hc (hstage ht) ho] at hoc
    cases hoc
  · rw [h.alone hb (hstage hs) hr] at hrc
    cases hrc
  · have hd : b.description = c.description :=
      Option.some.inj ((h.locking b hb (hstage hs)).symm.trans (h.locking c hc (hstage ht)))
    rw [h.single b hb c hc hd]
    exact ⟨rfl, rfl⟩

/-- The process and the description of a deed that may write to the file. -/
def Deed.writes : Deed → Option (Nat × Nat)
  | .commitSchema pid d _ => some (pid, d)
  | .call pid d _ => some (pid, d)
  | _ => none

theorem bind_file (b : Build) (clock : Clock) : (w.bind b clock).2.file = w.file := by
  unfold Host.bind
  split
  · rfl
  · split <;> rfl

theorem openFile_join (pid : Nat) (creation : Option Creation) :
    (w.openFile pid creation).2.file.join = w.file.join := by
  unfold Host.openFile
  split
  · rfl
  split
  · rfl
  split
  · rfl
  · rfl

theorem flock_file (b : Build) : (w.flock b).2.file = w.file := by
  unfold Host.flock
  split
  · rfl
  · split <;> rfl

theorem connect_file (b : Build) (fails : Bool) : (w.connect b fails).2.file = w.file := by
  unfold Host.connect
  split
  · rfl
  · split <;> rfl

theorem close_file (o : RunObject) : (w.close o).file = w.file := by
  unfold Host.close
  split <;> rfl

theorem fork_file (pid child : Nat) : (w.fork pid child).file = w.file := by
  unfold Host.fork
  split <;> rfl

/-- What is committed changes by a call or a commit of a process that may write. -/
theorem writes_of_change (deed : Deed) (hne : (w.step deed).2.file.join ≠ w.file.join) :
    ∃ p d, deed.writes = some (p, d) ∧ w.MayWrite p d := by
  have hkeep : ∀ {α : Type} {x : Option α} {f : α → Report × Host},
      (∀ a, (f a).2.file.join = w.file.join) →
        ((x.map f).getD (.nothing, w)).2.file.join = w.file.join := fun hf =>
    getD_keeps (P := fun r : Report × Host => r.2.file.join = w.file.join) rfl fun a _ => hf a
  cases deed with
  | spawn pid =>
    refine absurd ?_ hne
    change (if pid ∈ w.alive then w else { w with alive := pid :: w.alive }).file.join = _
    split <;> rfl
  | openFile pid creation => exact absurd (openFile_join pid creation) hne
  | flock pid d => exact absurd (hkeep fun b => congrArg Option.join (flock_file b)) hne
  | connect pid d fails =>
    exact absurd (hkeep fun b => congrArg Option.join (connect_file b fails)) hne
  | bind pid d clock => exact absurd (hkeep fun b => congrArg Option.join (bind_file b clock)) hne
  | commitSchema pid d now =>
    refine ⟨pid, d, rfl, ?_⟩
    change ((w.build? pid d).map fun b => w.commitSchema b now).getD
      (.nothing, w) |>.2.file.join ≠ _
      at hne
    rcases hb : w.build? pid d with _ | b <;> rw [hb] at hne
    · exact absurd rfl hne
    · obtain ⟨hm, hp, hd⟩ := build_some hb
      simp only [Option.map_some, Option.getD_some, Host.commitSchema] at hne
      split at hne
      · exact absurd rfl hne
      · rename_i c hc
        split at hne
        · exact absurd rfl hne
        · rename_i hs
          exact .inr ⟨b, hm, hp, hd, by rw [hc]; rfl, not_not.mp hs⟩
  | call pid d i =>
    refine ⟨pid, d, rfl, ?_⟩
    change ((w.object? pid d).map fun o => w.call o i).getD (.nothing, w) |>.2.file.join ≠ _ at hne
    rcases ho : w.object? pid d with _ | o <;> rw [ho] at hne
    · exact absurd rfl hne
    · obtain ⟨hm, hp, hd⟩ := object_some ho
      simp only [Option.map_some, Option.getD_some, Host.call] at hne
      split at hne
      · exact absurd rfl hne
      · rename_i db hdb
        split at hne
        · exact absurd rfl hne
        · split at hne
          · rename_i hopen
            refine .inl ⟨o, hm, hp, hd, hopen.1, (hopen.2 ?_).trans hp⟩
            by_contra hread
            refine hne ?_
            rw [hdb, exec_run]
            exact congrArg some (read_run (by simpa using hread)).1
          · exact absurd rfl hne
  | close pid d =>
    refine absurd ?_ hne
    exact getD_keeps (P := fun v : Host => v.file.join = w.file.join) rfl fun o _ =>
      congrArg Option.join (close_file o)
  | fork pid child => exact absurd (congrArg Option.join (fork_file pid child)) hne
  | exit pid committing => exact absurd rfl hne

/-- In every host that any deeds lead to, one process at most may write to the
file, under one description, and nothing that is committed in the file changes
but by it. -/
theorem at_most_one_process_writes (deeds : List Deed) :
    (∀ p d q e, (Host.after {} deeds).MayWrite p d → (Host.after {} deeds).MayWrite q e →
      p = q ∧ d = e) ∧
    ∀ deed, ((Host.after {} deeds).step deed).2.file.join ≠ (Host.after {} deeds).file.join →
      ∃ p d, deed.writes = some (p, d) ∧ (Host.after {} deeds).MayWrite p d :=
  ⟨fun _ _ _ _ hp hq => (exclusive_after deeds).mayWrite hp hq, fun deed => writes_of_change deed⟩

/-! ## One owner -/

/-- What the live owner holds in memory: what the open objects hold. -/
def Host.owner (w : Host) : Option Handle :=
  (w.objects.find? fun o => !o.closed).map RunObject.handle

theorem Exclusive.owner (h : Exclusive w) (ho : o ∈ w.objects) (hc : o.closed = false) :
    w.owner = some o.handle := by
  unfold Host.owner
  rcases hf : w.objects.find? fun o => !o.closed with _ | q
  · have := List.find?_eq_none.mp hf o ho
    rw [hc] at this
    exact absurd rfl this
  · have hq := List.mem_of_find?_eq_some hf
    have hqc : q.closed = false := by simpa using List.find?_some hf
    rw [hf, Option.map_some, (h.twins q hq o ho (h.one hq ho hqc hc)).2]

theorem owner_none (h : ∀ o ∈ w.objects, o.closed = true) : w.owner = none := by
  unfold Host.owner
  rw [List.find?_eq_none.mpr fun o ho => by rw [h o ho]; decide]
  rfl

theorem owner_some {handle : Handle} (h : w.owner = some handle) :
    ∃ o ∈ w.objects, o.closed = false ∧ o.handle = handle := by
  unfold Host.owner at h
  rcases hf : w.objects.find? fun o => !o.closed with _ | q <;> rw [hf] at h
  · cases h
  · cases h
    exact ⟨q, List.mem_of_find?_eq_some hf, by simpa using List.find?_some hf, rfl⟩

/-- The host as one owner sees it: the tables, and what it holds in memory. -/
structure Mirror (w : Host) (a : SQLiteRun) : Prop where
  file : w.file = some (some a.db)
  handle : a.handle = w.owner
  identified : a.db.applicationId = APPLICATION_ID ∧ a.db.userVersion = SCHEMA_VERSION

/-- What one owner does when a deed makes the report. -/
def Mirrored (w' : Host) (report : Report) (a : SQLiteRun) : Prop :=
  ∃ calls, Mirror w' (a.after calls) ∧
    (a.log calls).filter (fun e => e.call.ofObject) = report.entry.toList

theorem Change.identified {handle : Handle} {clock : Clock} {t t' : Tables} {call : Call}
    (h : Change handle clock t call t') (ht : t.applicationId = APPLICATION_ID ∧
      t.userVersion = SCHEMA_VERSION) :
    t'.applicationId = APPLICATION_ID ∧ t'.userVersion = SCHEMA_VERSION := by
  cases h <;> exact ht

variable {a : SQLiteRun} {report : Report}

/-- The run is opened, and the clock is bound. -/
theorem openRun_eq {clock : Clock} {handle : Handle} (hfree : a.handle = none)
    (hids : a.db.applicationId = APPLICATION_ID ∧ a.db.userVersion = SCHEMA_VERSION)
    (hbind : bindClock a.db clock = .ok handle) :
    (exec ⟨clock, .openRun⟩ a).2 = { a with held := handle, closed := false } := by
  change (SQLiteRun.openRun clock a).2 = _
  unfold SQLiteRun.openRun
  rw [hfree]
  simp only
  rw [if_neg fun hn => hn.elim (fun hn => hn hids.1) fun hn => hn hids.2, hbind]

/-- A deed that leaves the file, and the owner or nobody. -/
theorem Mirror.idle (h : Mirror w a) (hfile : w'.file = w.file)
    (howner : w'.owner = w.owner ∨ w'.owner = none) (hr : report.entry = none) :
    Mirrored w' report a := by
  rw [Mirrored, hr]
  rcases howner with ho | ho
  · exact ⟨[], ⟨hfile.trans h.file, h.handle.trans ho.symm, h.identified⟩, rfl⟩
  · exact ⟨[⟨⟨0, 0⟩, .close⟩], ⟨hfile.trans h.file, ho.symm, h.identified⟩, rfl⟩

/-- The objects of a host are some of those before, and each is as it was or closed. -/
theorem Exclusive.owner_left (h : Exclusive w)
    (hsub : ∀ o ∈ w'.objects, o.closed = false →
      ∃ q ∈ w.objects, q.closed = false ∧ q.handle = o.handle) :
    w'.owner = w.owner ∨ w'.owner = none := by
  rcases ho : w'.owner with _ | handle
  · exact .inr rfl
  · obtain ⟨o, hm, hc, rfl⟩ := owner_some ho
    obtain ⟨q, hq, hqc, hqh⟩ := hsub o hm hc
    rw [h.owner hq hqc, hqh]
    exact .inl rfl

theorem Exclusive.owner_fork (h : Exclusive w) (pid child : Nat) :
    (w.fork pid child).owner = w.owner := by
  have hforked := h.fork pid child
  unfold Host.fork at hforked ⊢
  split
  · rename_i hc
    rw [if_pos hc] at hforked
    by_cases hopen : ∃ o ∈ w.objects, o.closed = false
    · obtain ⟨o, ho, hoc⟩ := hopen
      rw [h.owner ho hoc]
      exact hforked.owner (List.mem_append_left _ ho) hoc
    · have hclosed : ∀ o ∈ w.objects, o.closed = true := by
        simpa using hopen
      rw [owner_none hclosed]
      refine owner_none fun o ho => ?_
      rcases List.mem_append.mp ho with ho | ho
      · exact hclosed o ho
      · obtain ⟨q, hq, rfl⟩ := List.mem_map.mp ho
        exact hclosed q (List.mem_filter.mp hq).1
  · rfl

theorem Mirror.bind (hx : Exclusive w) (h : Mirror w a) (hb : b ∈ w.builds) (clock : Clock) :
    Mirrored (w.bind b clock).2 (w.bind b clock).1 a := by
  unfold Host.bind
  split
  · exact h.idle rfl (.inl rfl) rfl
  rename_i hs
  split
  · exact h.idle rfl (.inl rfl) rfl
  rename_i handle hok
  obtain ⟨db, hfile, hbind⟩ := bound_ok hok
  have hdb : db = a.db := Option.some.inj (Option.some.inj (hfile.symm.trans h.file))
  have hclosed : ∀ o ∈ w.objects, o.closed = true := fun o ho =>
    hx.alone hb (due_locked (not_not.mp hs)) ho
  have hfree : a.handle = none := h.handle.trans (owner_none hclosed)
  have hopen := openRun_eq hfree h.identified (hdb ▸ hbind)
  refine ⟨[⟨clock, .openRun⟩], ?_, rfl⟩
  change Mirror _ (exec ⟨clock, .openRun⟩ a).2
  rw [hopen]
  refine ⟨h.file, ?_, h.identified⟩
  rw [SQLiteRun.handle_live]
  unfold Host.owner
  rw [List.find?_append, List.find?_eq_none.mpr fun o ho => by rw [hclosed o ho]; decide]
  rfl

theorem Mirror.call (hx : Exclusive w) (h : Mirror w a) (ho : o ∈ w.objects) (i : Timed) :
    Mirrored (w.call o i).2 (w.call o i).1 a := by
  unfold Host.call
  rw [h.file]
  simp only [Option.join_some]
  split
  · exact h.idle rfl (.inl rfl) rfl
  rename_i hmethod
  split
  · rename_i hopen
    have ha : a = ⟨a.db, o.handle, false⟩ := by
      obtain ⟨hheld, hclosed⟩ := SQLiteRun.handle_some (h.handle.trans (hx.owner ho hopen.1))
      rw [← hheld, ← hclosed]
    have hhandle : (exec i a).2.handle = a.handle := by
      refine exec_handle (fun hc => hmethod ?_) fun hc => hmethod ?_ <;>
        · rw [hc]
          rfl
    refine ⟨[i], ⟨?_, hhandle.trans h.handle, ?_⟩, ?_⟩
    · rw [← ha]
      rfl
    · exact after_keeps (fun t => t.applicationId = APPLICATION_ID ∧
        t.userVersion = SCHEMA_VERSION) (fun _ _ _ _ _ ht hc => hc.identified ht) h.identified [i]
    · rw [← ha]
      have hobj : (exec i a).1.call.ofObject = true :=
        (by simpa using hmethod : i.call.ofObject = true)
      simp [SQLiteRun.log, hobj, Report.entry]
  · exact h.idle rfl (.inl rfl) rfl

theorem Mirror.step (hx : Exclusive w) (h : Mirror w a) (deed : Deed) :
    Mirrored (w.step deed).2 (w.step deed).1 a := by
  have hidle : Mirrored w .nothing a := h.idle rfl (.inl rfl) rfl
  have hpart : ∀ {α : Type} {x : Option α} {f : α → Report × Host},
      (∀ v, x = some v → Mirrored (f v).2 (f v).1 a) →
        Mirrored ((x.map f).getD (.nothing, w)).2 ((x.map f).getD (.nothing, w)).1 a := fun hf =>
    getD_keeps (P := fun r : Report × Host => Mirrored r.2 r.1 a) hidle hf
  cases deed with
  | spawn pid =>
    refine h.idle ?_ (.inl ?_) rfl
    · change (if pid ∈ w.alive then w else { w with alive := pid :: w.alive }).file = _
      split <;> rfl
    · change (if pid ∈ w.alive then w else { w with alive := pid :: w.alive }).owner = _
      split <;> rfl
  | openFile pid creation =>
    change Mirrored (w.openFile pid creation).2 (w.openFile pid creation).1 a
    unfold Host.openFile
    split
    · exact hidle
    split
    · exact h.idle rfl (.inl rfl) rfl
    split
    · exact h.idle rfl (.inl rfl) rfl
    · refine h.idle ?_ (.inl rfl) rfl
      rw [h.file]
      rfl
  | flock pid d =>
    refine hpart fun b hb => ?_
    unfold Host.flock
    split
    · exact hidle
    split <;> exact h.idle rfl (.inl rfl) rfl
  | connect pid d fails =>
    refine hpart fun b hb => ?_
    unfold Host.connect
    split
    · exact hidle
    split <;> exact h.idle rfl (.inl rfl) rfl
  | commitSchema pid d now =>
    refine hpart fun b hb => ?_
    unfold Host.commitSchema
    split
    · exact hidle
    rename_i c hc
    split
    · exact hidle
    rename_i hs
    -- the one creator commits the schema before anybody has an object
    have hnone := hx.uncommitted b (build_some hb).1 (by rw [hc]; rfl)
      (by rw [not_not.mp hs]; decide)
    rw [h.file] at hnone
    cases hnone
  | bind pid d clock => exact hpart fun b hb => h.bind hx (build_some hb).1 clock
  | call pid d i => exact hpart fun o ho => h.call hx (object_some ho).1 i
  | close pid d =>
    refine getD_keeps (P := fun v : Host => Mirrored v .nothing a) hidle fun o ho => ?_
    refine h.idle (close_file o) (hx.owner_left fun q hq hqc => ?_) rfl
    unfold Host.close at hq
    split at hq
    · exact ⟨q, hq, hqc, rfl⟩
    · obtain ⟨p, hp, rfl⟩ := List.mem_map.mp hq
      split at hqc
      · cases hqc
      · rename_i hn
        exact ⟨p, hp, hqc, by rw [if_neg hn]⟩
  | fork pid child =>
    exact h.idle (fork_file pid child) (.inl (hx.owner_fork pid child)) rfl
  | exit pid committing =>
    refine h.idle rfl (hx.owner_left fun q hq hqc => ?_) rfl
    exact ⟨q, (List.mem_filter.mp hq).1, hqc, rfl⟩

/-- The file of a run that `create` made and nobody has opened yet. -/
def Creation.run (c : Creation) (now : ℚ) : SQLiteRun :=
  ⟨Tables.fresh (createdRow now c.runId c.initialState c.limits c.initialObservation), ⟨none⟩, true⟩

/-- A file without a schema, or what one owner made of it. -/
def Followed (reports : List Report) (w : Host) : Prop :=
  (w.file.join = none ∧ reports.filterMap Report.entry = []) ∨
    ∃ (c : Creation) (now : ℚ) (calls : List Timed), Mirror w ((c.run now).after calls) ∧
      ((c.run now).log calls).filter (fun e => e.call.ofObject) = reports.filterMap Report.entry

theorem log_append (a : SQLiteRun) (calls more : List Timed) :
    a.log (calls ++ more) = a.log calls ++ (a.after calls).log more := by
  induction calls generalizing a with
  | nil => rfl
  | cons i calls ih => exact congrArg (_ :: ·) (ih _)

/-- Before the schema is committed nobody has an object. -/
theorem Followed.first {reports : List Report} (hx : Exclusive w) (hfile : w.file.join = none)
    (hr : reports.filterMap Report.entry = []) (deed : Deed) :
    Followed (reports ++ [(w.step deed).1]) (w.step deed).2 := by
  have hobjects : ∀ o ∈ w.objects, False := fun o ho => by
    obtain ⟨db, hdb⟩ := hx.filed o ho
    rw [hdb] at hfile
    cases hfile
  have hkeep : ∀ {w' : Host} {report : Report}, w'.file.join = none → report.entry = none →
      Followed (reports ++ [report]) w' := fun hf he =>
    .inl ⟨hf, by rw [List.filterMap_append, hr, List.filterMap_cons_none he]; rfl⟩
  have hpart : ∀ {α : Type} {x : Option α} {f : α → Report × Host},
      (∀ v, x = some v → Followed (reports ++ [(f v).1]) (f v).2) →
        Followed (reports ++ [((x.map f).getD (.nothing, w)).1])
          ((x.map f).getD (.nothing, w)).2 := fun hf =>
    getD_keeps (P := fun r : Report × Host => Followed (reports ++ [r.1]) r.2)
      (hkeep hfile rfl) hf
  cases deed with
  | spawn pid =>
    refine hkeep ?_ rfl
    change (if pid ∈ w.alive then w else { w with alive := pid :: w.alive }).file.join = none
    split <;> exact hfile
  | openFile pid creation =>
    refine hkeep ((openFile_join pid creation).trans hfile) ?_
    change (w.openFile pid creation).1.entry = none
    unfold Host.openFile
    split
    · rfl
    split
    · rfl
    split <;> rfl
  | flock pid d =>
    refine hpart fun b _ => hkeep ((congrArg Option.join (flock_file b)).trans hfile) ?_
    unfold Host.flock
    split
    · rfl
    split <;> rfl
  | connect pid d fails =>
    refine hpart fun b _ => hkeep ((congrArg Option.join (connect_file b fails)).trans hfile) ?_
    unfold Host.connect
    split
    · rfl
    split <;> rfl
  | commitSchema pid d now =>
    refine hpart fun b _ => ?_
    unfold Host.commitSchema
    split
    · exact hkeep hfile rfl
    rename_i c hc
    split
    · exact hkeep hfile rfl
    split
    · exact hkeep hfile rfl
    rename_i now
    refine .inr ⟨c, now, [],
      ⟨rfl, (owner_none fun o ho => (hobjects o ho).elim).symm, rfl, rfl⟩, ?_⟩
    rw [List.filterMap_append, hr]
    rfl
  | bind pid d clock =>
    refine hpart fun b _ => hkeep ((congrArg Option.join (bind_file b clock)).trans hfile) ?_
    unfold Host.bind
    split
    · rfl
    split <;> rfl
  | call pid d i => exact hpart fun o ho => (hobjects o (object_some ho).1).elim
  | close pid d =>
    exact getD_keeps (P := fun v : Host => Followed (reports ++ [.nothing]) v) (hkeep hfile rfl)
      fun o ho => (hobjects o (object_some ho).1).elim
  | fork pid child => exact hkeep ((congrArg Option.join (fork_file pid child)).trans hfile) rfl
  | exit pid committing => exact hkeep hfile rfl

theorem Followed.step {reports : List Report} (hx : Exclusive w) (h : Followed reports w)
    (deed : Deed) : Followed (reports ++ [(w.step deed).1]) (w.step deed).2 := by
  rcases h with ⟨hfile, hr⟩ | ⟨c, now, calls, hs, hl⟩
  · exact Followed.first hx hfile hr deed
  · obtain ⟨more, hs', hl'⟩ := hs.step hx deed
    refine .inr ⟨c, now, calls ++ more, ?_, ?_⟩
    · rw [SQLiteRun.after, Machines.after_append]
      exact hs'
    · rw [log_append, List.filter_append, hl, hl', List.filterMap_append]
      congr 1

theorem followed_after (deeds : List Deed) :
    Followed (Host.log {} deeds) (Host.after {} deeds) :=
  (Machines.run_keeps Host.step (fun reports w => Exclusive w ∧ Followed reports w) {}
    ⟨exclusive_empty, .inl ⟨rfl, rfl⟩⟩
    (fun _ _ deed h => ⟨h.1.step deed, h.2.step h.1 deed⟩) deeds).2

/-- What the processes do to a run, one owner does: after any deeds, the file
has no schema and no call was answered by it, or one owner of a run that
`create` made has opened and closed it and made the calls that were let through,
in their order: the file holds what it left, the open objects hold what it
holds, and each process was answered what it was. -/
theorem the_processes_act_as_one_owner (deeds : List Deed) :
    let w := Host.after {} deeds
    let entries := (Host.log {} deeds).filterMap Report.entry
    (w.file.join = none ∧ entries = []) ∨
      ∃ (c : Creation) (now : ℚ) (calls : List Timed),
        w.file = some (some ((c.run now).after calls).db) ∧
          ((c.run now).after calls).handle = w.owner ∧
            ((c.run now).log calls).filter (fun e => e.call.ofObject) = entries := by
  rcases followed_after deeds with h | ⟨c, now, calls, hs, hl⟩
  · exact .inl h
  · exact .inr ⟨c, now, calls, hs.file, hs.handle, hl⟩

/-- A run that `create` returned is a file that it made and opened. -/
theorem create_opens (c : Creation) {now : ℚ} {clock : Clock} {self : SQLiteRun}
    (h : SQLiteRun.create now clock (.typed c.runId) (.typed c.initialState) c.limits
      (c.initialObservation.map .typed) = .ok self) :
    self = (c.run now).after [⟨clock, .openRun⟩] := by
  have hstart : SQLiteRun.create.start now clock c.limits c.runId c.initialState
      c.initialObservation = .ok self := by
    unfold SQLiteRun.create at h
    rcases ho : c.initialObservation with _ | s <;> rw [ho] at h <;> exact h
  obtain ⟨hdb, handle, hbind, hh⟩ := create_start_ok hstart
  have hopen : (c.run now).after [⟨clock, .openRun⟩] =
      { c.run now with held := handle, closed := false } :=
    openRun_eq rfl ⟨rfl, rfl⟩ (by rw [hdb] at hbind; exact hbind)
  obtain ⟨hheld, hclosed⟩ := SQLiteRun.handle_some hh
  rw [hopen, ← hheld, ← hclosed]
  exact congrArg (SQLiteRun.mk · self.held self.closed) hdb

/-! ## A run that was left -/

/-- A descriptor is one of a live process. -/
def Host.Tended (w : Host) : Prop := ∀ r ∈ w.locks.refs, r.1 ∈ w.alive

theorem Tended.abandon (h : w.Tended) : (w.abandon pid d).Tended := fun r hr =>
  h r (mem_refs_closed.mp hr).1

theorem Tended.step (h : w.Tended) (deed : Deed) : (w.step deed).2.Tended := by
  have hpart : ∀ {α : Type} {x : Option α} {f : α → Report × Host},
      (∀ v, (f v).2.Tended) → ((x.map f).getD (.nothing, w)).2.Tended := fun hf =>
    getD_keeps (P := fun r : Report × Host => r.2.Tended) h fun v _ => hf v
  cases deed with
  | spawn pid =>
    change (if pid ∈ w.alive then w else { w with alive := pid :: w.alive }).Tended
    split
    · exact h
    · exact fun r hr => List.mem_cons_of_mem _ (h r hr)
  | openFile pid creation =>
    change (w.openFile pid creation).2.Tended
    unfold Host.openFile
    split
    · exact h
    rename_i halive
    split
    · exact h
    split
    · exact h
    · intro r hr
      rcases List.mem_cons.mp hr with rfl | hr
      · exact not_not.mp halive
      · exact h r hr
  | flock pid d =>
    refine hpart fun b => ?_
    unfold Host.flock
    split
    · exact h
    split
    · exact h
    · exact Tended.abandon h
  | connect pid d fails =>
    refine hpart fun b => ?_
    unfold Host.connect
    split
    · exact h
    split
    · exact Tended.abandon h
    · exact h
  | commitSchema pid d now =>
    refine hpart fun b => ?_
    unfold Host.commitSchema
    split
    · exact h
    split
    · exact h
    split
    · exact Tended.abandon h
    · exact h
  | bind pid d clock =>
    refine hpart fun b => ?_
    unfold Host.bind
    split
    · exact h
    split
    · exact Tended.abandon h
    · exact h
  | call pid d i =>
    refine hpart fun o => ?_
    unfold Host.call
    split
    · exact h
    split
    · exact h
    split <;> exact h
  | close pid d =>
    refine getD_keeps (P := Host.Tended) h fun o _ => ?_
    unfold Host.close
    split
    · exact h
    · exact fun r hr => h r (mem_refs_closed.mp hr).1
  | fork pid child =>
    change (w.fork pid child).Tended
    unfold Host.fork
    split
    · intro r hr
      rcases mem_refs_forked.mp hr with hr | ⟨-, hc⟩
      · exact List.mem_cons_of_mem _ (h r hr)
      · exact hc ▸ List.mem_cons_self
    · exact h
  | exit pid committing =>
    intro r hr
    obtain ⟨hr, hne⟩ := mem_refs_exited.mp hr
    exact List.mem_filter.mpr ⟨h r hr, decide_eq_true hne⟩

/-- `open` by the process, without a failure of the database. -/
def Host.opening (w : Host) (pid : Nat) (clock : Clock) : List Deed :=
  [.openFile pid none, .flock pid w.locks.next, .connect pid w.locks.next false,
    .bind pid w.locks.next clock]

end FlynnAgents
