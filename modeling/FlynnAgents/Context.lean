-- The context compiler (context.py): whole items, required ones first, are taken
-- while they fit in a budget of characters. What the packet says is exact.
import FlynnAgents.Contracts
import FlynnAgents.Lib.Greedy
import FlynnAgents.Lib.StableSort

open scoped List

namespace FlynnAgents

/-! ## The compiler -/

structure ContextItem where
  id : String
  text : String
  priority : Int := 0
  evidenceIds : List String := []
  required : Bool := false
  deriving DecidableEq, Repr

structure ContextPacket where
  text : String
  includedIds : List String
  omittedIds : List String
  evidenceIds : List String
  deriving DecidableEq, Repr

/-- A compiler that its constructor accepted. -/
structure ContextCompiler where
  maxCharacters : Nat
  positive : 0 < maxCharacters

/-- `ContextCompiler(max_characters=n)` -/
def ContextCompiler.create (maxCharacters : Int) : Except Exn ContextCompiler :=
  if h : maxCharacters ≤ 0 then .error (valueError "Context character budget must be positive")
  else .ok ⟨maxCharacters.toNat, by omega⟩

/-- The order of `sorted(items, key=lambda item: (not item.required, -item.priority))` -/
def ContextItem.le (a b : ContextItem) : Bool :=
  if a.required = b.required then decide (b.priority ≤ a.priority) else a.required

def ContextItem.part (item : ContextItem) : String := "[" ++ item.id ++ "]\n" ++ item.text

/-- The locals of the loop of `compile`. -/
structure Draft where
  included : List String := []
  omitted : List String := []
  evidence : List String := []
  parts : List String := []
  size : Nat := 0

/-- One turn of the loop of `compile`. -/
def ContextCompiler.turn (c : ContextCompiler) (d : Draft) (item : ContextItem) :
    Except Exn Draft :=
  let part := item.part
  let cost := part.length + if d.parts = [] then 0 else 2
  if c.maxCharacters < d.size + cost then
    if item.required then
      .error (valueError ("Required context item " ++ repr item.id ++ " exceeds context budget"))
    else .ok { d with omitted := d.omitted ++ [item.id] }
  else .ok { d with
    parts := d.parts ++ [part]
    size := d.size + cost
    included := d.included ++ [item.id]
    evidence := d.evidence ++ item.evidenceIds }

/-- `compile` -/
def ContextCompiler.compile (c : ContextCompiler) (items : List ContextItem) :
    Except Exn ContextPacket :=
  if ¬ (items.map ContextItem.id).Nodup then
    .error (valueError "Context item IDs must be unique")
  else do
    let d ← (items.mergeSort ContextItem.le).foldlM c.turn {}
    return ⟨"\n\n".intercalate d.parts, d.included, d.omitted, d.evidence.eraseDups⟩

/-! ## The selection -/

/-- The items as one text. -/
def render (items : List ContextItem) : String := "\n\n".intercalate (items.map ContextItem.part)

def ContextCompiler.fits (c : ContextCompiler) (items : List ContextItem) : Bool :=
  decide ((render items).length ≤ c.maxCharacters)

variable {c : ContextCompiler} {items l l' acc : List ContextItem} {a b : ContextItem}

/-- The characters of the items, each with a separator. -/
def room (items : List ContextItem) : Nat := (items.map fun a => a.part.length + 2).sum

/-- The last separator is not written. -/
theorem render_length (l : List ContextItem) : (render l).length = room l - 2 := by
  have hcons : ∀ (a : ContextItem) (l : List ContextItem),
      (render (a :: l)).length + 2 = room (a :: l) := by
    intro a l
    induction l generalizing a with
    | nil => simp [render, room]
    | cons b l ih =>
      have h := ih b
      unfold render room at h ⊢
      simp only [List.map_cons, List.sum_cons, String.intercalate_cons_cons,
        String.length_append] at h ⊢
      have hsep : "\n\n".length = 2 := rfl
      omega
  cases l with
  | nil => rfl
  | cons a l =>
    have := hcons a l
    omega

theorem room_append : room (l ++ l') = room l + room l' := by simp [room]

theorem fits_hereditary (c : ContextCompiler) : Greedy.Hereditary c.fits := by
  intro l l' h hf
  unfold ContextCompiler.fits at hf ⊢
  simp only [decide_eq_true_eq, render_length] at hf ⊢
  have hroom : room l ≤ room l' := (h.map _).sum_le_sum (by simp)
  omega

theorem fits_perm (h : l.Perm l') : c.fits l = c.fits l' := by
  unfold ContextCompiler.fits
  have hroom : room l = room l' := (h.map _).sum_eq
  simp only [render_length, hroom]

/-! ## The loop -/

/-- The locals when these items are included and omitted. -/
def draftOf (chosen omitted : List ContextItem) : Draft where
  included := chosen.map ContextItem.id
  omitted := omitted.map ContextItem.id
  evidence := chosen.flatMap ContextItem.evidenceIds
  parts := chosen.map ContextItem.part
  size := (render chosen).length

/-- The running size is the size of the text, so a turn asks whether the item fits. -/
theorem turn_eq (chosen omitted : List ContextItem) (item : ContextItem) :
    c.turn (draftOf chosen omitted) item =
      if c.fits (chosen ++ [item]) then .ok (draftOf (chosen ++ [item]) omitted)
      else if item.required then .error (valueError
        ("Required context item " ++ repr item.id ++ " exceeds context budget"))
      else .ok (draftOf chosen (omitted ++ [item])) := by
  have hsize : (draftOf chosen omitted).size + (item.part.length +
      if (draftOf chosen omitted).parts = [] then 0 else 2) =
        (render (chosen ++ [item])).length := by
    unfold draftOf
    rw [render_length, render_length, room_append]
    cases chosen with
    | nil => simp [room]
    | cons a l =>
      simp only [room, List.map_cons, List.sum_cons, List.map_nil, List.sum_nil]
      simp only [reduceCtorEq, if_false]
      omega
  unfold ContextCompiler.turn ContextCompiler.fits
  simp only [decide_eq_true_eq]
  by_cases hfit : (render (chosen ++ [item])).length ≤ c.maxCharacters
  · rw [if_neg (by omega), if_pos hfit]
    simp [draftOf, ← hsize]
  · rw [if_pos (by omega), if_neg hfit]
    simp [draftOf]

/-- The loop ends when nothing required is dropped. -/
theorem loop_ok (omitted : List ContextItem)
    (h : ∀ a ∈ Greedy.dropped c.fits acc l, a.required = false) :
    l.foldlM c.turn (draftOf acc omitted) = .ok (draftOf (Greedy.kept c.fits acc l)
      (omitted ++ Greedy.dropped c.fits acc l)) := by
  induction l generalizing acc omitted with
  | nil =>
    rw [Greedy.kept, Greedy.dropped, List.append_nil]
    rfl
  | cons a l ih =>
    rw [Greedy.dropped] at h ⊢
    rw [Greedy.kept, List.foldlM_cons, turn_eq]
    by_cases ha : c.fits (acc ++ [a]) = true
    · simp only [if_pos ha] at h ⊢
      exact ih omitted h
    · simp only [if_neg ha] at h ⊢
      rw [h a List.mem_cons_self]
      have hrest := ih (omitted ++ [a]) fun b hb => h b (List.mem_cons_of_mem a hb)
      rw [List.append_assoc] at hrest
      exact hrest

/-- Else it raises. -/
theorem loop_error (omitted : List ContextItem) {a : ContextItem}
    (h : a ∈ Greedy.dropped c.fits acc l) (hr : a.required = true) :
    ∃ e, l.foldlM c.turn (draftOf acc omitted) = .error e := by
  induction l generalizing acc omitted with
  | nil => simp [Greedy.dropped] at h
  | cons b l ih =>
    rw [Greedy.dropped] at h
    rw [List.foldlM_cons, turn_eq]
    by_cases hb : c.fits (acc ++ [b]) = true
    · simp only [if_pos hb] at h ⊢
      exact ih omitted h
    · simp only [if_neg hb] at h ⊢
      by_cases hbr : b.required = true
      · rw [if_pos hbr]
        exact ⟨_, rfl⟩
      · rw [if_neg hbr]
        rcases List.mem_cons.mp h with rfl | h
        · exact absurd hr hbr
        · exact ih (omitted ++ [b]) h

/-! ## The order -/

/-- `a` is offered before `b`: required first, then the higher priority, then the input order. -/
def Precedes (items : List ContextItem) (a b : ContextItem) : Prop :=
  StableSort.Before ContextItem.le items a b

theorem le_trans_items (a b c : ContextItem) (h : a.le b = true) (h' : b.le c = true) :
    a.le c = true := by
  unfold ContextItem.le at h h' ⊢
  cases ha : a.required <;> cases hb : b.required <;> cases hc : c.required <;>
    simp_all only [decide_eq_true_eq, if_true, if_false, reduceCtorEq]
  · omega
  · omega

theorem le_total_items (a b : ContextItem) : (a.le b || b.le a) = true := by
  unfold ContextItem.le
  cases ha : a.required <;> cases hb : b.required <;> simp
  · omega
  · omega

/-- What stands before a required item is required. -/
theorem required_of_le (h : a.le b = true) (hb : b.required = true) : a.required = true := by
  unfold ContextItem.le at h
  rw [hb] at h
  by_cases ha : a.required = true
  · exact ha
  · rwa [if_neg ha] at h

/-- The order in which `compile` offers the items. -/
def offered (items : List ContextItem) : List ContextItem := items.mergeSort ContextItem.le

theorem offered_perm (items : List ContextItem) : (offered items).Perm items :=
  List.mergeSort_perm items ContextItem.le

/-- The required items are offered first. -/
theorem offered_split (items : List ContextItem) :
    offered items = (offered items).filter (fun a => a.required) ++
      (offered items).filter (fun a => !a.required) := by
  have hsorted : (offered items).Pairwise fun a b => a.le b = true :=
    List.pairwise_mergeSort le_trans_items le_total_items items
  generalize offered items = l at hsorted
  induction l with
  | nil => rfl
  | cons a l ih =>
    obtain ⟨hhead, htail⟩ := List.pairwise_cons.mp hsorted
    by_cases ha : a.required = true
    · rw [List.filter_cons_of_pos ha, List.filter_cons_of_neg (by simpa using ha), List.cons_append,
        ← ih htail]
    · have hnone : l.filter (fun a => a.required) = [] :=
        List.filter_eq_nil_iff.mpr fun b hb hreq => ha (required_of_le (hhead b hb) hreq)
      have hrest := ih htail
      rw [hnone, List.nil_append] at hrest
      rw [List.filter_cons_of_neg ha, List.filter_cons_of_pos (by simpa using ha), hnone,
        List.nil_append, ← hrest]

/-! ## The packet -/

def ContextCompiler.chosen (c : ContextCompiler) (items : List ContextItem) : List ContextItem :=
  Greedy.kept c.fits [] (offered items)

def ContextCompiler.left (c : ContextCompiler) (items : List ContextItem) : List ContextItem :=
  Greedy.dropped c.fits [] (offered items)

/-- The packet of a selection. -/
def packet (chosen omitted : List ContextItem) : ContextPacket where
  text := render chosen
  includedIds := chosen.map ContextItem.id
  omittedIds := omitted.map ContextItem.id
  evidenceIds := (chosen.flatMap ContextItem.evidenceIds).eraseDups

theorem compile_ok (hids : (items.map ContextItem.id).Nodup)
    (h : ∀ a ∈ c.left items, a.required = false) :
    c.compile items = .ok (packet (c.chosen items) (c.left items)) := by
  unfold ContextCompiler.compile
  rw [if_neg (not_not.mpr hids)]
  have hloop := @loop_ok c (offered items) [] [] h
  change (offered items).foldlM c.turn {} >>= _ = _
  rw [show ({} : Draft) = draftOf [] [] from rfl, hloop]
  rfl

theorem compile_error (hids : (items.map ContextItem.id).Nodup) (ha : a ∈ c.left items)
    (hr : a.required = true) : ∃ e, c.compile items = .error e := by
  obtain ⟨e, he⟩ := @loop_error c (offered items) [] [] a ha hr
  refine ⟨e, ?_⟩
  unfold ContextCompiler.compile
  rw [if_neg (not_not.mpr hids)]
  change (offered items).foldlM c.turn {} >>= _ = _
  rw [show ({} : Draft) = draftOf [] [] from rfl, he]
  rfl

theorem fits_nil (c : ContextCompiler) : c.fits [] = true := by
  simp [ContextCompiler.fits, render]

theorem chosen_perm (c : ContextCompiler) (items : List ContextItem) :
    (c.chosen items ++ c.left items).Perm items := by
  have h : (c.chosen items ++ c.left items).Perm ([] ++ offered items) :=
    Greedy.kept_append_dropped
  exact h.trans (offered_perm items)

/-- Nothing required is left out exactly if the required items fit together. -/
theorem left_optional_iff (c : ContextCompiler) (items : List ContextItem) :
    (∀ a ∈ c.left items, a.required = false) ↔
      c.fits (items.filter (fun a => a.required)) = true := by
  have hreq : c.fits ((offered items).filter (fun a => a.required)) =
      c.fits (items.filter (fun a => a.required)) := fits_perm ((offered_perm items).filter _)
  rw [← hreq]
  constructor
  · intro h
    have hnone : (c.left items).filter (fun a => a.required) = [] :=
      List.filter_eq_nil_iff.mpr fun a ha => by simp [h a ha]
    have hperm : ((c.chosen items).filter (fun a => a.required)).Perm
        ((offered items).filter (fun a => a.required)) := by
      have hp := ((chosen_perm c items).trans (offered_perm items).symm).filter
        (fun a => a.required)
      rwa [List.filter_append, hnone, List.append_nil] at hp
    rw [← fits_perm hperm]
    exact fits_hereditary c _ _ List.filter_sublist (Greedy.kept_fits (fits_nil c))
  · intro h a ha
    unfold ContextCompiler.left at ha
    obtain ⟨-, hnone⟩ := Greedy.kept_all (fits_hereditary c)
      (show c.fits ([] ++ (offered items).filter (fun a => a.required)) = true from h)
    rw [offered_split, Greedy.dropped_append, hnone, List.nil_append] at ha
    obtain ⟨before, after, hl, -, -⟩ := Greedy.dropped_at ha
    have hmem : a ∈ (offered items).filter (fun a => !a.required) := by rw [hl]; simp
    simpa using List.of_mem_filter hmem

/-- What the packet says of a selection. -/
structure Selected (c : ContextCompiler) (items : List ContextItem) (p : ContextPacket)
    (chosen : List ContextItem) : Prop where
  text : p.text = render chosen
  bounded : p.text.length ≤ c.maxCharacters
  includedIds : p.includedIds = chosen.map ContextItem.id
  evidenceIds : p.evidenceIds = (chosen.flatMap ContextItem.evidenceIds).eraseDups
  ordered : chosen.Pairwise (Precedes items)
  partition : (p.includedIds ++ p.omittedIds).Perm (items.map ContextItem.id)
  given : ∀ a ∈ chosen, a ∈ items
  required : ∀ a ∈ items, a.required = true → a ∈ chosen
  maximal : ∀ a ∈ items, a.id ∈ p.omittedIds →
    c.maxCharacters < (render (chosen ++ [a])).length
  unaffected : ∀ a ∈ items, a.id ∈ p.omittedIds → ∃ q, c.compile (items.erase a) = .ok q ∧
    q.text = p.text ∧ q.includedIds = p.includedIds ∧ q.evidenceIds = p.evidenceIds

theorem mem_left_of_id (hids : (items.map ContextItem.id).Nodup) (ha : a ∈ items)
    (h : a.id ∈ (c.left items).map ContextItem.id) : a ∈ c.left items := by
  obtain ⟨b, hb, hid⟩ := List.mem_map.mp h
  have hb' : b ∈ items := (chosen_perm c items).subset (List.mem_append_right _ hb)
  rwa [← List.inj_on_of_nodup_map hids hb' ha hid]

theorem offered_erase (hids : (items.map ContextItem.id).Nodup) (a : ContextItem) :
    offered (items.erase a) = (offered items).filter (fun b => b ≠ a) := by
  have hnodup : items.Nodup := hids.of_map
  unfold offered
  rw [hnodup.erase_eq_filter]
  have hsort := StableSort.mergeSort_filter le_trans_items le_total_items hnodup (fun b => b ≠ a)
  rw [← hsort]
  congr 2
  funext b
  simp [bne, beq_eq_decide]

/-- An omitted item is not missed. -/
theorem chosen_erase (hids : (items.map ContextItem.id).Nodup) (ha : a ∈ c.left items) :
    c.chosen (items.erase a) = c.chosen items := by
  unfold ContextCompiler.chosen
  rw [offered_erase hids]
  apply Greedy.kept_filter
  intro b hb
  have hnodup : (c.chosen items ++ c.left items).Nodup :=
    (chosen_perm c items).nodup_iff.mpr hids.of_map
  have hne : b ≠ a := (List.nodup_append.mp hnodup).2.2 b hb a ha
  simpa using hne

theorem selected (hids : (items.map ContextItem.id).Nodup)
    (h : ∀ a ∈ c.left items, a.required = false) :
    Selected c items (packet (c.chosen items) (c.left items)) (c.chosen items) where
  text := rfl
  bounded := by
    have hfit : c.fits (c.chosen items) = true := Greedy.kept_fits (fits_nil c)
    exact of_decide_eq_true hfit
  includedIds := rfl
  evidenceIds := rfl
  ordered := by
    have hsorted : (offered items).Pairwise (Precedes items) :=
      StableSort.pairwise_before le_trans_items le_total_items hids.of_map
    have hsub : c.chosen items <+ offered items := by
      have h : c.chosen items <+ [] ++ offered items := Greedy.kept_sublist
      rwa [List.nil_append] at h
    exact hsorted.sublist hsub
  partition := by
    have hp := (chosen_perm c items).map ContextItem.id
    rwa [List.map_append] at hp
  given a ha := (chosen_perm c items).subset (List.mem_append_left _ ha)
  required a ha hreq := by
    rcases List.mem_append.mp ((chosen_perm c items).mem_iff.mpr ha) with hin | hout
    · exact hin
    · rw [h a hout] at hreq
      cases hreq
  maximal a ha hout := by
    have hleft := mem_left_of_id hids ha hout
    have hno : c.fits (c.chosen items ++ [a]) = false :=
      Greedy.dropped_maximal (fits_hereditary c) hleft
    have := of_decide_eq_false hno
    omega
  unaffected a ha hout := by
    have hleft := mem_left_of_id hids ha hout
    have hids' : ((items.erase a).map ContextItem.id).Nodup :=
      hids.sublist (List.erase_sublist.map _)
    have hoptional : ∀ b ∈ c.left (items.erase a), b.required = false := by
      rw [left_optional_iff] at h ⊢
      exact fits_hereditary c _ _ (List.erase_sublist.filter _) h
    refine ⟨_, compile_ok hids' hoptional, ?_⟩
    rw [chosen_erase hids hleft]
    exact ⟨rfl, rfl, rfl⟩

/-- A packet is refused exactly if the required items alone are too long. Else what it says
is exact. -/
theorem context_selection_is_exact (c : ContextCompiler) (items : List ContextItem)
    (hids : (items.map ContextItem.id).Nodup) :
    ((∃ e, c.compile items = .error e) ↔
      c.maxCharacters < (render (items.filter fun a => a.required)).length) ∧
    ∀ p, c.compile items = .ok p → ∃ chosen, Selected c items p chosen := by
  have hfits : c.fits (items.filter fun a => a.required) = true ↔
      ¬ c.maxCharacters < (render (items.filter fun a => a.required)).length := by
    unfold ContextCompiler.fits
    rw [decide_eq_true_eq]
    omega
  by_cases h : ∀ a ∈ c.left items, a.required = false
  · have hok := compile_ok hids h
    constructor
    · constructor
      · rintro ⟨e, he⟩
        rw [hok] at he
        cases he
      · intro hlong
        exact absurd hlong (hfits.mp ((left_optional_iff c items).mp h))
    · intro p hp
      rw [hok] at hp
      cases hp
      exact ⟨_, selected hids h⟩
  · have hlong : c.maxCharacters < (render (items.filter fun a => a.required)).length := by
      by_contra hn
      exact h ((left_optional_iff c items).mpr (hfits.mpr hn))
    obtain ⟨a, ha⟩ := not_forall.mp h
    obtain ⟨hmem, hreq⟩ := Classical.not_imp.mp ha
    obtain ⟨e, he⟩ := compile_error hids hmem (by simpa using hreq)
    constructor
    · exact ⟨fun _ => hlong, fun _ => ⟨e, he⟩⟩
    · intro p hp
      rw [he] at hp
      cases hp

/-- A required item, one that is too long, and a short one. -/
def noteItems : List ContextItem :=
  [⟨"a", "note", 0, [], true⟩, ⟨"b", "a text that is too long", 5, ["e1"], false⟩,
    ⟨"c", "x", 0, ["e2"], false⟩]

/-- A compiler with room for twenty characters omits the long item, and one with room for seven
cannot take the required one. -/
theorem context_selection_is_exact_sample :
    (∃ chosen, Selected ⟨20, by decide⟩ noteItems
      ⟨"[a]\nnote\n\n[c]\nx", ["a", "c"], ["b"], ["e2"]⟩ chosen) ∧
    ∃ e, (ContextCompiler.mk 7 (by decide)).compile noteItems = .error e := by
  have hids : (noteItems.map ContextItem.id).Nodup := by decide
  have hsorted : noteItems.mergeSort ContextItem.le = noteItems :=
    List.mergeSort_of_pairwise (by decide)
  have hcompile : (ContextCompiler.mk 20 (by decide)).compile noteItems =
      .ok ⟨"[a]\nnote\n\n[c]\nx", ["a", "c"], ["b"], ["e2"]⟩ := by
    unfold ContextCompiler.compile
    rw [if_neg (not_not.mpr hids), hsorted]
    decide +kernel
  constructor
  · exact (context_selection_is_exact ⟨20, by decide⟩ noteItems hids).2 _ hcompile
  · exact (context_selection_is_exact ⟨7, by decide⟩ noteItems hids).1.mpr (by decide +kernel)

end FlynnAgents
