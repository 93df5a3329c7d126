-- A text without surrogates is read as strings without surrogate pairs, whatever it
-- escapes.
import FlynnAgents.Lib.JsonWrite

namespace Text

/-- No code point of the string is a surrogate. -/
def Plain (s : Text) : Prop := ∀ c ∈ s, high c = false ∧ low c = false

theorem Plain.subset {s t : Text} (h : Plain t) (hs : ∀ c ∈ s, c ∈ t) : Plain s :=
  fun c hc => h c (hs c hc)

theorem plain_of_lt {s : Text} (h : ∀ c ∈ s, c.val < 0xd800) : Plain s := by
  intro c hc
  have hlt := h c hc
  unfold high low
  exact ⟨decide_eq_false (by omega), decide_eq_false (by omega)⟩

theorem hasPair_cons {c : CodePoint} {s : Text} : HasPair (c :: s) ↔
    (high c = true ∧ ∃ d rest, s = d :: rest ∧ low d = true) ∨ HasPair s := by
  constructor
  · rintro ⟨before, c', d, after, heq, hc, hd⟩
    cases before with
    | nil =>
      cases heq
      exact .inl ⟨hc, d, after, rfl, hd⟩
    | cons b before =>
      cases heq
      exact .inr ⟨before, c', d, after, rfl, hc, hd⟩
  · rintro (⟨hc, d, rest, rfl, hd⟩ | ⟨before, c', d, after, rfl, hc, hd⟩)
    · exact ⟨[], c, d, rest, rfl, hc, hd⟩
    · exact ⟨c :: before, c', d, after, rfl, hc, hd⟩

theorem not_hasPair_nil : ¬ HasPair [] := by
  rintro ⟨before, c, d, after, heq, -⟩
  cases before <;> cases heq

theorem Plain.not_hasPair {s : Text} (h : Plain s) : ¬ HasPair s := by
  rintro ⟨before, c, d, after, rfl, hc, -⟩
  rw [(h c (by simp)).1] at hc
  cases hc

end Text

namespace JsonText

open Text (Plain HasPair high low combine joined hasPair_cons)

/-! ## Strings -/

/-- A piece that is no surrogate of its own: its unit has 16 bits. -/
def Piece.Plain : Piece → Prop
  | .char c => high c = false ∧ low c = false
  | .unit n => n < 0x10000

theorem ofNat_unit {n : Nat} (h : n < 0x10000) : (Fin.ofNat 0x110000 n).val = n := by
  rw [Fin.val_ofNat, Nat.mod_eq_of_lt (by omega)]

theorem combine_plain {n m : Nat} (hn : high n = true) (hm : low m = true) :
    high (combine n m) = false ∧ low (combine n m) = false := by
  rw [Text.combine_val hn hm]
  unfold high low
  exact ⟨decide_eq_false (by omega), decide_eq_false (by omega)⟩

/-- A string begins with a low surrogate only if a low unit was escaped there. -/
theorem assemble_low {ps : List Piece} (h : ∀ p ∈ ps, p.Plain) {d : CodePoint} {rest : Text}
    (hps : assemble ps = d :: rest) (hd : low d = true) :
    ∃ m qs, ps = .unit m :: qs ∧ low m = true := by
  cases ps with
  | nil => cases hps
  | cons p ps =>
    cases p with
    | char c =>
      rw [assemble] at hps
      cases hps
      rw [(h _ List.mem_cons_self).2] at hd
      cases hd
    | unit n =>
      have hn : n < 0x10000 := h _ List.mem_cons_self
      refine ⟨n, ps, rfl, ?_⟩
      by_cases hjoin : ∃ m qs, ps = .unit m :: qs ∧ (high n && low m) = true
      · obtain ⟨m, qs, rfl, hboth⟩ := hjoin
        rw [assemble, if_pos hboth, List.cons.injEq] at hps
        obtain ⟨hhigh, hlow⟩ := Bool.and_eq_true_iff.mp hboth
        rw [← hps.1, (combine_plain hhigh hlow).2] at hd
        cases hd
      · have halone : assemble (.unit n :: ps) = Fin.ofNat 0x110000 n :: assemble ps := by
          cases ps with
          | nil => rfl
          | cons q qs =>
            cases q with
            | char c => rfl
            | unit m => rw [assemble, if_neg fun hboth => hjoin ⟨m, qs, rfl, hboth⟩]
        rw [halone] at hps
        cases hps
        rw [ofNat_unit hn] at hd
        exact hd

theorem assemble_not_hasPair : ∀ {ps : List Piece}, (∀ p ∈ ps, p.Plain) → ¬ HasPair (assemble ps)
  | [], _ => Text.not_hasPair_nil
  | .char c :: rest, h => by
    have hrest := assemble_not_hasPair fun p hp => h p (List.mem_cons_of_mem _ hp)
    rw [assemble, hasPair_cons, (h _ List.mem_cons_self).1]
    simpa using hrest
  | [.unit n], h => by
    have halone : assemble [.unit n] = [Fin.ofNat 0x110000 n] := rfl
    rw [halone, hasPair_cons]
    rintro (⟨-, d, rest, heq, -⟩ | hpair)
    · cases heq
    · exact Text.not_hasPair_nil hpair
  | .unit n :: .char c :: rest, h => by
    have htail : ∀ p ∈ Piece.char c :: rest, p.Plain := fun p hp => h p (List.mem_cons_of_mem _ hp)
    have hrest := assemble_not_hasPair htail
    have hc := h (.char c) (by simp)
    have halone : assemble (.unit n :: .char c :: rest) =
        Fin.ofNat 0x110000 n :: assemble (.char c :: rest) := rfl
    rw [halone, hasPair_cons]
    rintro (⟨-, d, rest', heq, hd⟩ | hpair)
    · rw [assemble] at heq
      cases heq
      rw [hc.2] at hd
      cases hd
    · exact hrest hpair
  | .unit n :: .unit m :: rest, h => by
    by_cases hboth : (high n && low m) = true
    · have htail : ∀ p ∈ rest, p.Plain := fun p hp => h p (by simp [hp])
      have hrest := assemble_not_hasPair htail
      obtain ⟨hhigh, hlow⟩ := Bool.and_eq_true_iff.mp hboth
      rw [assemble, if_pos hboth, hasPair_cons, (combine_plain hhigh hlow).1]
      simpa using hrest
    · have htail : ∀ p ∈ Piece.unit m :: rest, p.Plain :=
        fun p hp => h p (List.mem_cons_of_mem _ hp)
      have hrest := assemble_not_hasPair htail
      have hn : n < 0x10000 := h _ List.mem_cons_self
      rw [assemble, if_neg hboth, hasPair_cons]
      rintro (⟨hhigh, d, rest', heq, hd⟩ | hpair)
      · obtain ⟨m', qs, hps, hm⟩ := assemble_low htail heq hd
        cases hps
        rw [ofNat_unit hn] at hhigh
        exact hboth (Bool.and_eq_true_iff.mpr ⟨hhigh, hm⟩)
      · exact hrest hpair

theorem hexVal_lt {c : CodePoint} {n : Nat} (h : hexVal c = some n) : n < 16 := by
  unfold hexVal at h
  split at h
  · cases h
    omega
  · split at h
    · cases h
      omega
    · split at h
      · cases h
        omega
      · cases h

theorem hex4Val_lt {a b c d : CodePoint} {n : Nat} (h : hex4Val a b c d = some n) :
    n < 0x10000 := by
  unfold hex4Val at h
  simp only [Option.bind_eq_bind, Option.pure_def, Option.bind_eq_some_iff, Option.some.injEq] at h
  obtain ⟨a', ha, b', hb, c', hc, d', hd, rfl⟩ := h
  have := hexVal_lt ha
  have := hexVal_lt hb
  have := hexVal_lt hc
  have := hexVal_lt hd
  omega

theorem shortEscape_plain {c d : CodePoint} (h : shortEscape c = some d) :
    high d = false ∧ low d = false := by
  unfold shortEscape at h
  split at h
  · cases h
    unfold high low
    exact ⟨decide_eq_false (by omega), decide_eq_false (by omega)⟩
  · repeat' split at h
    all_goals
      cases h
      try exact ⟨by decide, by decide⟩

/-- The pieces of a text without surrogates. -/
theorem scanPieces_text {t : Text} {ps : List Piece} {rest : Text} (ht : Plain t)
    (h : scanPieces t = some (ps, rest)) : (∀ p ∈ ps, p.Plain) ∧ Plain rest := by
  fun_induction scanPieces t generalizing ps rest with
  | case1 | case3 | case5 | case7 => cases h
  | case2 c t hquote =>
    cases h
    exact ⟨fun p hp => (by cases hp), ht.subset (by simp +contextual)⟩
  | case4 c hquote hback e hunit a b c' d t ih =>
    obtain ⟨n, hn, ⟨ps', rest'⟩, hps, heq⟩ := by
      simpa only [Option.bind_eq_bind, Option.bind_eq_some_iff] using h
    cases heq
    obtain ⟨hrest, hplain⟩ := ih (ht.subset (by simp +contextual)) hps
    exact ⟨List.forall_mem_cons.mpr ⟨hex4Val_lt hn, hrest⟩, hplain⟩
  | case6 c hquote hback e t hunit ih =>
    obtain ⟨c', hc, ⟨ps', rest'⟩, hps, heq⟩ := by
      simpa only [Option.bind_eq_bind, Option.bind_eq_some_iff] using h
    cases heq
    obtain ⟨hrest, hplain⟩ := ih (ht.subset (by simp +contextual)) hps
    exact ⟨List.forall_mem_cons.mpr ⟨shortEscape_plain hc, hrest⟩, hplain⟩
  | case8 c t hquote hback hcontrol ih =>
    obtain ⟨⟨ps', rest'⟩, hps, heq⟩ := by
      simpa only [Option.bind_eq_bind, Option.bind_eq_some_iff] using h
    cases heq
    obtain ⟨hrest, hplain⟩ := ih (ht.subset (by simp +contextual)) hps
    exact ⟨List.forall_mem_cons.mpr ⟨ht c List.mem_cons_self, hrest⟩, hplain⟩

theorem scanString_text {t s rest : Text} (ht : Plain t) (h : scanString t = some (s, rest)) :
    ¬ HasPair s ∧ Plain rest := by
  obtain ⟨⟨ps, rest'⟩, hps, heq⟩ := Option.map_eq_some_iff.mp h
  cases heq
  obtain ⟨hpieces, hrest⟩ := scanPieces_text ht hps
  exact ⟨assemble_not_hasPair hpieces, hrest⟩

/-! ## Documents -/

mutual

/-- No string of the document, and no key, spells a surrogate pair. -/
def Tree.PairFree : Tree → Prop
  | .str s => ¬ HasPair s
  | .arr items => PairFreeItems items
  | .obj fields => PairFreeFields fields
  | _ => True

def Tree.PairFreeItems : List Tree → Prop
  | [] => True
  | item :: items => item.PairFree ∧ PairFreeItems items

def Tree.PairFreeFields : List (Text × Tree) → Prop
  | [] => True
  | (key, value) :: fields => ¬ HasPair key ∧ value.PairFree ∧ PairFreeFields fields

end

theorem skipSpaces_text {t : Text} (ht : Plain t) : Plain (skipSpaces t) :=
  ht.subset fun _ hc => (List.dropWhile_sublist _).subset hc

theorem expect_text {n : Nat} {t rest : Text} (ht : Plain t) (h : expect n t = some rest) :
    Plain rest := by
  have hskip := skipSpaces_text ht
  unfold expect at h
  split at h
  · cases h
  · rename_i c rest' heq
    rw [heq] at hskip
    split at h
    · cases h
      exact hskip.subset (by simp +contextual)
    · cases h

theorem scanFraction_text {t : Text} (ht : Plain t) : Plain (scanFraction t).2 := by
  unfold scanFraction
  split
  · exact ht
  · rename_i c rest
    split
    · exact ht.subset fun d hd =>
        List.mem_cons_of_mem _ ((List.dropWhile_sublist _).subset hd)
    · exact ht

theorem scanExponent_plain {t : Text} (ht : Plain t) : Plain (scanExponent t).2 := by
  unfold scanExponent
  split
  · exact ht
  · rename_i e rest
    have hdigits : ∀ d ∈ (if rest.head?.any (fun c => c.val = 45 ∨ c.val = 43) then rest.tail
        else rest), d ∈ rest := by
      intro d hd
      split at hd
      · exact List.mem_of_mem_tail hd
      · exact hd
    simp only
    generalize (if rest.head?.any (fun c => c.val = 45 ∨ c.val = 43) then rest.tail
      else rest) = digits at *
    split
    · split
      · exact ht.subset fun d hd =>
          List.mem_cons_of_mem _ (hdigits d ((List.dropWhile_sublist _).subset hd))
      · exact ht
    · exact ht

theorem scanUnsigned_text {negative : Bool} {t rest : Text} {tree : Tree} (ht : Plain t)
    (h : scanUnsigned negative t = some (tree, rest)) : tree.PairFree ∧ Plain rest := by
  have hdrop : Plain (t.drop (integerPart (t.takeWhile isDigit)).length) :=
    ht.subset fun _ hc => List.mem_of_mem_drop hc
  have hrest := scanExponent_plain (scanFraction_text hdrop)
  unfold scanUnsigned at h
  simp only at h
  split at h
  · cases h
  · split at h
    · split at h
      · cases h
      · cases h
        exact ⟨trivial, hrest⟩
    · cases h
      exact ⟨trivial, hrest⟩

theorem after_text {word : String} {t rest : Text} (ht : Plain t) (h : after word t = some rest) :
    Plain rest := by
  unfold after at h
  split at h
  · cases h
    exact ht.subset fun _ hc => List.mem_of_mem_drop hc
  · cases h

theorem scanScalar_text {t rest : Text} {tree : Tree} (ht : Plain t)
    (h : scanScalar t = some (tree, rest)) : tree.PairFree ∧ Plain rest := by
  have hword : ∀ {word : String} {rest' : Text} {tree' : Tree}, after word t = some rest' →
      tree'.PairFree → some (tree', rest') = some (tree, rest) → tree.PairFree ∧ Plain rest := by
    intro word rest' tree' hw htree heq
    cases heq
    exact ⟨htree, after_text ht hw⟩
  unfold scanScalar at h
  split at h
  · exact hword ‹_› (by trivial) h
  split at h
  · exact hword ‹_› (by trivial) h
  split at h
  · exact hword ‹_› (by trivial) h
  split at h
  · exact hword ‹_› (by trivial) h
  split at h
  · exact hword ‹_› (by trivial) h
  split at h
  · exact hword ‹_› (by trivial) h
  split at h
  · exact scanUnsigned_text (after_text ht ‹_›) h
  · exact scanUnsigned_text ht h

/-- What holds of the three readers with this fuel. -/
def ReadsPairFree (fuel : Nat) : Prop :=
  (∀ {t rest : Text} {tree : Tree}, Plain t → scanValue fuel t = some (tree, rest) →
    tree.PairFree ∧ Plain rest) ∧
  (∀ {t rest : Text} {items : List Tree}, Plain t → scanItems fuel t = some (items, rest) →
    Tree.PairFreeItems items ∧ Plain rest) ∧
  (∀ {t rest : Text} {fields : List (Text × Tree)}, Plain t →
    scanFields fuel t = some (fields, rest) → Tree.PairFreeFields fields ∧ Plain rest)

theorem reads_pairFree (fuel : Nat) : ReadsPairFree fuel := by
  induction fuel with
  | zero =>
    refine ⟨fun _ h => ?_, fun _ h => ?_, fun _ h => ?_⟩
    · rw [scanValue] at h
      cases h
    · rw [scanItems] at h
      cases h
    · rw [scanFields] at h
      cases h
  | succ fuel ih =>
    obtain ⟨hvalue, hitems, hfields⟩ := ih
    refine ⟨fun {t rest tree} ht h => ?_, fun {t rest items} ht h => ?_,
      fun {t rest fields} ht h => ?_⟩
    · rw [scanValue.eq_def] at h
      simp only at h
      split at h
      · cases h
      · rename_i c t
        have htail : Plain t := ht.subset (by simp +contextual)
        split at h
        · obtain ⟨⟨s, rest'⟩, hs, heq⟩ := Option.map_eq_some_iff.mp h
          cases heq
          exact scanString_text htail hs
        split at h
        · split at h
          · cases h
            exact ⟨trivial, expect_text htail ‹_›⟩
          · obtain ⟨⟨items, rest'⟩, hread, heq⟩ := Option.map_eq_some_iff.mp h
            cases heq
            exact hitems (skipSpaces_text htail) hread
        split at h
        · split at h
          · cases h
            exact ⟨trivial, expect_text htail ‹_›⟩
          · obtain ⟨⟨fields, rest'⟩, hread, heq⟩ := Option.map_eq_some_iff.mp h
            cases heq
            exact hfields (skipSpaces_text htail) hread
        · exact scanScalar_text ht h
    · rw [scanItems] at h
      obtain ⟨⟨item, t'⟩, hitem, h⟩ := Option.bind_eq_some_iff.mp h
      obtain ⟨hfree, hplain⟩ := hvalue ht hitem
      simp only at h
      split at h
      · cases h
        exact ⟨⟨hfree, trivial⟩, expect_text hplain ‹_›⟩
      · obtain ⟨t', hcomma, h⟩ := Option.bind_eq_some_iff.mp h
        obtain ⟨⟨more, rest'⟩, hmore, heq⟩ := Option.bind_eq_some_iff.mp h
        cases heq
        obtain ⟨hfrees, hplain⟩ := hitems (skipSpaces_text (expect_text hplain hcomma)) hmore
        exact ⟨⟨hfree, hfrees⟩, hplain⟩
    · cases t with
      | nil =>
        rw [scanFields] at h
        cases h
      | cons c opened =>
        have hopened : Plain opened := ht.subset (by simp +contextual)
        rw [scanFields] at h
        simp only [Option.bind_eq_bind] at h
        by_cases hquote : c.val = 34
        · rw [if_pos hquote, Option.bind_some] at h
          obtain ⟨⟨key, named⟩, hkey, h⟩ := Option.bind_eq_some_iff.mp h
          obtain ⟨after, hcolon, h⟩ := Option.bind_eq_some_iff.mp h
          obtain ⟨⟨value, t'⟩, hread, h⟩ := Option.bind_eq_some_iff.mp h
          obtain ⟨hkey, hplain⟩ := scanString_text hopened hkey
          obtain ⟨hfree, hplain⟩ := hvalue (skipSpaces_text (expect_text hplain hcolon)) hread
          simp only at h
          split at h
          · cases h
            exact ⟨⟨hkey, hfree, trivial⟩, expect_text hplain ‹_›⟩
          · obtain ⟨t', hcomma, h⟩ := Option.bind_eq_some_iff.mp h
            obtain ⟨⟨more, rest'⟩, hmore, heq⟩ := Option.bind_eq_some_iff.mp h
            cases heq
            obtain ⟨hfrees, hplain⟩ := hfields (skipSpaces_text (expect_text hplain hcomma)) hmore
            exact ⟨⟨hkey, hfree, hfrees⟩, hplain⟩
        · rw [if_neg hquote] at h
          cases h

/-- A document without surrogates has no string that spells a pair. -/
theorem scan_pairFree {t : Text} {tree : Tree} (ht : Plain t) (h : scan t = some tree) :
    tree.PairFree := by
  unfold scan at h
  split at h
  · rename_i tree' rest hread
    split at h
    · cases h
      exact ((reads_pairFree _).1 (skipSpaces_text ht) hread).1
    · cases h
  · cases h

/-! ## What is written is ASCII -/

/-- Every code point of the string is below 128. -/
def Ascii (s : Text) : Prop := ∀ c ∈ s, c.val < 128

theorem ascii_iff {s : Text} : s.all (fun c => decide (c.val < 128)) = true ↔ Ascii s := by
  unfold Ascii
  simp only [List.all_eq_true, decide_eq_true_iff]

instance asciiDecidable (s : Text) : Decidable (Ascii s) := decidable_of_iff _ ascii_iff

theorem ascii_nil : Ascii [] := fun c hc => by cases hc

theorem ascii_cons {c : CodePoint} {s : Text} : Ascii (c :: s) ↔ c.val < 128 ∧ Ascii s :=
  List.forall_mem_cons

theorem ascii_append {s t : Text} : Ascii (s ++ t) ↔ Ascii s ∧ Ascii t := List.forall_mem_append

theorem Ascii.plain {s : Text} (h : Ascii s) : Plain s :=
  Text.plain_of_lt fun c hc => lt_trans (h c hc) (by decide)

theorem ascii_digits {s : Text} (h : ∀ c ∈ s, isDigit c = true) : Ascii s := by
  intro c hc
  have hdigit := h c hc
  unfold isDigit at hdigit
  have hdigit := of_decide_eq_true hdigit
  omega

theorem ascii_digitsText (n : Nat) : Ascii (digitsText n) := ascii_digits (digitsText_isDigit n)

theorem ascii_escapeUnit (n : Nat) : Ascii (escapeUnit n) := by
  have hdigit : ∀ k < 16, (Text.ofChar (Sha256.digit k)).val < 128 := by decide
  have hmod : ∀ k : Nat, k % 16 < 16 := fun k => Nat.mod_lt _ (by decide)
  refine ascii_append.mpr ⟨by decide, ?_⟩
  simp only [ascii_cons]
  exact ⟨hdigit _ (hmod _), hdigit _ (hmod _), hdigit _ (hmod _), hdigit _ (hmod _), ascii_nil⟩

theorem ascii_escape (c : CodePoint) : Ascii (escape c) := by
  unfold escape
  -- the short escapes come first, then the plain characters and the units
  iterate 7
    split
    · decide
  split
  · exact ascii_cons.mpr ⟨by omega, ascii_nil⟩
  split
  · exact ascii_escapeUnit _
  · exact ascii_append.mpr ⟨ascii_escapeUnit _, ascii_escapeUnit _⟩

theorem ascii_quoted (s : Text) : Ascii (quoted s) := by
  refine ascii_append.mpr ⟨ascii_cons.mpr ⟨by decide, ?_⟩, by decide⟩
  intro c hc
  obtain ⟨d, -, hc⟩ := List.mem_flatMap.mp hc
  exact ascii_escape d c hc

theorem ascii_exponentText (e : Int) : Ascii (exponentText e) := by
  unfold exponentText
  refine ascii_cons.mpr ⟨by split <;> decide, ?_⟩
  split
  · exact ascii_cons.mpr ⟨by decide, ascii_digitsText _⟩
  · exact ascii_digitsText _

theorem ascii_pointed {ds : Text} (h : Ascii ds) : Ascii (pointed ds) := by
  cases ds with
  | nil => exact h
  | cons d ds =>
    cases ds with
    | nil => exact h
    | cons d' ds =>
      obtain ⟨hd, hrest⟩ := ascii_cons.mp h
      exact ascii_cons.mpr ⟨hd, ascii_cons.mpr ⟨by decide, hrest⟩⟩

theorem ascii_unsignedLiteral (n : Nat) (e : Int) : Ascii (unsignedLiteral n e) := by
  have hds := ascii_digitsText n
  unfold unsignedLiteral
  simp only
  split
  · exact ascii_append.mpr ⟨ascii_digitsText _, by decide⟩
  split
  · exact ascii_append.mpr ⟨fun c hc => hds c (List.mem_of_mem_take hc),
      ascii_cons.mpr ⟨by decide, fun c hc => hds c (List.mem_of_mem_drop hc)⟩⟩
  split
  · exact ascii_append.mpr ⟨ascii_append.mpr
      ⟨by decide, ascii_digits (replicate_isDigit _)⟩, hds⟩
  · exact ascii_append.mpr ⟨ascii_pointed hds,
      ascii_cons.mpr ⟨by decide, ascii_exponentText _⟩⟩

theorem ascii_literal (number : Decimal) : Ascii (literal number) := by
  unfold literal
  split
  · exact ascii_cons.mpr ⟨by decide, ascii_unsignedLiteral _ _⟩
  · exact ascii_unsignedLiteral _ _

theorem ascii_intText (n : Int) : Ascii (intText n) := by
  by_cases h : 0 ≤ n
  · rw [intText_nonneg h]
    exact ascii_digitsText _
  · rw [intText_neg (by omega)]
    exact ascii_cons.mpr ⟨by decide, ascii_digitsText _⟩

theorem ascii_spaces {pad : Text} (h : ∀ c ∈ pad, isSpace c = true) : Ascii pad := by
  intro c hc
  have hspace := h c hc
  unfold isSpace at hspace
  have hspace := of_decide_eq_true hspace
  omega

theorem ascii_listed {pad : Text} (hpad : Ascii pad) {texts : List Text}
    (h : ∀ t ∈ texts, Ascii t) : Ascii (listed pad texts) := by
  induction texts with
  | nil => exact ascii_nil
  | cons t texts ih =>
    have hrest := ih fun u hu => h u (List.mem_cons_of_mem _ hu)
    cases texts with
    | nil => exact h t List.mem_cons_self
    | cons u texts =>
      exact ascii_append.mpr ⟨h t List.mem_cons_self,
        ascii_cons.mpr ⟨by decide, ascii_append.mpr ⟨hpad, hrest⟩⟩⟩

variable {style : Style}

mutual

theorem render_ascii : ∀ tree : Tree, Ascii (render style tree)
  | .null => show Ascii (Text.ofString "null") by decide
  | .bool true => show Ascii (Text.ofString "true") by decide
  | .bool false => show Ascii (Text.ofString "false") by decide
  | .int n => ascii_intText n
  | .float number => ascii_literal number
  | .constant name => show Ascii name.text by cases name <;> decide
  | .str s => ascii_quoted s
  | .arr items => ascii_append.mpr ⟨ascii_cons.mpr ⟨by decide,
      ascii_listed (ascii_spaces style.spaces) (renderItems_ascii items)⟩, by decide⟩
  | .obj fields => ascii_append.mpr ⟨ascii_cons.mpr ⟨by decide,
      ascii_listed (ascii_spaces style.spaces) (renderFields_ascii fields)⟩, by decide⟩

theorem renderItems_ascii : ∀ items : List Tree, ∀ t ∈ renderItems style items, Ascii t
  | [] => fun t ht => by cases ht
  | item :: items => List.forall_mem_cons.mpr ⟨render_ascii item, renderItems_ascii items⟩

theorem renderFields_ascii : ∀ fields : List (Text × Tree),
    ∀ t ∈ renderFields style fields, Ascii t
  | [] => fun t ht => by cases ht
  | (key, value) :: fields => by
    have hvalue : Ascii (style.pad ++ render style value) :=
      ascii_append.mpr ⟨ascii_spaces style.spaces, render_ascii value⟩
    have hfield : Ascii (quoted key ++ 58 :: (style.pad ++ render style value)) :=
      ascii_append.mpr ⟨ascii_quoted key, ascii_cons.mpr ⟨by decide, hvalue⟩⟩
    exact List.forall_mem_cons.mpr ⟨hfield, renderFields_ascii fields⟩

end

theorem write_ascii {tree : Tree} {text : Text} (h : write style tree = some text) :
    Ascii text := by
  obtain ⟨-, rfl⟩ := write_eq_some.mp h
  exact render_ascii tree

end JsonText
