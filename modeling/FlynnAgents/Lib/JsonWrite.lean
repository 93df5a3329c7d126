-- Floats and whole documents as Python writes them, and the law that what it writes is
-- read back.
import FlynnAgents.Lib.JsonText

namespace JsonText

open Text (ofChar ofString joined)

/-! ## Floats -/

def digitsText (n : Nat) : Text := (Nat.toDigits 10 n).map ofChar

/-- An exponent with its sign, of two digits at least. -/
def exponentText (e : Int) : Text :=
  (if e < 0 then 45 else 43) ::
    if e.natAbs < 10 then 48 :: digitsText e.natAbs else digitsText e.natAbs

/-- `d.ddd`, or `d` if there is one digit. -/
def pointed : Text → Text
  | [] => []
  | [d] => [d]
  | d :: ds => d :: 46 :: ds

/-- A decimal in the format of `repr`. -/
def unsignedLiteral (n : Nat) (e : Int) : Text :=
  let ds := digitsText n
  let point : Int := ds.length + e
  if e = -1 ∧ n % 10 = 0 then digitsText (n / 10) ++ ofString ".0"
  else if e < 0 ∧ 0 < point ∧ point ≤ 16 then
    ds.take point.toNat ++ 46 :: ds.drop point.toNat
  else if -4 < point ∧ point ≤ 0 then
    ofString "0." ++ List.replicate (-point).toNat 48 ++ ds
  else pointed ds ++ 101 :: exponentText (point - 1)

def literal (number : Decimal) : Text :=
  if number.negative then 45 :: unsignedLiteral number.digits number.exponent
  else unsignedLiteral number.digits number.exponent

theorem digitsVal_digitsText (n : Nat) : digitsVal (digitsText n) = n := digits_print n

theorem digitsText_isDigit (n : Nat) : ∀ c ∈ digitsText n, isDigit c = true := digits_isDigit n

theorem digitsText_ne_nil (n : Nat) : digitsText n ≠ [] := by
  simp [digitsText, Nat.toDigits_ne_nil]

theorem digitsVal_zero (ds : Text) : digitsVal (48 :: ds) = digitsVal ds := rfl

theorem digitsVal_zeros (k : Nat) (ds : Text) :
    digitsVal (List.replicate k 48 ++ ds) = digitsVal ds := by
  induction k with
  | zero => rfl
  | succ k ih =>
    rw [List.replicate_succ, List.cons_append, digitsVal_zero, ih]

theorem digitsVal_snoc (ds : Text) : digitsVal (ds ++ [48]) = 10 * digitsVal ds := by
  simp [digitsVal]

theorem replicate_isDigit (k : Nat) :
    ∀ c ∈ List.replicate k (48 : CodePoint), isDigit c = true := by
  intro c hc
  rw [(List.mem_replicate.mp hc).2]
  decide

/-- The digits of a number of two digits or more are an integer part, also cut short. -/
theorem integerPart_take {n k : Nat} (h : 0 < n) :
    integerPart ((digitsText n).take k) = (digitsText n).take k := by
  obtain ⟨c, rest, heq, hc⟩ := digits_lead n h
  unfold digitsText
  rw [heq, List.map_cons]
  cases k with
  | zero => rfl
  | succ k =>
    rw [List.take_succ_cons]
    unfold integerPart
    simp only
    rw [Text.ofChar_val, if_neg]
    intro h
    exact hc (Char.ext (UInt32.toNat_inj.mp h))

theorem integerPart_single (c : CodePoint) : integerPart [c] = [c] := by
  unfold integerPart
  simp

/-- Digits, up to a character that is none. -/
theorem takeWhile_stop {ds t : Text} {c : CodePoint} (hds : ∀ c ∈ ds, isDigit c = true)
    (h : isDigit c = false) : (ds ++ c :: t).takeWhile isDigit = ds := by
  rw [List.takeWhile_append_of_pos hds, List.takeWhile_cons_of_neg (by rw [h]; decide),
    List.append_nil]

theorem dropWhile_stop {ds t : Text} {c : CodePoint} (hds : ∀ c ∈ ds, isDigit c = true)
    (h : isDigit c = false) : (ds ++ c :: t).dropWhile isDigit = c :: t := by
  rw [List.dropWhile_append_of_pos hds, List.dropWhile_cons_of_neg (by rw [h]; decide)]

theorem dropWhile_digits {ds t : Text} (hds : ∀ c ∈ ds, isDigit c = true) (h : Delimited t) :
    (ds ++ t).dropWhile isDigit = t := by
  rw [List.dropWhile_append_of_pos hds]
  cases t with
  | nil => rfl
  | cons c rest => exact List.dropWhile_cons_of_neg (by rw [(h c rest rfl).1]; decide)

/-- A number with a fraction and no exponent. -/
theorem scanUnsigned_fraction (negative : Bool) {whole part t : Text} (hne : whole ≠ [])
    (hwhole : integerPart whole = whole) (hdigits : ∀ c ∈ whole, isDigit c = true)
    (hpart : part ≠ []) (hfraction : ∀ c ∈ part, isDigit c = true) (ht : Delimited t) :
    scanUnsigned negative (whole ++ 46 :: (part ++ t)) =
      some (.float ⟨negative, digitsVal (whole ++ part), -(part.length : Int)⟩, t) := by
  have hscan : scanFraction (46 :: (part ++ t)) = (some part, t) := by
    unfold scanFraction
    simp only
    rw [takeWhile_digits hfraction ht, dropWhile_digits hfraction ht, if_pos ⟨by decide, hpart⟩]
  unfold scanUnsigned
  simp only
  rw [takeWhile_stop hdigits (by decide), hwhole, if_neg hne, List.drop_left, hscan,
    scanExponent_delimited ht]
  simp

/-- A signed exponent of these digits. -/
theorem scanExponent_signed (negative : Bool) {ds t : Text} (hne : ds ≠ [])
    (hdigits : ∀ c ∈ ds, isDigit c = true) (ht : Delimited t) :
    scanExponent (101 :: (if negative then 45 else 43) :: (ds ++ t)) =
      (some (if negative then -(digitsVal ds : Int) else digitsVal ds), t) := by
  have htake := takeWhile_digits hdigits ht
  have hdrop := dropWhile_digits hdigits ht
  cases negative <;> simp [scanExponent, htake, hdrop, hne]

/-- An exponent with its sign is read back. -/
theorem scanExponent_text {e : Int} {t : Text} (ht : Delimited t) :
    scanExponent (101 :: (exponentText e ++ t)) = (some e, t) := by
  have hread : ∀ ds : Text, ds ≠ [] → (∀ c ∈ ds, isDigit c = true) → digitsVal ds = e.natAbs →
      scanExponent (101 :: (if e < 0 then 45 else 43) :: (ds ++ t)) = (some e, t) := by
    intro ds hne hdigits hval
    have hsigned := scanExponent_signed (decide (e < 0)) hne hdigits ht
    rw [hval] at hsigned
    simp only [decide_eq_true_eq] at hsigned
    rw [hsigned]
    split <;> congr <;> omega
  unfold exponentText
  by_cases hten : e.natAbs < 10
  · rw [if_pos hten]
    refine hread (48 :: digitsText e.natAbs) (by simp) ?_ ?_
    · intro c hc
      rcases List.mem_cons.mp hc with rfl | hc
      · decide
      · exact digitsText_isDigit _ c hc
    · rw [digitsVal_zero, digitsVal_digitsText]
  · rw [if_neg hten]
    exact hread _ (digitsText_ne_nil _) (digitsText_isDigit _) (digitsVal_digitsText _)

/-- A number with an exponent, and a fraction if it has more digits than one. -/
theorem scanUnsigned_exponent (negative : Bool) {ds t : Text} {e : Int} (hne : ds ≠ [])
    (hdigits : ∀ c ∈ ds, isDigit c = true) (ht : Delimited t) :
    scanUnsigned negative (pointed ds ++ 101 :: (exponentText e ++ t)) =
      some (.float ⟨negative, digitsVal ds, e - ((ds.length : Int) - 1)⟩, t) := by
  obtain ⟨d, ds, rfl⟩ := List.exists_cons_of_ne_nil hne
  have hd : ∀ c ∈ [d], isDigit c = true := fun c hc => hdigits c (by simp_all)
  cases ds with
  | nil =>
    have hscan : scanFraction (101 :: (exponentText e ++ t)) =
        (none, 101 :: (exponentText e ++ t)) := by
      unfold scanFraction
      simp only
      rw [if_neg fun h => absurd h.1 (by decide)]
    unfold scanUnsigned pointed
    simp only
    rw [takeWhile_stop hd (by decide), integerPart_single, if_neg (by simp), List.drop_left, hscan]
    simp only
    rw [scanExponent_text ht]
    simp
  | cons d' ds =>
    have hrest : ∀ c ∈ d' :: ds, isDigit c = true :=
      fun c hc => hdigits c (List.mem_cons_of_mem _ hc)
    have hscan : scanFraction (46 :: (d' :: ds ++ 101 :: (exponentText e ++ t))) =
        (some (d' :: ds), 101 :: (exponentText e ++ t)) := by
      unfold scanFraction
      simp only
      rw [takeWhile_stop hrest (by decide), dropWhile_stop hrest (by decide),
        if_pos ⟨by decide, by simp⟩]
    have hshape : pointed (d :: d' :: ds) ++ 101 :: (exponentText e ++ t) =
        [d] ++ 46 :: (d' :: ds ++ 101 :: (exponentText e ++ t)) := rfl
    unfold scanUnsigned
    simp only
    rw [hshape, takeWhile_stop hd (by decide), integerPart_single, if_neg (by simp), List.drop_left,
      hscan]
    simp only
    rw [scanExponent_text ht]
    simp

/-- A decimal is read back from its text. -/
theorem scanUnsigned_literal (negative : Bool) (n : Nat) (e : Int) {t : Text} (ht : Delimited t) :
    scanUnsigned negative (unsignedLiteral n e ++ t) = some (.float ⟨negative, n, e⟩, t) := by
  have hlength : 0 < (digitsText n).length := List.length_pos_iff.mpr (digitsText_ne_nil n)
  unfold unsignedLiteral
  simp only
  split
  · rename_i h
    have hpart : ∀ c ∈ [(48 : CodePoint)], isDigit c = true := replicate_isDigit 1
    have hread := scanUnsigned_fraction negative (digitsText_ne_nil (n / 10))
      (integerPart_digits (n / 10)) (digitsText_isDigit _) (by simp) hpart ht
    rw [List.append_assoc]
    refine hread.trans ?_
    have hdigits : 10 * (n / 10) = n := by omega
    rw [digitsVal_snoc, digitsVal_digitsText, h.1, hdigits]
    rfl
  split
  · rename_i h
    have hn : 0 < n := by
      rcases Nat.eq_zero_or_pos n with rfl | hn
      · have hone : (digitsText 0).length = 1 := rfl
        omega
      · exact hn
    have hwhole : (digitsText n).take ((digitsText n).length + e).toNat ≠ [] := by
      rw [← List.length_pos_iff, List.length_take]
      omega
    have hpart : (digitsText n).drop ((digitsText n).length + e).toNat ≠ [] := by
      rw [← List.length_pos_iff, List.length_drop]
      omega
    have hread := scanUnsigned_fraction negative hwhole (integerPart_take hn)
      (fun c hc => digitsText_isDigit n c (List.mem_of_mem_take hc)) hpart
      (fun c hc => digitsText_isDigit n c (List.mem_of_mem_drop hc)) ht
    rw [List.append_assoc]
    refine hread.trans ?_
    rw [List.take_append_drop, digitsVal_digitsText, List.length_drop]
    have he : -(((digitsText n).length - ((digitsText n).length + e).toNat : Nat) : Int) = e := by
      omega
    rw [he]
  split
  · rename_i h
    have hpart : List.replicate (-((digitsText n).length + e)).toNat 48 ++ digitsText n ≠ [] := by
      simp [digitsText_ne_nil]
    have hdigits : ∀ c ∈ List.replicate (-((digitsText n).length + e)).toNat 48 ++ digitsText n,
        isDigit c = true := by
      intro c hc
      rcases List.mem_append.mp hc with hc | hc
      · exact replicate_isDigit _ c hc
      · exact digitsText_isDigit n c hc
    have hread := scanUnsigned_fraction negative (List.cons_ne_nil 48 []) (integerPart_single 48)
      (replicate_isDigit 1) hpart hdigits ht
    rw [List.append_assoc, List.append_assoc]
    rw [List.append_assoc] at hread
    refine hread.trans ?_
    rw [List.singleton_append, digitsVal_zero, digitsVal_zeros, digitsVal_digitsText,
      List.length_append, List.length_replicate]
    have he : -(((-((digitsText n).length + e)).toNat + (digitsText n).length : Nat) : Int) =
        e := by
      omega
    rw [he]
  · rw [List.append_assoc, List.cons_append,
      scanUnsigned_exponent negative (digitsText_ne_nil n) (digitsText_isDigit n) ht,
      digitsVal_digitsText]
    have he : ((digitsText n).length : Int) + e - 1 - ((digitsText n).length - 1) = e := by omega
    rw [he]

theorem unsignedLiteral_head (n : Nat) (e : Int) :
    ∃ c rest, unsignedLiteral n e = c :: rest ∧ isDigit c = true := by
  have hhead : ∀ {n : Nat} {k : Nat} {t : Text}, 0 < k →
      ∃ c rest, (digitsText n).take k ++ t = c :: rest ∧ isDigit c = true := by
    intro n k t hk
    obtain ⟨d, ds, hds⟩ := List.exists_cons_of_ne_nil (digitsText_ne_nil n)
    refine ⟨d, ds.take (k - 1) ++ t, ?_, digitsText_isDigit n d (by rw [hds]; simp)⟩
    obtain ⟨k, rfl⟩ := Nat.exists_eq_add_of_lt hk
    rw [hds]
    simp
  unfold unsignedLiteral
  simp only
  split
  · have := hhead (n := n / 10) (k := (digitsText (n / 10)).length) (t := ofString ".0")
      (List.length_pos_iff.mpr (digitsText_ne_nil _))
    rwa [List.take_length] at this
  split
  · exact hhead (by omega)
  split
  · exact ⟨48, _, rfl, by decide⟩
  · obtain ⟨d, ds, hds⟩ := List.exists_cons_of_ne_nil (digitsText_ne_nil n)
    have hd := digitsText_isDigit n d (by rw [hds]; simp)
    rw [hds]
    cases ds with
    | nil => exact ⟨d, _, rfl, hd⟩
    | cons d' ds => exact ⟨d, _, rfl, hd⟩

/-- The text is read as this float. -/
def ReadAs (text : Text) (number : Decimal) : Prop :=
  (∃ c rest, text = c :: rest ∧ (isDigit c = true ∨ c = 45)) ∧
    ∀ t, Delimited t → scanScalar (text ++ t) = some (.float number, t)

theorem literal_readAs (number : Decimal) : ReadAs (literal number) number := by
  obtain ⟨negative, n, e⟩ := number
  obtain ⟨c, rest, hc, hdigit⟩ := unsignedLiteral_head n e
  cases negative with
  | false =>
    refine ⟨⟨c, rest, hc, .inl hdigit⟩, fun t ht => ?_⟩
    have hread := scanUnsigned_literal false n e ht
    unfold literal
    simp only [Bool.false_eq_true, if_false]
    rw [hc] at hread ⊢
    rw [List.cons_append, scanScalar_unsigned hdigit]
    exact hread
  | true =>
    refine ⟨⟨45, _, rfl, .inr rfl⟩, fun t ht => ?_⟩
    have hread := scanUnsigned_literal true n e ht
    unfold literal
    simp only [if_true]
    rw [hc] at hread ⊢
    rw [List.cons_append, List.cons_append, scanScalar_minus hdigit]
    exact hread

/-! ## The printer -/

/-- How a document is written: the spaces after a comma and a colon. -/
structure Style where
  pad : Text
  spaces : ∀ c ∈ pad, isSpace c = true

/-- The texts with a comma and spaces between each two. -/
def listed (pad : Text) : List Text → Text
  | [] => []
  | [t] => t
  | t :: u :: rest => t ++ 44 :: (pad ++ listed pad (u :: rest))

def Constant.text : Constant → Text
  | .nan => ofString "NaN"
  | .infinity => ofString "Infinity"
  | .minusInfinity => ofString "-Infinity"

mutual

/-- The text of `json.dumps` in a style, of dicts whose keys stand in their order. -/
def render (style : Style) : Tree → Text
  | .null => ofString "null"
  | .bool true => ofString "true"
  | .bool false => ofString "false"
  | .int n => intText n
  | .float number => literal number
  | .constant name => name.text
  | .str s => quoted s
  | .arr items => 91 :: listed style.pad (renderItems style items) ++ [93]
  | .obj fields => 123 :: listed style.pad (renderFields style fields) ++ [125]

def renderItems (style : Style) : List Tree → List Text
  | [] => []
  | item :: items => render style item :: renderItems style items

def renderFields (style : Style) : List (Text × Tree) → List Text
  | [] => []
  | (key, value) :: fields =>
    (quoted key ++ 58 :: (style.pad ++ render style value)) :: renderFields style fields

end

mutual

/-- Nothing in the document makes `json.dumps` raise: no integer with too many digits and,
as `allow_nan=False` has it, no NaN and no infinity. -/
def writable : Tree → Bool
  | .int n => shortInt n
  | .constant _ => false
  | .arr items => writableItems items
  | .obj fields => writableFields fields
  | _ => true

def writableItems : List Tree → Bool
  | [] => true
  | item :: items => writable item && writableItems items

def writableFields : List (Text × Tree) → Bool
  | [] => true
  | (_, value) :: fields => writable value && writableFields fields

end

/-- `json.dumps`, or nothing where it raises -/
def write (style : Style) (tree : Tree) : Option Text :=
  if writable tree then some (render style tree) else none

/-- Compact separators. -/
def compact : Style where
  pad := []
  spaces := fun c hc => by cases hc

/-- The separators that `json.dumps` has by default. -/
def spaced : Style where
  pad := [32]
  spaces := fun c hc => by
    rw [List.mem_singleton.mp hc]
    decide

variable {style : Style}

theorem write_eq_some {tree : Tree} {text : Text} :
    write style tree = some text ↔ writable tree = true ∧ render style tree = text := by
  unfold write
  split
  · rename_i h
    rw [Option.some.injEq, and_iff_right h]
  · rename_i h
    simp [h]

theorem write_isSome (tree : Tree) : (write style tree).isSome = writable tree := by
  unfold write
  split
  · rename_i h
    rw [h, Option.isSome_some]
  · rename_i h
    rw [Bool.eq_false_iff.mpr h, Option.isSome_none]

@[simp]
theorem writableItems_iff {items : List Tree} :
    writableItems items = true ↔ ∀ item ∈ items, writable item = true := by
  induction items with
  | nil => simp [writableItems]
  | cons item items ih => rw [writableItems, Bool.and_eq_true, ih, List.forall_mem_cons]

/-! ## Reading back what was written -/

/-- A text that a value or a field can begin with. -/
def Begins (t : Text) : Prop :=
  ∃ c rest, t = c :: rest ∧ isSpace c = false ∧ c.val ≠ 93 ∧ c.val ≠ 125

theorem Begins.append {t : Text} (h : Begins t) (u : Text) : Begins (t ++ u) := by
  obtain ⟨c, rest, rfl, hc⟩ := h
  exact ⟨c, rest ++ u, rfl, hc⟩

theorem Begins.skipSpaces {t : Text} (h : Begins t) : JsonText.skipSpaces t = t := by
  obtain ⟨c, rest, rfl, hspace, -⟩ := h
  exact skipSpaces_cons hspace rest

theorem Begins.expect {t : Text} (h : Begins t) : expect 93 t = none ∧ expect 125 t = none := by
  obtain ⟨c, rest, rfl, hspace, h93, h125⟩ := h
  exact ⟨expect_other hspace h93 rest, expect_other hspace h125 rest⟩

theorem listed_begins {t : Text} {texts : List Text} (h : Begins t) :
    Begins (listed style.pad (t :: texts)) := by
  cases texts with
  | nil => exact h
  | cons u rest => exact h.append _

/-- Spaces before what begins are skipped. -/
theorem Begins.skipPad {t : Text} (h : Begins t) : JsonText.skipSpaces (style.pad ++ t) = t := by
  unfold JsonText.skipSpaces
  rw [List.dropWhile_append_of_pos style.spaces]
  exact h.skipSpaces

/-- A number begins with a digit or a minus. -/
theorem number_begins {c : CodePoint} {rest : Text} (h : isDigit c = true ∨ c = 45) :
    Begins (c :: rest) ∧ c.val ≠ 34 ∧ c.val ≠ 91 ∧ c.val ≠ 123 := by
  rcases h with h | rfl
  · unfold isDigit at h
    have h := of_decide_eq_true h
    refine ⟨⟨c, rest, rfl, ?_, by omega, by omega⟩, by omega, by omega, by omega⟩
    unfold isSpace
    apply decide_eq_false
    omega
  · exact ⟨⟨45, rest, rfl, by decide, by decide, by decide⟩, by decide, by decide, by decide⟩

/-- How a written value begins. -/
theorem render_begins (tree : Tree) : Begins (render style tree) := by
  cases tree with
  | null => exact ⟨_, _, rfl, by decide, by decide, by decide⟩
  | bool b => cases b <;> exact ⟨_, _, rfl, by decide, by decide, by decide⟩
  | int n =>
    obtain ⟨c, rest, hn, hc⟩ := intText_head n
    rw [render, hn]
    exact (number_begins hc).1
  | float number =>
    obtain ⟨⟨c, rest, hn, hc⟩, -⟩ := literal_readAs number
    rw [render, hn]
    exact (number_begins hc).1
  | constant name => cases name <;> exact ⟨_, _, rfl, by decide, by decide, by decide⟩
  | str s => exact ⟨34, _, rfl, by decide, by decide, by decide⟩
  | arr items => exact ⟨91, _, rfl, by decide, by decide, by decide⟩
  | obj fields => exact ⟨123, _, rfl, by decide, by decide, by decide⟩

theorem render_pos (tree : Tree) : 0 < (render style tree).length := by
  obtain ⟨c, rest, h, -⟩ := @render_begins style tree
  rw [h, List.length_cons]
  exact Nat.succ_pos _

theorem listed_items (item : Tree) (items : List Tree) :
    Begins (listed style.pad (renderItems style (item :: items))) :=
  listed_begins (render_begins item)

theorem listed_fields (field : Text × Tree) (fields : List (Text × Tree)) :
    Begins (listed style.pad (renderFields style (field :: fields))) :=
  listed_begins ⟨34, _, rfl, by decide, by decide, by decide⟩

theorem scanValue_scalar {c : CodePoint} (h34 : c.val ≠ 34) (h91 : c.val ≠ 91)
    (h123 : c.val ≠ 123) (fuel : Nat) (t : Text) :
    scanValue (fuel + 1) (c :: t) = scanScalar (c :: t) := by
  rw [scanValue]
  simp only
  rw [if_neg h34, if_neg h91, if_neg h123]

/-- A number is read as `scanScalar` reads it. -/
theorem scanValue_number {text : Text} {tree : Tree} {t : Text} {fuel : Nat}
    (h : ∃ c rest, text = c :: rest ∧ (isDigit c = true ∨ c = 45))
    (hread : scanScalar (text ++ t) = some (tree, t)) :
    scanValue (fuel + 1) (text ++ t) = some (tree, t) := by
  obtain ⟨c, rest, rfl, hc⟩ := h
  obtain ⟨-, h34, h91, h123⟩ := @number_begins c rest hc
  rw [← hread]
  exact scanValue_scalar h34 h91 h123 fuel _

theorem scanScalar_word {word : String} {tree : Tree} (t : Text)
    (h : (word = "null" ∧ tree = .null) ∨ (word = "true" ∧ tree = .bool true) ∨
      (word = "false" ∧ tree = .bool false)) :
    scanScalar (ofString word ++ t) = some (tree, t) := by
  unfold scanScalar
  rcases h with ⟨rfl, rfl⟩ | ⟨rfl, rfl⟩ | ⟨rfl, rfl⟩
  · rw [after_self]
  · have hnull : after "null" (ofString "true" ++ t) = none := after_none (w := 110) rfl (by decide)
    rw [hnull, after_self]
  · have hnull : after "null" (ofString "false" ++ t) = none :=
      after_none (w := 110) rfl (by decide)
    have htrue : after "true" (ofString "false" ++ t) = none :=
      after_none (w := 116) rfl (by decide)
    rw [hnull, htrue, after_self]

/-- A field of an object is its key, a colon and its value. -/
theorem scanFields_key {key text : Text} {fuel : Nat} {t : Text} (h : Begins (text ++ t)) :
    scanFields (fuel + 1) (quoted key ++ 58 :: (style.pad ++ text) ++ t) =
      (scanValue fuel (text ++ t)).bind fun r => match expect 125 r.2 with
        | some rest => some ([(joined key, r.1)], rest)
        | none => (expect 44 r.2).bind fun rest => (scanFields fuel (skipSpaces rest)).map
          fun fields => ((joined key, r.1) :: fields.1, fields.2) := by
  unfold quoted
  rw [List.cons_append, List.cons_append, List.cons_append, List.append_assoc, List.append_assoc,
    List.cons_append, List.cons_append, List.nil_append, scanFields]
  simp only [Option.bind_eq_bind]
  rw [if_pos (by decide), Option.bind_some, scanString_quoted, Option.bind_some,
    show (58 : Nat) = (58 : CodePoint).val from rfl, expect_self (by decide), Option.bind_some,
    List.append_assoc, h.skipPad]
  congr 1
  funext r
  cases expect 125 r.2 with
  | some rest => rfl
  | none =>
    cases expect 44 r.2 with
    | none => rfl
    | some rest =>
      simp only [Option.bind_some]
      cases scanFields fuel (skipSpaces rest) <;> rfl

mutual

/-- A written document is read back, with its strings joined. -/
theorem scanValue_render : ∀ {tree : Tree} {t : Text} {fuel : Nat}, writable tree = true →
    (render style tree).length ≤ fuel → Delimited t →
    scanValue fuel (render style tree ++ t) = some (joinTree tree, t)
  | tree, t, 0, h, hf, ht => by
    have hpos := @render_pos style tree
    omega
  | .null, t, fuel + 1, h, hf, ht =>
    (scanValue_scalar (by decide) (by decide) (by decide) fuel _).trans
      (scanScalar_word t (.inl ⟨rfl, rfl⟩))
  | .bool true, t, fuel + 1, h, hf, ht =>
    (scanValue_scalar (by decide) (by decide) (by decide) fuel _).trans
      (scanScalar_word t (.inr (.inl ⟨rfl, rfl⟩)))
  | .bool false, t, fuel + 1, h, hf, ht =>
    (scanValue_scalar (by decide) (by decide) (by decide) fuel _).trans
      (scanScalar_word t (.inr (.inr ⟨rfl, rfl⟩)))
  | .int n, t, fuel + 1, h, hf, ht => scanValue_number (intText_head n) (scanScalar_int h ht)
  | .float number, t, fuel + 1, h, hf, ht =>
    scanValue_number (literal_readAs number).1 ((literal_readAs number).2 t ht)
  | .constant name, t, fuel + 1, h, hf, ht => by cases h
  | .str s, t, fuel + 1, h, hf, ht => by
    unfold render quoted
    rw [List.cons_append, List.cons_append, List.append_assoc, List.cons_append, List.nil_append,
      scanValue]
    simp only
    rw [if_pos (by decide), scanString_quoted]
    rfl
  | .arr items, t, fuel + 1, h, hf, ht => by
    unfold render at hf ⊢
    rw [List.cons_append, List.cons_append, List.append_assoc, List.cons_append, List.nil_append,
      scanValue]
    simp only
    rw [if_neg (by decide), if_pos (by decide)]
    cases items with
    | nil =>
      rw [renderItems, listed, List.nil_append, show (93 : Nat) = (93 : CodePoint).val from rfl,
        expect_self (by decide)]
      rfl
    | cons item items =>
      simp only [List.length_cons, List.length_append, List.length_nil] at hf
      have hread : scanItems fuel
          (listed style.pad (renderItems style (item :: items)) ++ 93 :: t) =
          some (joinItems (item :: items), t) := scanItems_render h (by simp) (by omega)
      have hbegins := (@listed_items style item items).append (93 :: t)
      rw [hbegins.expect.1, hbegins.skipSpaces, hread]
      rfl
  | .obj fields, t, fuel + 1, h, hf, ht => by
    unfold render at hf ⊢
    rw [List.cons_append, List.cons_append, List.append_assoc, List.cons_append, List.nil_append,
      scanValue]
    simp only
    rw [if_neg (by decide), if_neg (by decide), if_pos (by decide)]
    cases fields with
    | nil =>
      rw [renderFields, listed, List.nil_append, show (125 : Nat) = (125 : CodePoint).val from rfl,
        expect_self (by decide)]
      rfl
    | cons field fields =>
      simp only [List.length_cons, List.length_append, List.length_nil] at hf
      have hread : scanFields fuel
            (listed style.pad (renderFields style (field :: fields)) ++ 125 :: t) =
          some (joinFields (field :: fields), t) := scanFields_render h (by simp) (by omega)
      have hbegins := (@listed_fields style field fields).append (125 :: t)
      rw [hbegins.expect.2, hbegins.skipSpaces, hread]
      rfl

theorem scanItems_render : ∀ {items : List Tree} {t : Text} {fuel : Nat},
    writableItems items = true → items ≠ [] →
    (listed style.pad (renderItems style items)).length < fuel →
    scanItems fuel (listed style.pad (renderItems style items) ++ 93 :: t) =
      some (joinItems items, t)
  | [], t, fuel, h, hne, hf => absurd rfl hne
  | item :: items, t, 0, h, hne, hf => by omega
  | item :: items, t, fuel + 1, h, hne, hf => by
    rw [writableItems, Bool.and_eq_true] at h
    have hpos := @render_pos style item
    cases items with
    | nil =>
      rw [renderItems, renderItems, listed] at hf ⊢
      have hread : scanValue fuel (render style item ++ 93 :: t) = some (joinTree item, 93 :: t) :=
        scanValue_render h.1 (by omega) (delimited_cons (by decide) t)
      rw [scanItems, hread]
      simp only [Option.bind_eq_bind, Option.bind_some]
      rw [show (93 : Nat) = (93 : CodePoint).val from rfl, expect_self (by decide)]
      rfl
    | cons next items =>
      have hbegins := (@listed_items style next items).append (93 :: t)
      rw [renderItems, renderItems, listed, ← renderItems] at hf ⊢
      simp only [List.length_cons, List.length_append] at hf
      have hread : scanValue fuel (render style item ++ 44 :: (style.pad ++
            (listed style.pad (renderItems style (next :: items)) ++ 93 :: t))) =
          some (joinTree item, 44 :: (style.pad ++
            (listed style.pad (renderItems style (next :: items)) ++ 93 :: t))) :=
        scanValue_render h.1 (by omega) (delimited_cons (by decide) _)
      have hmore : scanItems fuel
          (listed style.pad (renderItems style (next :: items)) ++ 93 :: t) =
          some (joinItems (next :: items), t) := scanItems_render h.2 (by simp) (by omega)
      rw [List.append_assoc, List.cons_append, List.append_assoc, scanItems, hread]
      simp only [Option.bind_eq_bind, Option.bind_some]
      rw [expect_other (by decide) (by decide), show (44 : Nat) = (44 : CodePoint).val from rfl,
        expect_self (by decide)]
      simp only [Option.bind_some]
      rw [hbegins.skipPad, hmore]
      rfl

theorem scanFields_render : ∀ {fields : List (Text × Tree)} {t : Text} {fuel : Nat},
    writableFields fields = true → fields ≠ [] →
    (listed style.pad (renderFields style fields)).length < fuel →
    scanFields fuel (listed style.pad (renderFields style fields) ++ 125 :: t) =
      some (joinFields fields, t)
  | [], t, fuel, h, hne, hf => absurd rfl hne
  | (key, value) :: fields, t, 0, h, hne, hf => by omega
  | (key, value) :: fields, t, fuel + 1, h, hne, hf => by
    rw [writableFields, Bool.and_eq_true] at h
    have hpos := @render_pos style value
    have hbegin := @render_begins style value
    cases fields with
    | nil =>
      rw [renderFields, renderFields, listed] at hf ⊢
      simp only [quoted, List.length_cons, List.length_append] at hf
      have hread : scanValue fuel (render style value ++ 125 :: t) =
          some (joinTree value, 125 :: t) :=
        scanValue_render h.1 (by omega) (delimited_cons (by decide) t)
      rw [scanFields_key (hbegin.append _), hread]
      simp only [Option.bind_some]
      rw [show (125 : Nat) = (125 : CodePoint).val from rfl, expect_self (by decide)]
      rfl
    | cons next fields =>
      obtain ⟨k, v⟩ := next
      have hbegins := (@listed_fields style (k, v) fields).append (125 :: t)
      rw [renderFields, renderFields, listed, ← renderFields] at hf ⊢
      simp only [quoted, List.length_cons, List.length_append] at hf
      have hread : scanValue fuel (render style value ++ 44 :: (style.pad ++
            (listed style.pad (renderFields style ((k, v) :: fields)) ++ 125 :: t))) =
          some (joinTree value, 44 :: (style.pad ++
            (listed style.pad (renderFields style ((k, v) :: fields)) ++ 125 :: t))) :=
        scanValue_render h.1 (by omega) (delimited_cons (by decide) _)
      have hmore : scanFields fuel
            (listed style.pad (renderFields style ((k, v) :: fields)) ++ 125 :: t) =
          some (joinFields ((k, v) :: fields), t) := scanFields_render h.2 (by simp) (by omega)
      rw [List.append_assoc, List.cons_append, List.append_assoc style.pad,
        scanFields_key (hbegin.append _), hread]
      simp only [Option.bind_some]
      rw [expect_other (by decide) (by decide), show (44 : Nat) = (44 : CodePoint).val from rfl,
        expect_self (by decide)]
      simp only [Option.bind_some]
      rw [hbegins.skipPad, hmore]
      rfl

end

/-- What can be written is read back as it was, but with the surrogate pairs of its strings
joined. -/
theorem scan_render {tree : Tree} (h : writable tree = true) :
    scan (render style tree) = some (joinTree tree) := by
  have hread : scanValue ((render style tree).length + 1) (render style tree ++ []) =
      some (joinTree tree, []) :=
    scanValue_render h (by omega) (by intro c rest hc; cases hc)
  rw [List.append_nil] at hread
  unfold scan
  rw [(render_begins tree).skipSpaces, hread]
  rfl

theorem scan_write {tree : Tree} {text : Text} (h : write style tree = some text) :
    scan text = some (joinTree tree) := by
  obtain ⟨hwritable, rfl⟩ := write_eq_some.mp h
  exact scan_render hwritable

end JsonText
