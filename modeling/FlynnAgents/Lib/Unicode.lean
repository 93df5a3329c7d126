-- Strings as Python has them: sequences of code points, in which a surrogate
-- may stand alone.
import Mathlib.Data.List.Basic

/-- A code point of Unicode, surrogates included. -/
abbrev CodePoint := Fin 0x110000

instance codePointNeZero : @NeZero Nat Zero.ofOfNat0 0x110000 := ⟨Nat.succ_ne_zero 0x10ffff⟩

/-- A string of code points. -/
abbrev Text := List CodePoint

namespace Text

def ofChar (c : Char) : CodePoint := Fin.ofNat 0x110000 c.toNat

def ofString (s : String) : Text := s.toList.map ofChar

/-- The characters of a text. A surrogate, which is none, becomes the null character. -/
def chars (s : Text) : String := String.ofList (s.map fun c => Char.ofNat c.val)

/-- The first half of a surrogate pair. -/
def high (n : Nat) : Bool := decide (0xd800 ≤ n ∧ n < 0xdc00)

/-- The second half. -/
def low (n : Nat) : Bool := decide (0xdc00 ≤ n ∧ n < 0xe000)

/-- The code point that a surrogate pair stands for. -/
def combine (n m : Nat) : CodePoint :=
  Fin.ofNat 0x110000 (0x10000 + (n - 0xd800) * 0x400 + (m - 0xdc00))

/-- The string with each surrogate pair made one code point. -/
def joined : Text → Text
  | [] => []
  | [c] => [c]
  | c :: d :: rest =>
    if high c && low d then combine c d :: joined rest else c :: joined (d :: rest)

/-- A high surrogate stands right before a low one. -/
def HasPair (s : Text) : Prop :=
  ∃ (before : Text) (c d : CodePoint) (after : Text),
    s = before ++ c :: d :: after ∧ high c = true ∧ low d = true

theorem combine_val {n m : Nat} (hn : high n = true) (hm : low m = true) :
    (combine n m).val = 0x10000 + (n - 0xd800) * 0x400 + (m - 0xdc00) := by
  unfold high at hn
  unfold low at hm
  have hn := of_decide_eq_true hn
  have hm := of_decide_eq_true hm
  unfold combine
  rw [Fin.val_ofNat, Nat.mod_eq_of_lt (by omega)]

theorem joined_length (s : Text) : (joined s).length ≤ s.length := by
  fun_induction joined s with
  | case1 => exact Nat.le_refl _
  | case2 c => exact Nat.le_refl _
  | case3 c d rest h ih =>
    simp only [List.length_cons]
    omega
  | case4 c d rest h ih =>
    simp only [List.length_cons] at ih ⊢
    omega

/-- Joining changes nothing exactly if there is no pair. -/
theorem joined_eq_iff (s : Text) : joined s = s ↔ ¬ HasPair s := by
  constructor
  · rintro h ⟨before, c, d, after, rfl, hc, hd⟩
    have hlength : (joined (before ++ c :: d :: after)).length <
        (before ++ c :: d :: after).length := by
      clear h
      induction before with
      | nil =>
        rw [List.nil_append, joined, if_pos (by rw [hc, hd]; rfl)]
        have := joined_length after
        simp only [List.length_cons]
        omega
      | cons b before ih =>
        cases hrest : before ++ c :: d :: after with
        | nil => simp at hrest
        | cons e rest =>
          rw [hrest] at ih
          rw [List.cons_append, hrest, joined]
          split
          · have := joined_length rest
            simp only [List.length_cons]
            omega
          · simp only [List.length_cons] at ih ⊢
            omega
    rw [h] at hlength
    exact Nat.lt_irrefl _ hlength
  · intro h
    fun_induction joined s with
    | case1 => rfl
    | case2 c => rfl
    | case3 c d rest hpair ih =>
      obtain ⟨hc, hd⟩ := Bool.and_eq_true_iff.mp hpair
      exact absurd ⟨[], c, d, rest, rfl, hc, hd⟩ h
    | case4 c d rest hpair ih =>
      rw [ih]
      rintro ⟨before, c', d', after, hs, hc, hd⟩
      exact h ⟨c :: before, c', d', after, by rw [hs]; rfl, hc, hd⟩

theorem ofChar_val (c : Char) : (ofChar c).val = c.toNat := by
  unfold ofChar
  rw [Fin.val_ofNat, Nat.mod_eq_of_lt]
  have := c.valid
  rcases this with h | ⟨-, h⟩
  · exact Nat.lt_trans h (by decide)
  · exact h

/-- A string of characters spells no surrogates. -/
theorem ofString_no_pair (s : String) : ¬ HasPair (ofString s) := by
  rintro ⟨before, c, d, rest, hs, hc, -⟩
  have hmem : c ∈ ofString s := by rw [hs]; simp
  obtain ⟨ch, -, rfl⟩ := List.mem_map.mp hmem
  unfold high at hc
  rw [ofChar_val] at hc
  have hc := of_decide_eq_true hc
  rcases ch.valid with h | ⟨h, -⟩
  · have : ch.toNat < 0xd800 := h
    omega
  · have : 0xdfff < ch.toNat := h
    omega

@[simp]
theorem joined_ofString (s : String) : joined (ofString s) = ofString s :=
  (joined_eq_iff _).mpr (ofString_no_pair s)

/-- A text below the surrogates is the one of its characters. -/
theorem ofString_chars {s : Text} (h : ∀ c ∈ s, c.val < 0xd800) : ofString (chars s) = s := by
  unfold ofString chars
  rw [String.toList_ofList, List.map_map]
  refine (List.map_congr_left fun c hc => ?_).trans (List.map_id s)
  have hvalid : c.val.isValidChar := .inl (h c hc)
  apply Fin.ext
  rw [Function.comp, ofChar_val, Char.ofNat, dif_pos hvalid]
  rfl

end Text
