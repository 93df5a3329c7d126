-- Doubles as multiples of the smallest one: how a decimal is rounded to a double,
-- and the shortest decimal that is rounded back to it.
import FlynnAgents.Lib.JsonText
import Mathlib.Tactic.Ring

open JsonText (Decimal)

namespace Binary64

variable {a b c m : Nat}

/-! ## Rounding -/

/-- The distance between the doubles near `m`. A double has 53 significant bits. -/
def ulp (m : Nat) : Nat := 2 ^ (m.log2 - 52)

/-- `a / b` rounded to the nearest integer, halves to the even one. -/
def roundDiv (a b : Nat) : Nat :=
  if 2 * (a % b) < b then a / b
  else if b < 2 * (a % b) then a / b + 1
  else a / b + a / b % 2

/-- The double nearest to `a / b`. -/
def nearest (a b : Nat) : Nat := ulp (a / b) * roundDiv a (b * ulp (a / b))

/-- Some double is `m` times the smallest one. -/
def IsDouble (m : Nat) : Prop := ulp m ∣ m

/-- The smallest double is two to minus this. -/
@[irreducible] def bits : Nat := 1074

/-- The double nearest to `digits` times ten to `exponent`. -/
def magnitude (digits : Nat) (exponent : Int) : Nat :=
  nearest (digits * 10 ^ exponent.toNat * 2 ^ bits) (10 ^ (-exponent).toNat)

theorem ulp_pos (m : Nat) : 0 < ulp m := Nat.two_pow_pos _

theorem roundDiv_le (a b : Nat) : roundDiv a b ≤ a / b + 1 := by
  unfold roundDiv
  split
  · exact Nat.le_succ _
  · split
    · exact Nat.le_refl _
    · omega

theorem roundDiv_mul (h : 0 < b) (k : Nat) : roundDiv (k * b) b = k := by
  unfold roundDiv
  rw [Nat.mul_mod_left, Nat.mul_div_cancel k h, if_pos h]

theorem roundDiv_scale (h : 0 < c) : roundDiv (a * c) (b * c) = roundDiv a b := by
  have hlt : 2 * (a % b * c) < b * c ↔ 2 * (a % b) < b := by
    rw [← Nat.mul_assoc]
    exact Nat.mul_lt_mul_right h
  have hgt : b * c < 2 * (a % b * c) ↔ b < 2 * (a % b) := by
    rw [← Nat.mul_assoc]
    exact Nat.mul_lt_mul_right h
  unfold roundDiv
  rw [Nat.mul_mod_mul_right, Nat.mul_div_mul_right a b h]
  simp only [hlt, hgt]

/-- At most 53 bits, and zeros behind them, are a double. -/
theorem isDouble_mul {q : Nat} (e : Nat) (h : q ≤ 2 ^ 53) : IsDouble (2 ^ e * q) := by
  unfold IsDouble ulp
  rcases Nat.lt_or_eq_of_le h with hlt | rfl
  · rcases Nat.eq_zero_or_pos q with rfl | hpos
    · exact Nat.dvd_zero _
    · have hne : 2 ^ e * q ≠ 0 := Nat.mul_ne_zero (Nat.two_pow_pos e).ne' hpos.ne'
      have hlog : (2 ^ e * q).log2 < e + 53 := by
        rw [Nat.log2_lt hne, Nat.pow_add]
        exact Nat.mul_lt_mul_of_pos_left hlt (Nat.two_pow_pos e)
      exact Dvd.dvd.mul_right (Nat.pow_dvd_pow 2 (by omega)) q
  · rw [← Nat.pow_add, Nat.log2_two_pow]
    exact Nat.pow_dvd_pow 2 (by omega)

theorem nearest_isDouble (a b : Nat) : IsDouble (nearest a b) := by
  refine isDouble_mul _ ((roundDiv_le _ _).trans ?_)
  have hlt : a / b < ulp (a / b) * 2 ^ 53 := by
    unfold ulp
    rw [← Nat.pow_add]
    exact Nat.lt_log2_self.trans_le (Nat.pow_le_pow_right (by decide) (by omega))
  rw [← Nat.div_div_eq_div_mul]
  exact Nat.div_lt_of_lt_mul hlt

/-- A double is nearest to itself. -/
theorem nearest_self (hb : 0 < b) (h : IsDouble m) : nearest (m * b) b = m := by
  obtain ⟨k, hk⟩ := h
  unfold nearest
  rw [Nat.mul_div_cancel m hb]
  have hscale : m * b = k * (b * ulp m) := by
    calc m * b = ulp m * k * b := by rw [← hk]
      _ = k * (b * ulp m) := by ring
  rw [hscale, roundDiv_mul (Nat.mul_pos hb (ulp_pos m))]
  exact hk.symm

theorem nearest_scale (h : 0 < c) : nearest (a * c) (b * c) = nearest a b := by
  unfold nearest
  rw [Nat.mul_div_mul_right a b h, Nat.mul_right_comm, roundDiv_scale h]

theorem magnitude_isDouble (digits : Nat) (exponent : Int) :
    IsDouble (magnitude digits exponent) := nearest_isDouble _ _

/-- A zero after the point changes nothing. -/
theorem magnitude_point (digits e : Nat) :
    magnitude (digits * 10 ^ (e + 1)) (-1) = magnitude digits e := by
  have hscale : digits * 10 ^ (e + 1) * 10 ^ (0 : Nat) * 2 ^ bits =
      digits * 10 ^ e * 2 ^ bits * 10 := by ring
  unfold magnitude
  rw [Int.toNat_natCast, show (-(-1 : Int)).toNat = 1 from rfl, show (-1 : Int).toNat = 0 from rfl,
    show (-(e : Int)).toNat = 0 by omega, hscale, Nat.pow_zero, Nat.pow_one]
  exact nearest_scale (b := 1) (by decide)

/-! ## The shortest decimal -/

/-- All the digits of a double. -/
def exactDigits (m : Nat) : Nat := m * 5 ^ bits

/-- A multiple of ten to `s` that is rounded to `m`: the nearest, or one beside it. -/
def candidate (m s : Nat) : Option Nat :=
  [roundDiv (exactDigits m) (10 ^ s), exactDigits m / 10 ^ s, exactDigits m / 10 ^ s + 1].find?
    fun digits => magnitude digits (s - bits) = m

/-- The digits and the exponent of the decimal with the fewest digits that is rounded to `m`. -/
@[irreducible] def shortest (m : Nat) : Nat × Int :=
  ((List.range ((Nat.toDigits 10 (exactDigits m)).length + 1)).reverse.findSome? fun s =>
    (candidate m s).map fun digits => (digits, (s : Int) - bits)).getD (exactDigits m, -bits)

theorem magnitude_exact (h : IsDouble m) : magnitude (exactDigits m) (-bits) = m := by
  unfold magnitude exactDigits
  rw [neg_neg, Int.toNat_natCast, show (-(bits : Int)).toNat = 0 by omega, Nat.pow_zero,
    Nat.mul_one, Nat.mul_assoc, ← Nat.mul_pow]
  exact nearest_self (Nat.pow_pos (by decide)) h

theorem candidate_eq {s digits : Nat} (h : candidate m s = some digits) :
    magnitude digits (s - bits) = m := by
  have hm := List.find?_some (p := fun digits => decide (magnitude digits (s - bits) = m)) h
  exact of_decide_eq_true hm

/-- The shortest decimal is rounded back. -/
theorem magnitude_shortest (h : IsDouble m) : magnitude (shortest m).1 (shortest m).2 = m := by
  unfold shortest
  cases hs : (List.range ((Nat.toDigits 10 (exactDigits m)).length + 1)).reverse.findSome?
      fun s => (candidate m s).map fun digits => (digits, (s : Int) - bits) with
  | none => exact magnitude_exact h
  | some found =>
    obtain ⟨s, -, hfound⟩ := List.exists_of_findSome?_eq_some hs
    obtain ⟨digits, hdigits, rfl⟩ := Option.map_eq_some_iff.mp hfound
    exact candidate_eq hdigits

/-! ## Decimals as doubles -/

/-- The decimal that `repr` writes of a double: with a zero after the point where it
has no other digit there and at most 16 before it. -/
def reprDecimal (negative : Bool) (m : Nat) : Decimal :=
  if (shortest m).1 = 0 then ⟨negative, 0, -1⟩
  else if 0 ≤ (shortest m).2 ∧
      (Nat.toDigits 10 (shortest m).1).length + (shortest m).2 ≤ 16 then
    ⟨negative, (shortest m).1 * 10 ^ ((shortest m).2.toNat + 1), -1⟩
  else ⟨negative, (shortest m).1, (shortest m).2⟩

/-- What is infinite begins at the smallest double times two to this, at two to 1024. -/
@[irreducible] def infinity : Nat := 2098

/-- `repr(float(number))` as a decimal, or nothing if the number is rounded to infinity. -/
@[irreducible] def round (number : Decimal) : Option Decimal :=
  if (magnitude number.digits number.exponent).log2 < infinity then
    some (reprDecimal number.negative (magnitude number.digits number.exponent))
  else none

theorem magnitude_zero (exponent : Int) : magnitude 0 exponent = 0 := by
  unfold magnitude nearest roundDiv
  simp

theorem reprDecimal_magnitude (negative : Bool) (h : IsDouble m) :
    magnitude (reprDecimal negative m).digits (reprDecimal negative m).exponent = m := by
  have hm := magnitude_shortest h
  unfold reprDecimal
  generalize shortest m = found at *
  obtain ⟨n, e⟩ := found
  simp only at hm ⊢
  split
  · rename_i hzero
    rw [hzero, magnitude_zero] at hm
    exact (magnitude_zero _).trans hm
  · split
    · rename_i hpoint
      have hfound := magnitude_point n e.toNat
      rw [Int.toNat_of_nonneg hpoint.1, hm] at hfound
      exact hfound
    · exact hm

theorem reprDecimal_negative (negative : Bool) (m : Nat) :
    (reprDecimal negative m).negative = negative := by
  unfold reprDecimal
  split
  · rfl
  · split <;> rfl

theorem round_reprDecimal (negative : Bool) (h : IsDouble m) (hrange : m.log2 < infinity) :
    round (reprDecimal negative m) = some (reprDecimal negative m) := by
  rw [round, reprDecimal_magnitude negative h, if_pos hrange, reprDecimal_negative]

/-- What `repr` writes of a double is rounded to the double. -/
theorem round_round {number r : Decimal} (h : round number = some r) : round r = some r := by
  by_cases hrange : (magnitude number.digits number.exponent).log2 < infinity
  · rw [round, if_pos hrange] at h
    have hdouble := magnitude_isDouble number.digits number.exponent
    generalize magnitude number.digits number.exponent = m at *
    rw [← Option.some.inj h]
    exact round_reprDecimal number.negative hdouble hrange
  · rw [round, if_neg hrange] at h
    cases h

/-! ## Rounding to infinity -/

/-- From half a step below an even number on, the quotient is rounded to it or above. -/
theorem le_roundDiv {n : Nat} (hc : 0 < c) (heven : n % 2 = 0) (h : (2 * n - 1) * c ≤ 2 * a) :
    n ≤ roundDiv a c := by
  have hdiv : a = c * (a / c) + a % c := (Nat.div_add_mod a c).symm
  have hmod : a % c < c := Nat.mod_lt a hc
  rcases Nat.lt_or_ge (a / c) n with hlt | hge
  · obtain ⟨k, rfl⟩ : ∃ k, n = a / c + 1 + k := ⟨n - (a / c + 1), by omega⟩
    have hexpand : (2 * (a / c + 1 + k) - 1) * c = 2 * (c * (a / c)) + c + 2 * (k * c) := by
      rw [show 2 * (a / c + 1 + k) - 1 = 2 * (a / c) + 1 + 2 * k by omega]
      ring
    have hk : k * c < c := by omega
    obtain rfl : k = 0 := by
      by_contra hk0
      exact absurd hk (Nat.not_lt.mpr (Nat.le_mul_of_pos_left c (Nat.pos_of_ne_zero hk0)))
    unfold roundDiv
    split
    · omega
    · split <;> omega
  · unfold roundDiv
    split
    · exact hge
    · split <;> omega

/-- From half a step below a power of two on, the nearest double is the power or above. -/
theorem le_nearest {k : Nat} (hb : 0 < b) (h : (2 ^ (k + 54) - 2 ^ k) * b ≤ a) :
    2 ^ (k + 54) ≤ nearest a b := by
  have hquot : 2 ^ (k + 54) - 2 ^ k ≤ a / b := (Nat.le_div_iff_mul_le hb).mpr h
  have hpow : 2 ^ (k + 54) = 2 ^ k * 2 ^ 54 := Nat.pow_add 2 k 54
  have hpos : 0 < 2 ^ k := Nat.two_pow_pos k
  have hne : a / b ≠ 0 := by omega
  unfold nearest
  rcases Nat.lt_or_ge (a / b) (2 ^ (k + 54)) with hlt | hge
  · have hlog : (a / b).log2 = k + 53 := by
      refine (Nat.log2_eq_iff hne).mpr ⟨?_, hlt⟩
      have hhalf : 2 ^ (k + 53) = 2 ^ k * 2 ^ 53 := Nat.pow_add 2 k 53
      omega
    have hulp : ulp (a / b) = 2 ^ k * 2 := by
      unfold ulp
      rw [hlog, show k + 53 - 52 = k + 1 by omega, Nat.pow_succ]
    have hround : 2 ^ 53 ≤ roundDiv a (b * ulp (a / b)) := by
      refine le_roundDiv (Nat.mul_pos hb (ulp_pos _)) (by decide) ?_
      rw [hulp]
      calc (2 * 2 ^ 53 - 1) * (b * (2 ^ k * 2)) = 2 * ((2 ^ k * 2 ^ 54 - 2 ^ k) * b) := by
            rw [show 2 ^ k * 2 ^ 54 - 2 ^ k = 2 ^ k * (2 ^ 54 - 1) by
              rw [Nat.mul_sub, Nat.mul_one]]
            ring
        _ ≤ 2 * a := by
            rw [← hpow]
            exact Nat.mul_le_mul_left 2 h
    calc 2 ^ (k + 54) = ulp (a / b) * 2 ^ 53 := by
          rw [hulp, hpow]
          ring
      _ ≤ _ := Nat.mul_le_mul_left _ hround
  · have hlog : k + 54 ≤ (a / b).log2 := (Nat.le_log2 hne).mpr hge
    have hself : ulp (a / b) * 2 ^ 52 ≤ a / b := by
      unfold ulp
      rw [← Nat.pow_add, Nat.sub_add_cancel (by omega)]
      exact Nat.log2_self_le hne
    have hround : 2 ^ 52 ≤ roundDiv a (b * ulp (a / b)) := by
      have hle : 2 ^ 52 ≤ a / (b * ulp (a / b)) := by
        rw [← Nat.div_div_eq_div_mul, Nat.le_div_iff_mul_le (ulp_pos _), Nat.mul_comm]
        exact hself
      unfold roundDiv
      split
      · exact hle
      · split <;> omega
    calc 2 ^ (k + 54) ≤ 2 ^ (a / b).log2 := Nat.pow_le_pow_right (by decide) hlog
      _ = ulp (a / b) * 2 ^ 52 := by
          unfold ulp
          rw [← Nat.pow_add, Nat.sub_add_cancel (by omega)]
      _ ≤ _ := Nat.mul_le_mul_left _ hround

/-- From half a step above the greatest double on, a number is rounded to infinity. -/
theorem round_none {number : Decimal} (h : (2 ^ 1024 - 2 ^ 970) * 10 ^ (-number.exponent).toNat ≤
    number.digits * 10 ^ number.exponent.toNat) : round number = none := by
  have hbound : (2 ^ 1024 - 2 ^ 970) * 2 ^ bits = 2 ^ (970 + bits + 54) - 2 ^ (970 + bits) := by
    rw [Nat.sub_mul, ← Nat.pow_add, ← Nat.pow_add, show 1024 + bits = 970 + bits + 54 by omega]
  have hnearest : 2 ^ (970 + bits + 54) ≤ magnitude number.digits number.exponent := by
    refine le_nearest (Nat.pow_pos (by decide)) ?_
    rw [← hbound, Nat.mul_right_comm]
    exact Nat.mul_le_mul_right _ h
  have hinfinity : infinity = 970 + bits + 54 := by
    unfold infinity bits
    rfl
  have hne : magnitude number.digits number.exponent ≠ 0 :=
    (lt_of_lt_of_le (Nat.two_pow_pos _) hnearest).ne'
  rw [round, if_neg]
  rw [hinfinity]
  exact Nat.not_lt.mpr ((Nat.le_log2 hne).mpr hnearest)

end Binary64
