import BrowserTrace.Proofs.Number.Exact
import Mathlib.Algebra.Order.Field.Power
import Mathlib.Algebra.Order.Field.Rat
import Mathlib.Tactic.Linarith
import Mathlib.Tactic.NormNum
import Mathlib.Tactic.Positivity

/-!
# The value of a floating-point number

A double-precision number is a rational number, `value`.  It is an integer exactly when `toInt?` says
so (`toInt?_eq_some_iff`).  Every integer of 64 bits has a nearest number (`exists_ofInt?`).  Between
`2 ^ 63` and `2 ^ 64` such numbers lie 2048 apart, so an unsigned integer there is rounded to a
multiple of 2048 (`toInt?_ofNat?_of_word`), and the integers up to 1024 above `2 ^ 63` are rounded to
that.
-/

namespace BrowserTrace.Number.Binary64

/-- The rational number that `x` is. -/
def value (x : Binary64) : ℚ :=
  (if x.negative then -1 else 1) * (x.significand * (2 : ℚ) ^ x.exponent)

variable {x : Binary64}

/-! ## The value as a fraction -/

theorem ratio_den_pos (x : Binary64) : 0 < x.ratio.2 := Nat.two_pow_pos _

theorem value_eq_ratio (x : Binary64) :
    x.value = (if x.negative then -1 else 1) * ((x.ratio.1 : ℚ) / x.ratio.2) := by
  have hexponent : x.exponent = (x.exponent.toNat : Int) - ((-x.exponent).toNat : Int) :=
    (Int.toNat_sub_toNat_neg x.exponent).symm
  have hpow : (2 : ℚ) ^ x.exponent =
      (2 : ℚ) ^ x.exponent.toNat / (2 : ℚ) ^ (-x.exponent).toNat := by
    rw [← zpow_natCast, ← zpow_natCast, ← zpow_sub₀ (by norm_num), ← hexponent]
  rw [value, hpow]
  simp only [ratio, Nat.pow_eq]
  push_cast
  rw [mul_div_assoc]

theorem value_eq_intCast_iff {i : Int} :
    x.value = i ↔ (if x.negative then -(x.ratio.1 : Int) else x.ratio.1) = i * x.ratio.2 := by
  have hden : (x.ratio.2 : ℚ) ≠ 0 := by exact_mod_cast (ratio_den_pos x).ne'
  rw [value_eq_ratio, ← mul_div_assoc, div_eq_iff hden]
  cases x.negative with
  | false =>
    rw [if_neg Bool.false_ne_true, if_neg Bool.false_ne_true, one_mul]
    exact_mod_cast Iff.rfl
  | true =>
    rw [if_pos rfl, if_pos rfl, neg_one_mul]
    exact_mod_cast Iff.rfl

/-! ## Integers -/

theorem truncate_eq_iff {j : Int} :
    (x.ratio.1 % x.ratio.2 = 0 ∧ (x.truncate : Int) = j) ↔ (x.ratio.1 : Int) = j * x.ratio.2 := by
  have hden := ratio_den_pos x
  constructor
  · rintro ⟨hmod, rfl⟩
    exact_mod_cast (Nat.div_mul_cancel (Nat.dvd_of_mod_eq_zero hmod)).symm
  · intro h
    have hpos : 0 ≤ j :=
      nonneg_of_mul_nonneg_left (h ▸ Int.natCast_nonneg _) (Int.natCast_pos.mpr hden)
    obtain ⟨n, rfl⟩ := Int.eq_ofNat_of_zero_le hpos
    have hnat : x.ratio.1 = n * x.ratio.2 := by exact_mod_cast h
    rw [truncate, hnat]
    exact ⟨Nat.mul_mod_left .., congrArg _ (Nat.mul_div_cancel _ hden)⟩

/-- The integer that a number is. -/
theorem toInt?_eq_some_iff {i : Int} : x.toInt? = some i ↔ x.value = i := by
  have hsome : x.toInt? = some i ↔ x.ratio.1 % x.ratio.2 = 0 ∧
      (if x.negative then -(x.truncate : Int) else x.truncate) = i := by
    simp [toInt?]
  rw [hsome, value_eq_intCast_iff]
  cases x.negative with
  | false => exact truncate_eq_iff
  | true =>
    simp only [if_true, neg_eq_iff_eq_neg (b := i), neg_eq_iff_eq_neg (b := i * _), ← neg_mul]
    exact truncate_eq_iff

theorem HasMagnitude.toInt?_eq {n : Nat} (h : x.HasMagnitude n 1) (hsign : x.negative = false) :
    x.toInt? = some (n : Int) := by
  rw [toInt?_eq_some_iff, value_eq_intCast_iff, hsign, if_neg Bool.false_ne_true]
  exact_mod_cast h.ratio_eq

/-! ## Integers of more than 53 bits -/

section Wide

variable {n k : Nat}

/-- An integer of more than 53 bits loses those that are too many. -/
theorem exponentOf_of_wide (hmin : 2 ^ (53 + k) ≤ n) (hmax : n < 2 ^ (54 + k)) :
    exponentOf n 1 = (k : Int) + 1 := by
  have hne : n ≠ 0 := (Nat.lt_of_lt_of_le (Nat.two_pow_pos _) hmin).ne'
  have hlog : n.log2 = 53 + k := (Nat.log2_eq_iff hne).mpr ⟨hmin, by rwa [Nat.add_right_comm]⟩
  have hlow : max ((n.log2 : Int) - Nat.log2 1 - 53) (-1074) = k := by
    have hone : Nat.log2 1 = 0 := rfl
    omega
  have hdescale : descale n 1 k = (n, 2 ^ k) := by simp [descale]
  have hlarge : ¬ n / 2 ^ k < 2 * leastNormal := by
    rw [Nat.not_lt, Nat.le_div_iff_mul_le (Nat.two_pow_pos k)]
    calc 2 ^ 53 * 2 ^ k = 2 ^ (53 + k) := (Nat.pow_add ..).symm
      _ ≤ n := hmin
  simp only [exponentOf, hlow, hdescale, if_neg hlarge]

theorem floor_le_roundDiv (num den : Nat) :
    num / den ≤ roundDiv num den ∧ roundDiv num den ≤ num / den + 1 := by
  simp only [roundDiv]
  split
  · omega
  split
  · omega
  split <;> omega

theorem roundDiv_of_wide (hmin : 2 ^ (53 + k) ≤ n) (hmax : n < 2 ^ (54 + k)) :
    leastNormal ≤ roundDiv n (2 ^ (k + 1)) ∧ roundDiv n (2 ^ (k + 1)) ≤ 2 * leastNormal := by
  have hlow : 2 ^ 52 ≤ n / 2 ^ (k + 1) := by
    rw [Nat.le_div_iff_mul_le (Nat.two_pow_pos _), ← Nat.pow_add, ← Nat.add_assoc,
      Nat.add_right_comm]
    exact hmin
  have hhigh : n / 2 ^ (k + 1) < 2 ^ 53 := by
    rw [Nat.div_lt_iff_lt_mul (Nat.two_pow_pos _), ← Nat.pow_add, ← Nat.add_assoc,
      Nat.add_right_comm]
    exact hmax
  obtain ⟨hfloor, hceil⟩ := floor_le_roundDiv n (2 ^ (k + 1))
  exact ⟨Nat.le_trans hlow hfloor, Nat.le_trans hceil hhigh⟩

/-- Every integer of 64 bits has a nearest number. -/
theorem exists_ofRatio?_one (negative : Bool) (h : n < 2 ^ 64) :
    ∃ x, ofRatio? negative n 1 = some x := by
  by_cases hsmall : n < 2 * leastNormal
  · obtain ⟨x, -, -, hx⟩ := exists_ofNat? hsmall
    exact ⟨{ x with negative },
      HasMagnitude.ofRatio?_eq (x := { x with negative }) hx Nat.one_ne_zero⟩
  · have hwide : 2 ^ 53 ≤ n := Nat.not_lt.mp hsmall
    have hne : n ≠ 0 := (Nat.lt_of_lt_of_le (Nat.two_pow_pos _) hwide).ne'
    obtain ⟨k, hk⟩ := Nat.exists_eq_add_of_le ((Nat.le_log2 hne).mpr hwide)
    obtain ⟨hmin, hmax⟩ := (Nat.log2_eq_iff hne).mp hk
    have hbits : k < 11 := by
      have hlog := (Nat.log2_lt hne).mpr h
      omega
    rw [Nat.add_right_comm] at hmax
    obtain ⟨hlow, hhigh⟩ := roundDiv_of_wide hmin hmax
    have hdescale : descale n 1 ((k : Int) + 1) = (n, 2 ^ (k + 1)) := by
      have hneg : (-((k : Int) + 1)).toNat = 0 := by omega
      have hpos : ((k : Int) + 1).toNat = k + 1 := by omega
      rw [descale, hneg, hpos, Nat.one_mul]
      exact Prod.ext (Nat.mul_one n) rfl
    rw [ofRatio?, if_neg hne]
    simp only [exponentOf_of_wide hmin hmax, hdescale]
    by_cases hcarry : roundDiv n (2 ^ (k + 1)) = 2 * leastNormal
    · have hcanonical : Canonical leastNormal ((k : Int) + 1 + 1) :=
        ⟨by decide, by omega, by omega, .inl (Nat.le_refl _)⟩
      simp only [if_pos hcarry, hcanonical, dite_true]
      exact ⟨_, rfl⟩
    · have hcanonical : Canonical (roundDiv n (2 ^ (k + 1))) ((k : Int) + 1) :=
        ⟨Nat.lt_of_le_of_ne hhigh hcarry, by omega, by omega, .inl hlow⟩
      simp only [if_neg hcarry, hcanonical, dite_true]
      exact ⟨_, rfl⟩

theorem exists_ofInt? {i : Int} (h : i.natAbs < 2 ^ 64) : ∃ x, ofInt? i = some x :=
  exists_ofRatio?_one _ h

end Wide

/-! ## Unsigned integers beyond the signed ones -/

section Word

variable {n : Nat}

/-- An integer with 64 bits, of which the first is set, loses 11 of them. -/
theorem exponentOf_of_word (hmin : 2 ^ 63 ≤ n) (hmax : n < 2 ^ 64) : exponentOf n 1 = 11 :=
  exponentOf_of_wide (k := 10) hmin hmax

theorem roundDiv_of_word (hmin : 2 ^ 63 ≤ n) (hmax : n < 2 ^ 64) :
    leastNormal ≤ roundDiv n 2048 ∧ roundDiv n 2048 ≤ 2 * leastNormal :=
  roundDiv_of_wide (k := 10) hmin hmax

/-- What is rounded to `2 ^ 63`: the midpoint goes to the even neighbour, which is the lower one. -/
theorem roundDiv_le_leastNormal_iff (hmin : 2 ^ 63 ≤ n) :
    roundDiv n 2048 ≤ leastNormal ↔ n ≤ 2 ^ 63 + 1024 := by
  simp only [roundDiv, leastNormal]
  split
  · omega
  split
  · omega
  split <;> omega

/-- An integer of 64 bits, of which the first is set, is rounded to a multiple of 2048. -/
theorem toInt?_ofNat?_of_word (hmin : 2 ^ 63 ≤ n) (hmax : n < 2 ^ 64) :
    (ofNat? n).bind toInt? = some ((roundDiv n 2048 * 2048 : Nat) : Int) := by
  have hne : n ≠ 0 := by omega
  have hdescale : descale n 1 11 = (n, 2048) := by simp [descale]
  obtain ⟨hlow, hhigh⟩ := roundDiv_of_word hmin hmax
  rw [ofNat?, ofRatio?, if_neg hne]
  by_cases hcarry : roundDiv n 2048 = 2 * leastNormal
  · have hcanonical : Canonical leastNormal (11 + 1) := by decide
    have hmagnitude : HasMagnitude ⟨false, _, _, hcanonical⟩ (2 * leastNormal * 2048) 1 := by
      simp only [HasMagnitude, ratio]
      decide
    simp only [exponentOf_of_word hmin hmax, hdescale, if_pos hcarry, hcanonical, dite_true,
      Option.bind_some, hmagnitude.toInt?_eq]
    rw [hcarry]
  · have hcanonical : Canonical (roundDiv n 2048) 11 :=
      ⟨by omega, by decide, by decide, .inl hlow⟩
    have hmagnitude : HasMagnitude ⟨false, _, _, hcanonical⟩ (roundDiv n 2048 * 2048) 1 := by
      simp [HasMagnitude, ratio]
    simp only [exponentOf_of_word hmin hmax, hdescale, if_neg hcarry, hcanonical, dite_true,
      Option.bind_some, hmagnitude.toInt?_eq]

end Word

/-- Above `2 ^ 63` there is no other number nearby. -/
theorem value_eq_of_near (hmin : 2 ^ 63 ≤ x.value) (hmax : x.value ≤ 2 ^ 63 + 1024) :
    x.value = 2 ^ 63 := by
  have hpositive : x.negative = false := by
    by_contra hsign
    rw [value, if_pos (Bool.not_eq_false _ ▸ hsign)] at hmin
    have hle : -1 * (x.significand * (2 : ℚ) ^ x.exponent) ≤ 0 := by
      rw [neg_one_mul, neg_nonpos]
      positivity
    linarith
  have hvalue : x.value = x.significand * (2 : ℚ) ^ x.exponent := by
    rw [value, hpositive, if_neg Bool.false_ne_true, one_mul]
  have hsignificand : (x.significand : ℚ) < 2 ^ 53 := by exact_mod_cast x.canonical.1
  have hexponent : 11 ≤ x.exponent := by
    by_contra hlt
    have hpow : (2 : ℚ) ^ x.exponent ≤ 2 ^ (10 : Int) :=
      zpow_le_zpow_right₀ (by norm_num) (by omega)
    have hlow : x.value < 2 ^ 53 * 2 ^ (10 : Int) := by
      rw [hvalue]
      exact mul_lt_mul hsignificand hpow (by positivity) (by positivity)
    norm_num at hlow hmin
    linarith
  obtain ⟨k, hk⟩ := Int.eq_ofNat_of_zero_le (sub_nonneg.mpr hexponent)
  have hmultiple : x.value = ((x.significand * 2 ^ k * 2048 : Nat) : ℚ) := by
    rw [hvalue, show x.exponent = k + 11 by omega, zpow_add₀ (by norm_num), zpow_natCast]
    push_cast
    ring
  rw [hmultiple] at hmin hmax ⊢
  have hmin' : 2 ^ 63 ≤ x.significand * 2 ^ k * 2048 := by exact_mod_cast hmin
  have hmax' : x.significand * 2 ^ k * 2048 ≤ 2 ^ 63 + 1024 := by exact_mod_cast hmax
  have heq : x.significand * 2 ^ k * 2048 = 2 ^ 63 := by omega
  exact_mod_cast heq

end BrowserTrace.Number.Binary64
