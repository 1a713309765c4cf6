import BrowserTrace.Number.Binary64
import Mathlib.Algebra.Order.Ring.Nat
import Mathlib.Tactic.Ring

/-!
# Exact results are not rounded

A fraction that is the magnitude of a double-precision number is rounded to that number
(`HasMagnitude.ofRatio?_eq`).  The point is the exponent: `exponentOf` estimates it from the lengths
of numerator and denominator, which is one too low at most (`HasMagnitude.le_log2_sub`,
`HasMagnitude.log2_sub_le`), and then one comparison puts it right.  So natural numbers of 53 bits
and quotients of them that come out even are exact.
-/

namespace BrowserTrace.Number.Binary64

variable {x y z : Binary64} {num den : Nat}

/-- The magnitude of `x` is the fraction `num / den`. -/
def HasMagnitude (x : Binary64) (num den : Nat) : Prop :=
  x.ratio.1 * den = num * x.ratio.2

namespace HasMagnitude

/-! ## The exponent of a fraction -/

theorem descale_eq (h : x.HasMagnitude num den) :
    (descale num den x.exponent).1 = x.significand * (descale num den x.exponent).2 := by
  simp only [HasMagnitude, ratio, Nat.pow_eq] at h
  simp only [descale, Nat.pow_eq]
  rw [← h, Nat.mul_assoc, Nat.mul_comm den]

/-- One place further down, the significand is twice as large. -/
theorem descale_pred (h : x.HasMagnitude num den) :
    (descale num den (x.exponent - 1)).1 =
      2 * x.significand * (descale num den (x.exponent - 1)).2 := by
  have hd := h.descale_eq
  simp only [descale, Nat.pow_eq] at hd ⊢
  rcases le_or_gt x.exponent 0 with hle | hpos
  · have hdown : (-(x.exponent - 1)).toNat = (-x.exponent).toNat + 1 := by omega
    have hup : (x.exponent - 1).toNat = x.exponent.toNat := by omega
    rw [hdown, hup, Nat.pow_succ, ← Nat.mul_assoc, hd]
    ring
  · have hdown : (-(x.exponent - 1)).toNat = (-x.exponent).toNat := by omega
    have hup : x.exponent.toNat = (x.exponent - 1).toNat + 1 := by omega
    rw [hdown, hd, hup, Nat.pow_succ]
    ring

theorem log2_sub_le (h : x.HasMagnitude num den) (hnum : num ≠ 0) :
    (num.log2 : Int) - den.log2 - 53 ≤ x.exponent := by
  simp only [HasMagnitude, ratio, Nat.pow_eq] at h
  have hsig : x.significand < 2 ^ 53 := x.canonical.1
  have hlt : 2 ^ (num.log2 + (-x.exponent).toNat) < 2 ^ (53 + x.exponent.toNat + (den.log2 + 1)) :=
    calc 2 ^ (num.log2 + (-x.exponent).toNat)
        = 2 ^ num.log2 * 2 ^ (-x.exponent).toNat := Nat.pow_add ..
      _ ≤ num * 2 ^ (-x.exponent).toNat := Nat.mul_le_mul_right _ (Nat.log2_self_le hnum)
      _ = x.significand * 2 ^ x.exponent.toNat * den := h.symm
      _ < 2 ^ 53 * 2 ^ x.exponent.toNat * 2 ^ (den.log2 + 1) :=
        Nat.mul_lt_mul_of_le_of_lt (Nat.mul_le_mul_right _ hsig.le) Nat.lt_log2_self
          (Nat.mul_pos (by decide) (Nat.two_pow_pos _))
      _ = 2 ^ (53 + x.exponent.toNat + (den.log2 + 1)) := by simp only [Nat.pow_add]
  have := (Nat.pow_lt_pow_iff_right (by decide)).mp hlt
  omega

theorem le_log2_sub (h : x.HasMagnitude num den) (hden : den ≠ 0)
    (hnormal : leastNormal ≤ x.significand) :
    x.exponent - 1 ≤ (num.log2 : Int) - den.log2 - 53 := by
  simp only [HasMagnitude, ratio, Nat.pow_eq] at h
  have hlt : 2 ^ (52 + x.exponent.toNat + den.log2) <
      2 ^ (num.log2 + 1 + (-x.exponent).toNat) :=
    calc 2 ^ (52 + x.exponent.toNat + den.log2)
        = 2 ^ 52 * 2 ^ x.exponent.toNat * 2 ^ den.log2 := by simp only [Nat.pow_add]
      _ ≤ x.significand * 2 ^ x.exponent.toNat * den :=
        Nat.mul_le_mul (Nat.mul_le_mul_right _ hnormal) (Nat.log2_self_le hden)
      _ = num * 2 ^ (-x.exponent).toNat := h
      _ < 2 ^ (num.log2 + 1) * 2 ^ (-x.exponent).toNat :=
        Nat.mul_lt_mul_of_pos_right Nat.lt_log2_self (Nat.two_pow_pos _)
      _ = 2 ^ (num.log2 + 1 + (-x.exponent).toNat) := (Nat.pow_add ..).symm
  have := (Nat.pow_lt_pow_iff_right (by decide)).mp hlt
  omega

end HasMagnitude

theorem descale_den_pos (hden : den ≠ 0) (e : Int) : 0 < (descale num den e).2 :=
  Nat.mul_pos (Nat.pos_of_ne_zero hden) (Nat.two_pow_pos _)

theorem HasMagnitude.exponentOf_eq (h : x.HasMagnitude num den) (hnum : num ≠ 0) (hden : den ≠ 0) :
    exponentOf num den = x.exponent := by
  obtain ⟨hsig, hmin, -, hnormal⟩ := x.canonical
  have hupper := h.log2_sub_le hnum
  -- The estimate is right, or one too low, and then the significand has all its 53 bits.
  have hlow : max ((num.log2 : Int) - den.log2 - 53) (-1074) = x.exponent ∨
      leastNormal ≤ x.significand ∧
        max ((num.log2 : Int) - den.log2 - 53) (-1074) = x.exponent - 1 := by
    rcases hnormal with hnormal | hleast
    · have := h.le_log2_sub hden hnormal
      omega
    · omega
  simp only [exponentOf]
  rcases hlow with hlow | ⟨hnormal, hlow⟩
  · rw [hlow, h.descale_eq, Nat.mul_div_cancel _ (descale_den_pos hden _), if_pos hsig]
  · have hge : ¬ 2 * x.significand < 2 * leastNormal := by omega
    rw [hlow, h.descale_pred, Nat.mul_div_cancel _ (descale_den_pos hden _), if_neg hge]
    omega

/-! ## Rounding -/

theorem eq_zero_of_significand (h : x.significand = 0) : x = zero x.negative := by
  have hleast : x.exponent = -1074 := by
    obtain ⟨-, -, -, hnormal | hleast⟩ := x.canonical
    · rw [h] at hnormal
      contradiction
    · exact hleast
  cases x
  simp_all [zero]

/-- A fraction that is the magnitude of `x` is rounded to `x`. -/
theorem HasMagnitude.ofRatio?_eq (h : x.HasMagnitude num den) (hden : den ≠ 0) :
    ofRatio? x.negative num den = some x := by
  by_cases hnum : num = 0
  · have hzero : x.significand = 0 := by
      simpa [HasMagnitude, ratio, hnum, hden] using h
    rw [ofRatio?, if_pos hnum, ← eq_zero_of_significand hzero]
  · have hround : roundDiv (descale num den x.exponent).1 (descale num den x.exponent).2 =
        x.significand := by
      rw [h.descale_eq, roundDiv_mul _ (descale_den_pos hden _)]
    have hne : x.significand ≠ 2 * leastNormal := x.canonical.1.ne
    rw [ofRatio?, if_neg hnum]
    simp only [h.exponentOf_eq hnum hden, hround, if_neg hne, x.canonical, dite_true]

/-! ## Natural numbers -/

variable {n m : Nat}

theorem HasMagnitude.ratio_eq (h : x.HasMagnitude n 1) : x.ratio.1 = n * x.ratio.2 := by
  rw [← h, Nat.mul_one]

theorem HasMagnitude.isZero_eq (h : x.HasMagnitude n 1) : x.isZero = decide (n = 0) := by
  have hpow : ∀ k, Nat.pow 2 k ≠ 0 := fun k ↦ (Nat.two_pow_pos k).ne'
  have hiff : x.significand = 0 ↔ n = 0 := by
    have hratio := h.ratio_eq
    simp only [ratio] at hratio
    constructor
    · intro hzero
      rw [hzero, Nat.zero_mul] at hratio
      exact (Nat.mul_eq_zero.mp hratio.symm).resolve_right (hpow _)
    · intro hzero
      rw [hzero, Nat.zero_mul] at hratio
      exact (Nat.mul_eq_zero.mp hratio).resolve_right (hpow _)
  rw [isZero, ← decide_eq_decide.mpr hiff]
  rfl

/-- A natural number of at most 53 bits is exact. -/
theorem exists_ofNat? (h : n < 2 * leastNormal) :
    ∃ y, ofNat? n = some y ∧ y.negative = false ∧ y.HasMagnitude n 1 := by
  by_cases hn : n = 0
  · subst hn
    exact ⟨zero false, rfl, rfl, by simp only [HasMagnitude, ratio, zero, Nat.zero_mul]⟩
  · have hlog : n.log2 ≤ 52 := Nat.le_of_lt_succ ((Nat.log2_lt hn).mpr h)
    have hcanonical : Canonical (n * 2 ^ (52 - n.log2)) (-(52 - n.log2 : Nat)) := by
      refine ⟨?_, by omega, by omega, .inl ?_⟩
      · calc n * 2 ^ (52 - n.log2)
            < 2 ^ (n.log2 + 1) * 2 ^ (52 - n.log2) :=
              Nat.mul_lt_mul_of_pos_right Nat.lt_log2_self (Nat.two_pow_pos _)
          _ = 2 ^ 53 := by rw [← Nat.pow_add]; congr 1; omega
      · calc 2 ^ 52 = 2 ^ n.log2 * 2 ^ (52 - n.log2) := by rw [← Nat.pow_add]; congr 1; omega
          _ ≤ n * 2 ^ (52 - n.log2) := Nat.mul_le_mul_right _ (Nat.log2_self_le hn)
    have hmagnitude : HasMagnitude ⟨false, _, _, hcanonical⟩ n 1 := by
      simp [HasMagnitude, ratio]
    exact ⟨_, hmagnitude.ofRatio?_eq Nat.one_ne_zero, rfl, hmagnitude⟩

/-- A quotient of natural numbers that comes out even is exact. -/
theorem HasMagnitude.div?_eq (hx : x.HasMagnitude (n * m) 1) (hy : y.HasMagnitude m 1)
    (hz : z.HasMagnitude n 1) (hm : m ≠ 0) (hsign : z.negative = (x.negative != y.negative)) :
    x.div? y = some z := by
  have hmagnitude : z.HasMagnitude (x.ratio.1 * y.ratio.2) (x.ratio.2 * y.ratio.1) := by
    rw [HasMagnitude, hx.ratio_eq, hy.ratio_eq, hz.ratio_eq]
    ring
  have hden : x.ratio.2 * y.ratio.1 ≠ 0 := by
    rw [hy.ratio_eq]
    exact Nat.mul_ne_zero (Nat.two_pow_pos _).ne' (Nat.mul_ne_zero hm (Nat.two_pow_pos _).ne')
  rw [div?, hy.isZero_eq, decide_eq_false hm, ← hsign]
  exact hmagnitude.ofRatio?_eq hden

theorem hasMagnitude_of_toInt? {i : Int} (h : x.toInt? = some i) : x.HasMagnitude i.natAbs 1 := by
  unfold toInt? at h
  split at h
  · next hmod =>
    have habs : i.natAbs = x.ratio.1 / x.ratio.2 := by
      rw [← Option.some.inj h, truncate]
      split
      · rw [Int.natAbs_neg, Int.natAbs_natCast]
      · rw [Int.natAbs_natCast]
    rw [HasMagnitude, habs, Nat.mul_one, Nat.div_mul_cancel (Nat.dvd_of_mod_eq_zero hmod)]
  · contradiction

end BrowserTrace.Number.Binary64
