import BrowserTrace.Proofs.Json.Lexeme
import BrowserTrace.Proofs.Number.Shortest

/-!
# Whole floating-point numbers are read back

A floating-point number that is whole is written with `.0` behind its digits, and such a text is read
as one more digit that is then divided away: the significand is ten times the number, the power of
ten is `-1`.  Neither of the two roundings of the reader does anything as long as ten times the
number has 53 bits (`readNumber_floatText`).
-/

namespace BrowserTrace.Json

open Number (Binary64 maxWord leastNormal)
open Number.Binary64 (HasMagnitude)

/-! ## Gathering the significand -/

/-- Digits before the point add up to the number that they spell, while it fits in 64 bits. -/
theorem foldl_addWhole_toDigits {n : Nat} (h : n ≤ maxWord) :
    (Nat.toDigits 10 n).foldl Significand.addWhole ⟨0, 0, false⟩ = ⟨n, 0, false⟩ := by
  have hdigit : ∀ m < 10, Number.digitValue (Nat.digitChar m) = m := fun m hm ↦
    Nat.toNat_digitChar_sub_48_of_lt_ten hm
  induction n using Nat.strongRecOn with
  | ind n ih =>
    rw [Nat.toDigits_eq_if (by decide)]
    split
    · next hlt =>
      have hfits : Significand.fits ⟨0, 0, false⟩ n = true := by
        simpa [Significand.fits] using h
      simp only [List.foldl_cons, List.foldl_nil, Significand.addWhole, hdigit n hlt, hfits, if_true,
        Nat.mul_zero, Nat.zero_add]
    · next hge =>
      have hmod : n % 10 < 10 := Nat.mod_lt n (by decide)
      have hn : 10 * (n / 10) + n % 10 = n := Nat.div_add_mod n 10
      have hfits : Significand.fits ⟨n / 10, 0, false⟩ (n % 10) = true := by
        simpa [Significand.fits, hn] using h
      rw [List.foldl_append, ih (n / 10) (by omega) (by omega)]
      simp only [List.foldl_cons, List.foldl_nil, Significand.addWhole, hdigit _ hmod, hfits,
        if_true, hn]

/-- The parts of the text of a whole number that keeps its point. -/
def wholeText (negative : Bool) (n : Nat) : NumberText :=
  { negative, whole := Nat.toDigits 10 n, fraction := ['0'], exponent := 0, isPlain := false }

theorem ofText_wholeText (negative : Bool) {n : Nat} (h : n * 10 ≤ maxWord) :
    Significand.ofText (wholeText negative n) = ⟨n * 10, -1, false⟩ := by
  have hfits : Significand.fits ⟨n, 0, false⟩ (Number.digitValue '0') = true := by
    simpa [Significand.fits, Number.digitValue, Nat.mul_comm] using h
  have hwhole : n ≤ maxWord := by omega
  simp only [Significand.ofText, wholeText, foldl_addWhole_toDigits hwhole, List.foldl_cons,
    List.foldl_nil, Significand.addFraction, hfits, if_true]
  simp [Number.digitValue, Nat.mul_comm]

/-! ## Valuing it -/

/-- Ten times a whole number is divided by ten without rounding. -/
theorem scale?_neg_one {x y : Binary64} {n : Nat} (hx : x.HasMagnitude n 1)
    (hy : y.HasMagnitude (n * 10) 1) (hsign : x.negative = y.negative) :
    scale? y (-1) = some x := by
  have hzero : y.isZero = decide (n = 0) := by
    rw [hy.isZero_eq]
    exact decide_eq_decide.mpr (by omega)
  unfold scale?
  rw [hzero]
  by_cases hn : n = 0
  · rw [if_pos (decide_eq_true hn), ← hy.ofRatio?_eq Nat.one_ne_zero, hn, Nat.zero_mul, ← hsign]
    exact (hn ▸ hx).ofRatio?_eq Nat.one_ne_zero
  · obtain ⟨ten, hten, hpositive, hmagnitude⟩ :=
      Number.Binary64.exists_ofNat? (n := 10) (by decide)
    have hdiv : y.div? ten = some x :=
      hy.div?_eq hmagnitude hx (by decide) (by rw [hpositive, hsign, Bool.bne_false])
    have hpower : divideByPower y 1 = some x := by
      unfold divideByPower
      rw [hzero, decide_eq_false hn, if_neg Bool.false_ne_true, if_pos (by decide)]
      change Option.bind (Binary64.ofNat? 10) _ = _
      rw [hten]
      exact hdiv
    rw [decide_eq_false hn, if_neg Bool.false_ne_true, if_pos (by decide)]
    exact hpower

theorem value_wholeText {x : Binary64} {n : Nat} (hx : x.HasMagnitude n 1)
    (hlt : n * 10 < 2 * leastNormal) : (wholeText x.negative n).value = .ok (.float x) := by
  obtain ⟨y, hy, hpositive, hmagnitude⟩ := Number.Binary64.exists_ofNat? hlt
  obtain ⟨negative, significand, exponent, hcanonical⟩ := x
  have hscale : scale? y (-1) = some ⟨false, significand, exponent, hcanonical⟩ :=
    scale?_neg_one (n := n) hx hmagnitude hpositive.symm
  have hword : n * 10 ≤ maxWord := Nat.le_of_lt (Nat.lt_trans hlt (by decide))
  have hfloat : (wholeText negative n).float? = some ⟨negative, significand, exponent, hcanonical⟩ := by
    simp only [NumberText.float?, ofText_wholeText negative hword, hy, Option.bind_eq_bind,
      Option.bind_some, hscale]
    cases negative <;> rfl
  have hinteger : (wholeText negative n).integer? = none := rfl
  simp only [NumberText.value, hinteger, hfloat]

/-! ## Reading it -/

variable {rest : List Char}

/-- The parts of a number with a point, after its sign. -/
theorem splitNumber_wholeText (h : EndsNumber rest) (negative : Bool) (n : Nat) :
    splitNumber negative (Nat.toDigits 10 n ++ '.' :: '0' :: rest) =
      .ok (wholeText negative n, rest) := by
  have hpoint : EndsDigits ('.' :: '0' :: rest) := by
    rintro c ⟨⟩
    rfl
  have hfraction : readFraction ('.' :: '0' :: rest) = .ok (['0'], rest) :=
    readDigits_toDigits h.endsDigits 0
  simp only [splitNumber, readWhole_toDigits hpoint, hfraction, readExponent_eq_none h]
  rfl

/-- A whole floating-point number is written as its digits and `.0`. -/
theorem render_wholeText {x : Binary64} {n : Nat} (hx : x.HasMagnitude n 1)
    (hlt : n < 2 * leastNormal) :
    floatLayout.render x =
      (if x.negative then ['-'] else []) ++ (Nat.toDigits 10 n ++ ['.', '0']) := by
  have hpos : 0 < Number.digitCount n := Nat.length_toDigits_pos
  have hle := Number.Binary64.digitCount_le_sixteen hlt
  have hstyle : floatLayout.isPositional ((Number.digitCount n : Int) - 1) = true := by
    simp only [Number.Layout.isPositional, floatLayout, Option.all_some, Bool.and_eq_true,
      decide_eq_true_eq]
    omega
  exact hx.render_eq hlt hstyle

/-- A whole floating-point number is read back. -/
theorem readNumber_floatText (h : EndsNumber rest) {x : Binary64} {n : Nat}
    (hx : x.HasMagnitude n 1) (hlt : n * 10 < 2 * leastNormal) :
    readNumber (floatLayout.render x ++ rest) = .ok (.float x, rest) := by
  have hvalue := value_wholeText hx hlt
  have hsplit := splitNumber_wholeText h x.negative n
  rw [render_wholeText hx (by omega)]
  cases hsign : x.negative with
  | true =>
    rw [hsign] at hsplit hvalue
    simp only [if_true, List.cons_append, List.nil_append, List.append_assoc]
    exact readNumber_minus hsplit hvalue
  | false =>
    rw [hsign] at hsplit hvalue
    obtain ⟨d, ds, hds⟩ := List.exists_cons_of_ne_nil (Nat.toDigits_ne_nil (b := 10) (n := n))
    have hd : d ≠ '-' := by
      rintro rfl
      exact absurd (isDigit_of_mem_toDigits (hds ▸ List.mem_cons_self)) (by decide)
    simp only [Bool.false_eq_true, if_false, List.nil_append, List.append_assoc, List.cons_append]
    rw [hds, List.cons_append] at hsplit ⊢
    exact readNumber_of_ne_minus hd hsplit hvalue

end BrowserTrace.Json
