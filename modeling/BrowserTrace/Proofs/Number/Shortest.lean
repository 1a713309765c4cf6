import BrowserTrace.Number.Decimal
import BrowserTrace.Proofs.Number.Exact

/-!
# Whole numbers are written with all their digits

A whole number of at most 53 bits is written as its decimal digits, although the printer looks for
the shortest decimal that reads back: neighbouring numbers of the format lie less than one apart
there, so a decimal without places behind the point reads back only if it is the number itself
(`HasMagnitude.readsBack_iff`).  The zeros that the shortest coefficient lacks are filled up again by
the layout (`HasMagnitude.render_eq`).
-/

namespace BrowserTrace.Number

/-! ## Decimals that are natural numbers -/

/-- The decimal is the natural number `n`, written without places behind the point. -/
def Decimal.IsNat (d : Decimal) (n : Nat) : Prop :=
  ∃ p : Nat, d.exponent = p ∧ d.coefficient * 10 ^ p = n

theorem Decimal.IsNat.trimZeros {d : Decimal} {n : Nat} (h : d.IsNat n) : d.trimZeros.IsNat n := by
  fun_induction Decimal.trimZeros d with
  | case1 d hd ih =>
    obtain ⟨p, hp, rfl⟩ := h
    have hmul : d.coefficient / 10 * 10 = d.coefficient :=
      Nat.div_mul_cancel (Nat.dvd_of_mod_eq_zero hd.2)
    refine ih ⟨p + 1, by simp [hp], ?_⟩
    rw [Nat.pow_succ, Nat.mul_comm _ 10, ← Nat.mul_assoc, hmul]
  | case2 => exact h

/-- Zeros behind a number are powers of ten. -/
theorem toDigits_mul_pow {n : Nat} (h : 0 < n) (p : Nat) :
    Nat.toDigits 10 (n * 10 ^ p) = Nat.toDigits 10 n ++ List.replicate p '0' := by
  induction p with
  | zero => rw [Nat.pow_zero, Nat.mul_one, List.replicate_zero, List.append_nil]
  | succ p ih =>
    have hpos : 0 < n * 10 ^ p := Nat.mul_pos h (Nat.pow_pos (by decide))
    rw [Nat.pow_succ, ← Nat.mul_assoc, Nat.mul_comm _ 10, ← Nat.add_zero (10 * _),
      ← Nat.toDigits_append_toDigits (by decide) hpos (by decide), ih, List.append_assoc,
      List.replicate_succ']
    rfl

namespace Binary64

variable {x : Binary64} {n : Nat}

/-! ## Decimals that read back -/

theorem HasMagnitude.exponent_nonpos (h : x.HasMagnitude n 1) (hlt : n < 2 * leastNormal) :
    x.exponent ≤ 0 := by
  obtain ⟨-, -, -, hnormal | hleast⟩ := x.canonical
  · by_contra hpos
    have hdown : (-x.exponent).toNat = 0 := by omega
    have hup : x.exponent.toNat = (x.exponent.toNat - 1) + 1 := by omega
    have hn : x.significand * 2 ^ x.exponent.toNat = n := by
      simpa [HasMagnitude, ratio, hdown] using h
    have hge : leastNormal * 2 ≤ n :=
      calc leastNormal * 2 ≤ x.significand * 2 ^ x.exponent.toNat :=
          Nat.mul_le_mul hnormal (by
            rw [hup, Nat.pow_succ]
            exact Nat.le_mul_of_pos_left 2 (Nat.two_pow_pos _))
        _ = n := hn
    omega
  · omega

theorem HasMagnitude.significand_eq (h : x.HasMagnitude n 1) (hlt : n < 2 * leastNormal) :
    x.significand = n * 2 ^ (-x.exponent).toNat := by
  have hexponent : x.exponent.toNat = 0 := Int.toNat_of_nonpos (h.exponent_nonpos hlt)
  simpa [HasMagnitude, ratio, hexponent] using h

/-- A decimal without places behind the point reads back only if it is the number itself. -/
theorem HasMagnitude.readsBack_iff (h : x.HasMagnitude n 1) (hpos : 0 < n)
    (hlt : n < 2 * leastNormal) (c p : Nat) : x.readsBack ⟨c, p⟩ ↔ c * 10 ^ p = n := by
  have hup : x.exponent.toNat = 0 := Int.toNat_of_nonpos (h.exponent_nonpos hlt)
  obtain ⟨u, hu⟩ : ∃ u, 2 ^ (-x.exponent).toNat = u := ⟨_, rfl⟩
  have hunit : 0 < u := hu ▸ Nat.two_pow_pos _
  have hsig : x.significand = n * u := hu ▸ h.significand_eq hlt
  have hscales : x.scales p = (1, 4 * u * 10 ^ p) := by
    simp [scales, hup, hu]
  have hscaled : c * (4 * u * 10 ^ p) = 4 * (c * 10 ^ p * u) := by ring
  obtain ⟨below, hbelow, hinterval⟩ : ∃ below, (below = 1 ∨ below = 2) ∧
      x.interval = (4 * (n * u) - below, 4 * (n * u) + 2) := by
    rw [interval, hsig]
    split
    · exact ⟨1, .inl rfl, rfl⟩
    · exact ⟨2, .inr rfl, rfl⟩
  have hnu : u ≤ n * u := Nat.le_mul_of_pos_left u hpos
  simp only [readsBack, hscales, hinterval, hscaled, Nat.mul_one]
  rcases Nat.lt_trichotomy (c * 10 ^ p) n with hless | heq | hmore
  · have hgap : c * 10 ^ p * u + u ≤ n * u := by
      rw [← Nat.succ_mul]
      exact Nat.mul_le_mul_right u hless
    split <;> simp only [Bool.and_eq_true, decide_eq_true_eq] <;> omega
  · simp only [heq, iff_true]
    split <;> simp only [Bool.and_eq_true, decide_eq_true_eq] <;> omega
  · have hgap : n * u + u ≤ c * 10 ^ p * u := by
      rw [← Nat.succ_mul]
      exact Nat.mul_le_mul_right u hmore
    split <;> simp only [Bool.and_eq_true, decide_eq_true_eq] <;> omega

/-! ## The shortest decimal -/

theorem readsBack_of_decimalOf? {digits : Nat} {d : Decimal} (h : x.decimalOf? digits = some d) :
    x.readsBack d ∧ d.exponent = leadingExponent x.ratio.1 x.ratio.2 - (digits - 1 : Nat) := by
  simp only [decimalOf?] at h
  split at h
  · next hfloor hceil =>
    obtain rfl := Option.some.inj h
    refine ⟨?_, rfl⟩
    split
    · exact hfloor
    · exact hceil
  · next hfloor _ =>
    obtain rfl := Option.some.inj h
    exact ⟨hfloor, rfl⟩
  · next _ hceil =>
    obtain rfl := Option.some.inj h
    exact ⟨hceil, rfl⟩
  · contradiction

theorem HasMagnitude.leadingExponent_eq (h : x.HasMagnitude n 1) (hpos : 0 < n) :
    leadingExponent x.ratio.1 x.ratio.2 = (digitCount n : Int) - 1 := by
  have hden : 0 < x.ratio.2 := Nat.two_pow_pos _
  rw [leadingExponent, h.ratio_eq, if_pos (Nat.le_mul_of_pos_left _ hpos),
    Nat.mul_div_cancel _ hden]

theorem HasMagnitude.isNat_of_decimalOf? (h : x.HasMagnitude n 1) (hpos : 0 < n)
    (hlt : n < 2 * leastNormal) {i : Nat} (hi : i < digitCount n) {d : Decimal}
    (hd : x.decimalOf? (i + 1) = some d) : d.IsNat n := by
  obtain ⟨hreads, hexponent⟩ := readsBack_of_decimalOf? hd
  have hplace : d.exponent = (digitCount n - 1 - i : Nat) := by
    rw [hexponent, h.leadingExponent_eq hpos]
    omega
  obtain ⟨c, e⟩ := d
  obtain rfl : e = _ := hplace
  exact ⟨_, rfl, (h.readsBack_iff hpos hlt _ _).mp hreads⟩

/-- With all its digits, the number reads back. -/
theorem HasMagnitude.isSome_decimalOf? (h : x.HasMagnitude n 1) (hpos : 0 < n)
    (hlt : n < 2 * leastNormal) : (x.decimalOf? (digitCount n)).isSome := by
  have hcount : 0 < digitCount n := Nat.length_toDigits_pos
  have hplace : leadingExponent x.ratio.1 x.ratio.2 - (digitCount n - 1 : Nat) = (0 : Nat) := by
    rw [h.leadingExponent_eq hpos]
    omega
  have hup : x.exponent.toNat = 0 := Int.toNat_of_nonpos (h.exponent_nonpos hlt)
  have hfloor : 4 * x.significand * (x.scales (0 : Nat)).1 / (x.scales (0 : Nat)).2 = n := by
    have hunit : 0 < 4 * 2 ^ (-x.exponent).toNat := Nat.mul_pos (by decide) (Nat.two_pow_pos _)
    have hscales : x.scales (0 : Nat) = (1, 4 * 2 ^ (-x.exponent).toNat) := by simp [scales, hup]
    rw [hscales, h.significand_eq hlt, Nat.mul_one, Nat.mul_left_comm, Nat.mul_div_cancel _ hunit]
  have hreads : x.readsBack ⟨n, (0 : Nat)⟩ = true :=
    (h.readsBack_iff hpos hlt n 0).mpr (by rw [Nat.pow_zero, Nat.mul_one])
  simp only [decimalOf?, hplace, hfloor, hreads]
  split <;> simp_all

/-- A search through the first numbers ends at the least one that is found, or before it. -/
theorem exists_findSome?_range {α : Type} {f : Nat → Option α} {j k : Nat} (hj : j < k)
    (hf : (f j).isSome) : ∃ i ≤ j, ∃ a, f i = some a ∧ (List.range k).findSome? f = some a := by
  induction k with
  | zero => contradiction
  | succ k ih =>
    rw [List.range_succ, List.findSome?_append]
    cases hfirst : (List.range k).findSome? f with
    | some a =>
      rcases Nat.lt_or_ge j k with hlt | hge
      · obtain ⟨i, hi, a', ha', hfind⟩ := ih hlt
        rw [hfirst] at hfind
        obtain rfl := Option.some.inj hfind
        exact ⟨i, hi, a, ha', rfl⟩
      · obtain ⟨i, hi, ha⟩ := List.exists_of_findSome?_eq_some hfirst
        exact ⟨i, Nat.le_trans (List.mem_range.mp hi).le hge, a, ha, rfl⟩
    | none =>
      have hge : k ≤ j := by
        by_contra hlt
        have hnone := List.findSome?_eq_none_iff.mp hfirst j (List.mem_range.mpr (by omega))
        rw [hnone] at hf
        contradiction
      obtain rfl : j = k := by omega
      obtain ⟨a, ha⟩ := Option.isSome_iff_exists.mp hf
      exact ⟨j, Nat.le_refl j, a, ha, by simp [ha]⟩

theorem digitCount_le_sixteen (hlt : n < 2 * leastNormal) : digitCount n ≤ 16 := by
  rw [digitCount, Nat.length_toDigits_le_iff (by decide) (by decide)]
  exact Nat.lt_trans hlt (by decide)

/-- The shortest decimal of a whole number is that number. -/
theorem HasMagnitude.isNat_shortest (h : x.HasMagnitude n 1) (hlt : n < 2 * leastNormal) :
    x.shortest.IsNat n := by
  unfold shortest
  rw [h.isZero_eq]
  by_cases hn : n = 0
  · rw [if_pos (decide_eq_true hn), hn]
    exact ⟨0, rfl, rfl⟩
  · have hpos : 0 < n := Nat.pos_of_ne_zero hn
    have hcount : 0 < digitCount n := Nat.length_toDigits_pos
    have hlast : (x.decimalOf? (digitCount n - 1 + 1)).isSome := by
      rw [Nat.sub_add_cancel hcount]
      exact h.isSome_decimalOf? hpos hlt
    have := digitCount_le_sixteen hlt
    obtain ⟨i, hi, d, hd, hfind⟩ := exists_findSome?_range (k := 17)
      (f := fun i ↦ x.decimalOf? (i + 1)) (by omega) hlast
    rw [if_neg (by simp [hn]), hfind]
    exact (h.isNat_of_decimalOf? hpos hlt (by omega) hd).trimZeros

end Binary64

/-! ## Layout -/

/-- A decimal that is a natural number has the digits of that number, once its zeros are filled
up. -/
theorem Decimal.IsNat.toDigits_eq {d : Decimal} {n : Nat} (h : d.IsNat n) (hzero : n = 0 → d = ⟨0, 0⟩) :
    ∃ p : Nat, d.exponent = p ∧
      Nat.toDigits 10 n = Nat.toDigits 10 d.coefficient ++ List.replicate p '0' := by
  obtain ⟨p, hp, hn⟩ := h
  rcases Nat.eq_zero_or_pos d.coefficient with hc | hc
  · have hn : n = 0 := by rw [← hn, hc, Nat.zero_mul]
    rw [hzero hn, hn]
    exact ⟨0, rfl, rfl⟩
  · exact ⟨p, hp, by rw [← hn, toDigits_mul_pow hc]⟩

theorem shortest_of_zero {x : Binary64} (h : x.HasMagnitude 0 1) : x.shortest = ⟨0, 0⟩ := by
  rw [Binary64.shortest, h.isZero_eq]
  rfl

/-- A whole number that is written positionally is its digits, and a point with a zero if the layout
keeps them. -/
theorem Binary64.HasMagnitude.render_eq {x : Binary64} {n : Nat} (h : x.HasMagnitude n 1)
    (hlt : n < 2 * leastNormal) {style : Layout}
    (hstyle : style.isPositional ((digitCount n : Int) - 1)) :
    style.render x = (if x.negative then ['-'] else []) ++
      (Nat.toDigits 10 n ++ if style.keepsPoint then ['.', '0'] else []) := by
  obtain ⟨p, hp, hdigits⟩ := (h.isNat_shortest hlt).toDigits_eq fun hn ↦
    shortest_of_zero (hn ▸ h)
  have hcount : (digitCount n : Int) =
      p + (Nat.toDigits 10 x.shortest.coefficient).length := by
    rw [digitCount, hdigits, List.length_append, List.length_replicate]
    omega
  have hexponent : x.shortest.exponent + (Nat.toDigits 10 x.shortest.coefficient).length - 1 =
      (digitCount n : Int) - 1 := by
    rw [hp, hcount]
  have hwhole : (digitCount n : Int) - 1 + 1 = digitCount n := by omega
  have hpos : ¬ (digitCount n : Int) ≤ 0 := by
    have : 0 < digitCount n := Nat.length_toDigits_pos
    omega
  have hle : (Nat.toDigits 10 x.shortest.coefficient).length ≤ digitCount n := by omega
  have hfill : digitCount n - (Nat.toDigits 10 x.shortest.coefficient).length = p := by omega
  simp only [Layout.render, hexponent, hstyle, if_true, hwhole, Layout.point, if_neg hpos,
    Int.toNat_natCast, if_pos hle, hfill, ← hdigits]

end BrowserTrace.Number
