import BrowserTrace.Deflate.Bits
import Mathlib.Algebra.Order.Ring.Nat

/-!
# Numbers and bytes in a bit stream

Each reader of bits takes a fixed piece off the front.  The lemmas of this file say which piece:
`numberBits` for a number, `byteBits` for each of several bytes, and fewer than eight bits of
padding in front of a byte boundary.
-/

namespace BrowserTrace.Deflate

/-! ## Numbers -/

/-- A number in `width` bits, the lowest first. -/
def numberBits (width n : Nat) : Bits := (List.range width).map n.testBit

@[simp] theorem length_numberBits (width n : Nat) : (numberBits width n).length = width := by
  simp [numberBits]

theorem byteBits_eq (b : UInt8) : byteBits b = numberBits 8 b.toNat := rfl

theorem numberBits_succ (width n : Nat) :
    numberBits (width + 1) n = n.testBit 0 :: numberBits width (n / 2) := by
  simp only [numberBits, List.range_succ_eq_map, List.map_cons, List.map_map]
  congr 2
  funext i
  exact Nat.testBit_add_one n i

/-- Putting a bit below a number. -/
theorem numberBits_succ_add (width : Nat) (b : Bool) (n : Nat) :
    numberBits (width + 1) (b.toNat + 2 * n) = b :: numberBits width n := by
  rw [numberBits_succ]
  cases b with
  | false =>
    have hhalf : (false.toNat + 2 * n) / 2 = n := by simp
    rw [hhalf]
    simp [Nat.testBit_zero]
  | true =>
    have hhalf : (true.toNat + 2 * n) / 2 = n := by simp only [Bool.toNat_true]; omega
    rw [hhalf]
    simp [Nat.testBit_zero]

/-- Reading a number takes its bits off the front. -/
theorem readBits?_eq_some_iff {width n : Nat} {bits rest : Bits} :
    readBits? width bits = some (n, rest) ↔ n < 2 ^ width ∧ bits = numberBits width n ++ rest := by
  induction width generalizing n bits with
  | zero =>
    simp only [readBits?, Option.some.injEq, Prod.mk.injEq, Nat.pow_zero, Nat.lt_one_iff]
    constructor
    · rintro ⟨rfl, rfl⟩
      exact ⟨rfl, rfl⟩
    · rintro ⟨rfl, h⟩
      exact ⟨rfl, h⟩
  | succ width ih =>
    cases bits with
    | nil => simp [readBits?, numberBits_succ]
    | cons b bits =>
      have hsplit : n = (n.testBit 0).toNat + 2 * (n / 2) := by
        rw [Nat.testBit_zero]
        rcases Nat.mod_two_eq_zero_or_one n with h | h <;> simp [h] <;> omega
      rw [numberBits_succ]
      constructor
      · intro h
        simp only [readBits?] at h
        split at h
        · next m mid hm =>
          simp only [Option.some.injEq, Prod.mk.injEq] at h
          obtain ⟨rfl, rfl⟩ := h
          obtain ⟨hlt, hbits⟩ := ih.mp hm
          rw [← numberBits_succ, numberBits_succ_add, hbits]
          refine ⟨?_, rfl⟩
          rw [Nat.pow_succ]
          have := b.toNat_le
          omega
        · contradiction
      · rintro ⟨hlt, h⟩
        obtain ⟨rfl, hbits⟩ := List.cons.inj h
        have hm : readBits? width bits = some (n / 2, rest) := by
          refine ih.mpr ⟨?_, hbits⟩
          rw [Nat.pow_succ] at hlt
          omega
        simp only [readBits?, hm, ← hsplit]

theorem readBits?_append {width n : Nat} (hn : n < 2 ^ width) (rest : Bits) :
    readBits? width (numberBits width n ++ rest) = some (n, rest) :=
  readBits?_eq_some_iff.mpr ⟨hn, rfl⟩

/-! ## Bytes -/

theorem length_flatMap_byteBits (bs : List UInt8) :
    (bs.flatMap byteBits).length = 8 * bs.length := by
  induction bs with
  | nil => rfl
  | cons b bs ih =>
    rw [List.flatMap_cons, List.length_append, length_byteBits, ih, List.length_cons]
    omega

theorem readBits?_eight_eq_some_iff {n : Nat} {bits rest : Bits} :
    readBits? 8 bits = some (n, rest) ↔
      ∃ b : UInt8, b.toNat = n ∧ bits = byteBits b ++ rest := by
  rw [readBits?_eq_some_iff]
  constructor
  · rintro ⟨hlt, h⟩
    have hvalue : (UInt8.ofNat n).toNat = n := UInt8.toNat_ofNat_of_lt' hlt
    refine ⟨UInt8.ofNat n, hvalue, ?_⟩
    rw [byteBits_eq, hvalue]
    exact h
  · rintro ⟨b, rfl, h⟩
    exact ⟨b.toNat_lt, h⟩

/-- Reading bytes takes their bits off the front. -/
theorem readBytes_eq_some_iff {count : Nat} {bs : List UInt8} {bits rest : Bits} :
    readBytes count bits = (bs, some rest) ↔
      bs.length = count ∧ bits = bs.flatMap byteBits ++ rest := by
  induction count generalizing bs bits with
  | zero =>
    simp only [readBytes, Prod.mk.injEq, Option.some.injEq, List.length_eq_zero_iff]
    constructor
    · rintro ⟨rfl, rfl⟩
      exact ⟨rfl, rfl⟩
    · rintro ⟨rfl, h⟩
      exact ⟨rfl, h⟩
  | succ count ih =>
    simp only [readBytes]
    constructor
    · intro h
      split at h
      · simp at h
      · next n mid hn =>
        obtain ⟨b, rfl, rfl⟩ := readBits?_eight_eq_some_iff.mp hn
        simp only [Prod.mk.injEq] at h
        obtain ⟨rfl, hrest⟩ := h
        obtain ⟨hlen, hmid⟩ := ih.mp (Prod.ext rfl hrest)
        refine ⟨by rw [List.length_cons, hlen], ?_⟩
        rw [UInt8.ofNat_toNat, List.flatMap_cons, List.append_assoc, ← hmid]
    · rintro ⟨hlen, rfl⟩
      cases bs with
      | nil => contradiction
      | cons b bs =>
        have hb : readBits? 8 ((b :: bs).flatMap byteBits ++ rest) =
            some (b.toNat, bs.flatMap byteBits ++ rest) := by
          refine readBits?_eight_eq_some_iff.mpr ⟨b, rfl, ?_⟩
          rw [List.flatMap_cons, List.append_assoc]
        have hbs := ih.mpr ⟨Nat.succ.inj hlen, rfl⟩
        simp only [hb, hbs, UInt8.ofNat_toNat]

/-! ## Byte boundaries -/

/-- Aligning takes the fewest bits off the front after which whole bytes remain. -/
theorem align_eq_iff {bits rest : Bits} :
    align bits = rest ↔
      ∃ padding : Bits, padding.length < 8 ∧ rest.length % 8 = 0 ∧ bits = padding ++ rest := by
  constructor
  · rintro rfl
    refine ⟨bits.take (bits.length % 8), ?_, ?_, (List.take_append_drop _ bits).symm⟩
    · rw [List.length_take]
      omega
    · rw [align, List.length_drop]
      omega
  · rintro ⟨padding, hlt, hrest, rfl⟩
    have hlen : (padding ++ rest).length % 8 = padding.length := by
      rw [List.length_append]
      omega
    rw [align, hlen, List.drop_left]

end BrowserTrace.Deflate
