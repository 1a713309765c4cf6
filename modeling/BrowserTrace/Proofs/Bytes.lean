import BrowserTrace.Bytes
import Mathlib.Algebra.Order.Ring.Nat

/-!
# Numbers and runs of bytes inside a byte array

The readers of `Bytes` answer with an optional machine word.  Statements about a file format are
easier to read over plain numbers, so this file says what number a run of bytes stands for
(`Bytes.numberAt`) and that the readers find exactly it (`u16At?_eq_some_iff`,
`u32At?_eq_some_iff`).

A format is written as one run of bytes after another.  `Bytes.Holds b pos xs` says that the run
`xs` stands in `b` at `pos`; it splits along `++` (`holds_append_iff`), and a run of bytes that was
written from a number reads back as that number (`Holds.numberAt_u16`, `Holds.numberAt_u32`).

A reader looks at some runs of bytes only.  Where two arrays agree (`Bytes.Agree`) they have the same
numbers and the same extracts, whatever they hold elsewhere.
-/

namespace BrowserTrace.Bytes

/-! ## The number of a run of bytes -/

/-- The number whose bytes are these, the lowest first. -/
def littleEndian : List UInt8 → Nat
  | [] => 0
  | x :: xs => x.toNat + 256 * littleEndian xs

/-- The number whose bytes are the `width` ones from `pos` on, the lowest first. -/
def numberAt (b : ByteArray) (pos width : Nat) : Nat :=
  littleEndian ((b.data.toList.drop pos).take width)

theorem littleEndian_lt (xs : List UInt8) : littleEndian xs < 256 ^ xs.length := by
  induction xs with
  | nil => simp [littleEndian]
  | cons x xs ih =>
    have := x.toNat_lt
    rw [littleEndian, List.length_cons, Nat.pow_succ]
    omega

theorem numberAt_lt (b : ByteArray) (pos width : Nat) : numberAt b pos width < 256 ^ width :=
  Nat.lt_of_lt_of_le (littleEndian_lt _)
    (Nat.pow_le_pow_right (by decide) (List.length_take_le _ _))

@[simp] theorem littleEndian_u16Bytes (x : UInt16) : littleEndian (u16Bytes x) = x.toNat := by
  have h := x.toNat_lt
  simp only [u16Bytes, littleEndian, UInt8.toNat_ofNat']
  omega

@[simp] theorem littleEndian_u32Bytes (x : UInt32) : littleEndian (u32Bytes x) = x.toNat := by
  have h := x.toNat_lt
  simp only [u32Bytes, littleEndian, UInt8.toNat_ofNat']
  omega

/-! ## The readers -/

/-- The first byte of a run, when the run begins inside the array. -/
theorem drop_data_eq_cons {b : ByteArray} {pos : Nat} (h : pos < b.size) :
    b.data.toList.drop pos = b[pos] :: b.data.toList.drop (pos + 1) :=
  List.drop_eq_getElem_cons (by simpa using h)

theorem u16At?_eq_some_iff {b : ByteArray} {pos : Nat} {x : UInt16} :
    u16At? b pos = some x ↔ pos + 2 ≤ b.size ∧ numberAt b pos 2 = x.toNat := by
  unfold u16At?
  split
  · next h =>
    have hn : numberAt b pos 2 = (u16OfBytes b[pos] b[pos + 1]).toNat := by
      rw [numberAt, drop_data_eq_cons (by omega), drop_data_eq_cons (by omega), toNat_u16OfBytes]
      simp [littleEndian]
    rw [hn, UInt16.toNat_inj, Option.some_inj]
    exact (and_iff_right h).symm
  · next h => simp [h]

theorem u32At?_eq_some_iff {b : ByteArray} {pos : Nat} {x : UInt32} :
    u32At? b pos = some x ↔ pos + 4 ≤ b.size ∧ numberAt b pos 4 = x.toNat := by
  unfold u32At?
  split
  · next h =>
    have hn : numberAt b pos 4 =
        (u32OfBytes b[pos] b[pos + 1] b[pos + 2] b[pos + 3]).toNat := by
      rw [numberAt, drop_data_eq_cons (by omega), drop_data_eq_cons (by omega),
        drop_data_eq_cons (by omega), drop_data_eq_cons (by omega), toNat_u32OfBytes]
      simp [littleEndian]
    rw [hn, UInt32.toNat_inj, Option.some_inj]
    exact (and_iff_right h).symm
  · next h => simp [h]

@[simp] theorem toNat_ofNat_numberAt_two (b : ByteArray) (pos : Nat) :
    (UInt16.ofNat (numberAt b pos 2)).toNat = numberAt b pos 2 :=
  UInt16.toNat_ofNat_of_lt' (numberAt_lt b pos 2)

@[simp] theorem toNat_ofNat_numberAt_four (b : ByteArray) (pos : Nat) :
    (UInt32.ofNat (numberAt b pos 4)).toNat = numberAt b pos 4 :=
  UInt32.toNat_ofNat_of_lt' (numberAt_lt b pos 4)

/-- The two-byte field at a position that leaves room for it. -/
theorem u16At?_of_le {b : ByteArray} {pos : Nat} (h : pos + 2 ≤ b.size) :
    u16At? b pos = some (UInt16.ofNat (numberAt b pos 2)) :=
  u16At?_eq_some_iff.mpr ⟨h, (toNat_ofNat_numberAt_two b pos).symm⟩

/-- The four-byte field at a position that leaves room for it. -/
theorem u32At?_of_le {b : ByteArray} {pos : Nat} (h : pos + 4 ≤ b.size) :
    u32At? b pos = some (UInt32.ofNat (numberAt b pos 4)) :=
  u32At?_eq_some_iff.mpr ⟨h, (toNat_ofNat_numberAt_four b pos).symm⟩

theorem u16At?_of_lt {b : ByteArray} {pos : Nat} (h : b.size < pos + 2) : u16At? b pos = none := by
  rw [← Option.isNone_iff_eq_none, ← Option.not_isSome, isSome_u16At?]
  simpa using h

/-! ## Runs of bytes -/

theorem length_toList_data (b : ByteArray) : b.data.toList.length = b.size := Array.length_toList

/-- The bytes `xs` stand in `b` from `pos` on. -/
def Holds (b : ByteArray) (pos : Nat) (xs : List UInt8) : Prop :=
  xs <+: b.data.toList.drop pos

variable {b : ByteArray} {pos : Nat} {xs ys : List UInt8}

theorem holds_append_iff :
    Holds b pos (xs ++ ys) ↔ Holds b pos xs ∧ Holds b (pos + xs.length) ys := by
  unfold Holds
  rw [← List.drop_drop]
  constructor
  · rintro ⟨rest, h⟩
    rw [← h, List.append_assoc, List.drop_left]
    exact ⟨List.prefix_append _ _, List.prefix_append _ _⟩
  · rintro ⟨⟨rest, hx⟩, hy⟩
    rw [← hx, List.drop_left] at hy
    rw [← hx]
    exact (List.prefix_append_right_inj xs).mpr hy

theorem Holds.left (h : Holds b pos (xs ++ ys)) : Holds b pos xs := (holds_append_iff.mp h).1

/-- All bytes of an array stand at its start. -/
theorem holds_zero (b : ByteArray) : Holds b 0 b.data.toList := List.prefix_refl _

theorem Holds.add_length_le (h : Holds b pos xs) (hpos : pos ≤ b.size) :
    pos + xs.length ≤ b.size := by
  have hl := List.IsPrefix.length_le h
  rw [List.length_drop, length_toList_data] at hl
  omega

theorem Holds.numberAt_eq (h : Holds b pos xs) : numberAt b pos xs.length = littleEndian xs := by
  rw [numberAt, ← List.prefix_iff_eq_take.mp h]

theorem Holds.numberAt_u16 {x : UInt16} (h : Holds b pos (u16Bytes x)) :
    numberAt b pos 2 = x.toNat := h.numberAt_eq.trans (littleEndian_u16Bytes x)

theorem Holds.numberAt_u32 {x : UInt32} (h : Holds b pos (u32Bytes x)) :
    numberAt b pos 4 = x.toNat := h.numberAt_eq.trans (littleEndian_u32Bytes x)

/-- Cutting out the beginning of the place of a run gives the beginning of the run. -/
theorem Holds.extract_add_eq {x : ByteArray} {k : Nat} (h : Holds b pos x.data.toList)
    (hk : k ≤ x.size) : b.extract pos (pos + k) = x.extract 0 k := by
  apply ByteArray.ext
  apply Array.toList_inj.mp
  have hx := List.prefix_iff_eq_take.mp h
  rw [length_toList_data] at hx
  rw [ByteArray.data_extract, ByteArray.data_extract, Array.toList_extract, Array.toList_extract,
    List.extract_eq_take_drop, List.extract_eq_take_drop, Nat.add_sub_cancel_left, List.drop_zero,
    Nat.sub_zero, hx, List.take_take, Nat.min_eq_left hk]

/-- Cutting out the place of a run gives the run. -/
theorem Holds.extract_eq {x : ByteArray} (h : Holds b pos x.data.toList) :
    b.extract pos (pos + x.size) = x := by
  rw [h.extract_add_eq (Nat.le_refl x.size), ByteArray.extract_zero_size]

/-! ## Parts of an array -/

section Part

variable {n : Nat}

theorem size_extract_add (h : pos + n ≤ b.size) : (b.extract pos (pos + n)).size = n := by
  rw [ByteArray.size_extract, Nat.min_eq_left h, Nat.add_sub_cancel_left]

theorem extract_extract_add {i j : Nat} (hj : j ≤ n) :
    (b.extract pos (pos + n)).extract i j = b.extract (pos + i) (pos + j) := by
  rw [ByteArray.extract_extract, Nat.min_eq_left (Nat.add_le_add_left hj pos)]

/-- A number inside a part of an array is the one at its place in the array. -/
theorem numberAt_extract {i width : Nat} (h : i + width ≤ n) :
    numberAt (b.extract pos (pos + n)) i width = numberAt b (pos + i) width := by
  rw [numberAt, numberAt, ByteArray.data_extract, Array.toList_extract, List.extract_eq_take_drop,
    Nat.add_sub_cancel_left, List.drop_take, List.take_take, Nat.min_eq_left (by omega),
    List.drop_drop]

end Part

/-! ## Arrays that agree on a run -/

/-- The bytes from `pos` up to `stop` are the same in both arrays. -/
def Agree (b b' : ByteArray) (pos stop : Nat) : Prop :=
  ∀ k, pos ≤ k → k < stop → b'.data.toList[k]? = b.data.toList[k]?

section Agree

variable {b' : ByteArray} {stop start last width : Nat}

theorem Agree.mono (h : Agree b b' pos stop) (hstart : pos ≤ start) (hlast : last ≤ stop) :
    Agree b b' start last :=
  fun k hk hk' ↦ h k (Nat.le_trans hstart hk) (Nat.lt_of_lt_of_le hk' hlast)

theorem Agree.take_drop_eq (h : Agree b b' pos (pos + width)) :
    (b'.data.toList.drop pos).take width = (b.data.toList.drop pos).take width := by
  apply List.ext_getElem?
  intro i
  rw [List.getElem?_take, List.getElem?_take]
  split
  · next hi =>
    rw [List.getElem?_drop, List.getElem?_drop]
    exact h (pos + i) (Nat.le_add_right pos i) (Nat.add_lt_add_left hi pos)
  · rfl

theorem Agree.numberAt_eq (h : Agree b b' pos (pos + width)) :
    numberAt b' pos width = numberAt b pos width := by
  rw [numberAt, numberAt, h.take_drop_eq]

theorem Agree.extract_eq (h : Agree b b' pos (pos + width)) :
    b'.extract pos (pos + width) = b.extract pos (pos + width) := by
  apply ByteArray.ext
  apply Array.toList_inj.mp
  rw [ByteArray.data_extract, ByteArray.data_extract, Array.toList_extract, Array.toList_extract,
    List.extract_eq_take_drop, List.extract_eq_take_drop, Nat.add_sub_cancel_left, h.take_drop_eq]

/-- What is appended to an array leaves its own bytes where they are. -/
theorem agree_append (b t : ByteArray) (hstop : stop ≤ b.size) : Agree b (b ++ t) pos stop := by
  intro k _ hk
  rw [ByteArray.toList_data_append, List.getElem?_append_left]
  rw [length_toList_data]
  exact Nat.lt_of_lt_of_le hk hstop

end Agree

end BrowserTrace.Bytes
