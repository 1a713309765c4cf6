/-! # Bit streams

A deflate stream is a sequence of bits, each byte giving its lowest bit first. Numbers are stored
lowest bit first as well. Bytes that stand in the stream as they are begin at a byte boundary.
-/

namespace BrowserTrace.Deflate

/-- Bits still to be read. A stream is a whole number of bytes, so the length tells how far the next
bit is from a byte boundary. -/
abbrev Bits := List Bool

/-- The bits of a byte, the lowest first. -/
def byteBits (b : UInt8) : Bits :=
  (List.range 8).map b.toNat.testBit

@[simp] theorem length_byteBits (b : UInt8) : (byteBits b).length = 8 := by
  simp [byteBits]

/-- The bits of all bytes in order. -/
def bitsOf (data : ByteArray) : Bits :=
  data.data.toList.flatMap byteBits

/-- Reads a number of `count` bits. -/
def readBits? : (count : Nat) → Bits → Option (Nat × Bits)
  | 0, bits => some (0, bits)
  | _ + 1, [] => none
  | count + 1, b :: bits =>
    match readBits? count bits with
    | some (n, rest) => some (b.toNat + 2 * n, rest)
    | none => none

theorem readBits?_length {count n : Nat} {bits rest : Bits}
    (h : readBits? count bits = some (n, rest)) : rest.length + count = bits.length := by
  fun_induction readBits? count bits generalizing n rest with
  | case1 bits =>
    simp only [Option.some.injEq, Prod.mk.injEq] at h
    simp [h.2]
  | case2 => contradiction
  | case3 count b bits m mid hm ih =>
    simp only [Option.some.injEq, Prod.mk.injEq] at h
    have := ih hm
    rw [← h.2, List.length_cons]
    omega
  | case4 => contradiction

/-- Skips to the next byte boundary. -/
def align (bits : Bits) : Bits := bits.drop (bits.length % 8)

theorem align_length_le (bits : Bits) : (align bits).length ≤ bits.length := by
  simp [align]

/-- Reads `count` whole bytes, which begin where the bits do; the rest is none when the bits end
before that, and then the bytes are those that are there. -/
def readBytes : Nat → Bits → List UInt8 × Option Bits
  | 0, bits => ([], some bits)
  | count + 1, bits =>
    match readBits? 8 bits with
    | none => ([], none)
    | some (b, bits) =>
      match readBytes count bits with
      | (bs, rest) => (UInt8.ofNat b :: bs, rest)

theorem readBytes_length_le {count : Nat} {bs : List UInt8} {bits rest : Bits}
    (h : readBytes count bits = (bs, some rest)) : rest.length ≤ bits.length := by
  fun_induction readBytes count bits generalizing bs with
  | case1 bits =>
    simp only [Prod.mk.injEq, Option.some.injEq] at h
    simp [h.2]
  | case2 => simp at h
  | case3 count bits b mid hb bs' rest' hr ih =>
    simp only [Prod.mk.injEq] at h
    have := readBits?_length hb
    have := ih (by rw [hr, h.2])
    omega

end BrowserTrace.Deflate
