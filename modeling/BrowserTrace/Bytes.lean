/-! # Little-endian fields in a byte array

Binary records store their numbers in fields of two or four bytes, the low byte first. A field is
read at a position of a `ByteArray`, and is absent when it does not fit before the end; it is
written as a list of bytes.
-/

namespace BrowserTrace.Bytes

/-! ## Numbers of two and four bytes -/

/-- The number whose low byte is `lo` and whose high byte is `hi`. -/
def u16OfBytes (lo hi : UInt8) : UInt16 :=
  UInt16.ofNat (lo.toNat + 256 * hi.toNat)

/-- The number with the bytes `b₀` (lowest) to `b₃` (highest). -/
def u32OfBytes (b₀ b₁ b₂ b₃ : UInt8) : UInt32 :=
  UInt32.ofNat (b₀.toNat + 256 * (b₁.toNat + 256 * (b₂.toNat + 256 * b₃.toNat)))

theorem toNat_u16OfBytes (lo hi : UInt8) :
    (u16OfBytes lo hi).toNat = lo.toNat + 256 * hi.toNat := by
  have h₀ := lo.toNat_lt
  have h₁ := hi.toNat_lt
  simp only [u16OfBytes, UInt16.toNat_ofNat']
  omega

theorem toNat_u32OfBytes (b₀ b₁ b₂ b₃ : UInt8) :
    (u32OfBytes b₀ b₁ b₂ b₃).toNat =
      b₀.toNat + 256 * (b₁.toNat + 256 * (b₂.toNat + 256 * b₃.toNat)) := by
  have h₀ := b₀.toNat_lt
  have h₁ := b₁.toNat_lt
  have h₂ := b₂.toNat_lt
  have h₃ := b₃.toNat_lt
  simp only [u32OfBytes, UInt32.toNat_ofNat']
  omega

/-! ## Writing a field -/

/-- The two bytes of a number, the low one first. -/
def u16Bytes (x : UInt16) : List UInt8 :=
  [UInt8.ofNat x.toNat, UInt8.ofNat (x.toNat / 256)]

/-- The four bytes of a number, the lowest first. -/
def u32Bytes (x : UInt32) : List UInt8 :=
  [UInt8.ofNat x.toNat, UInt8.ofNat (x.toNat / 256), UInt8.ofNat (x.toNat / 65536),
    UInt8.ofNat (x.toNat / 16777216)]

@[simp] theorem length_u16Bytes (x : UInt16) : (u16Bytes x).length = 2 := rfl

@[simp] theorem length_u32Bytes (x : UInt32) : (u32Bytes x).length = 4 := rfl

/-! ## Reading a field -/

/-- The two-byte field at `pos`, or nothing when it runs past the end. -/
def u16At? (b : ByteArray) (pos : Nat) : Option UInt16 :=
  if h : pos + 2 ≤ b.size then
    some (u16OfBytes b[pos] b[pos + 1])
  else
    none

/-- The four-byte field at `pos`, or nothing when it runs past the end. -/
def u32At? (b : ByteArray) (pos : Nat) : Option UInt32 :=
  if h : pos + 4 ≤ b.size then
    some (u32OfBytes b[pos] b[pos + 1] b[pos + 2] b[pos + 3])
  else
    none

@[simp] theorem isSome_u16At? (b : ByteArray) (pos : Nat) :
    (u16At? b pos).isSome = decide (pos + 2 ≤ b.size) := by
  unfold u16At?
  split <;> simp [*]

end BrowserTrace.Bytes
