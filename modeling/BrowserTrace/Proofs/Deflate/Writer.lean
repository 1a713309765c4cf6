import BrowserTrace.Deflate.Writer
import BrowserTrace.Proofs.Deflate.Inflate

/-!
# What the writer writes

The writer puts out stored blocks of bytes.  Each of them is a block of the format
(`isBlock_storedBlock`), all of them together are a stream, and the stream decodes to the bytes that
were written (`decodes_deflate`).
-/

namespace BrowserTrace.Deflate

/-! ## Numbers across bytes -/

theorem numberBits_add (m n x : Nat) :
    numberBits (m + n) x = numberBits m x ++ numberBits n (x / 2 ^ m) := by
  induction m generalizing x with
  | zero => simp [numberBits]
  | succ m ih =>
    rw [Nat.succ_add, numberBits_succ, ih, numberBits_succ, Nat.div_div_eq_div_mul,
      Nat.pow_succ']
    rfl

theorem byteBits_ofNat (n : Nat) : byteBits (UInt8.ofNat n) = numberBits 8 n := by
  rw [byteBits_eq, numberBits, numberBits, UInt8.toNat_ofNat']
  apply List.map_congr_left
  intro i hi
  rw [Nat.testBit_mod_two_pow, decide_eq_true (List.mem_range.mp hi), Bool.true_and]

/-- Two bytes hold a number of sixteen bits, the low byte first. -/
theorem flatMap_byteBits_u16Bytes (x : UInt16) :
    (Bytes.u16Bytes x).flatMap byteBits = numberBits 16 x.toNat := by
  have hsplit : numberBits 16 x.toNat = numberBits 8 x.toNat ++ numberBits 8 (x.toNat / 256) :=
    numberBits_add 8 8 x.toNat
  rw [hsplit, Bytes.u16Bytes, List.flatMap_cons, List.flatMap_cons, List.flatMap_nil,
    List.append_nil, byteBits_ofNat, byteBits_ofNat]

/-! ## Blocks -/

theorem byteBits_head (last : Bool) :
    byteBits (if last then 1 else 0) = last :: (numberBits 2 0 ++ List.replicate 5 false) := by
  cases last <;> rfl

/-- The bits of a stored block: what it is, padding, its length with the complement, its bytes. -/
theorem bitsOf_storedBlock {bytes : ByteArray} (h : bytes.size ≤ maxStored) (last : Bool) :
    bitsOf (storedBlock last bytes) =
      last :: (numberBits 2 0 ++ (List.replicate 5 false ++ (numberBits 16 bytes.size ++
        (numberBits 16 (65535 - bytes.size) ++ bytes.data.toList.flatMap byteBits)))) := by
  have hlength : (UInt16.ofNat bytes.size).toNat = bytes.size :=
    UInt16.toNat_ofNat_of_lt' (Nat.lt_succ_of_le h)
  have hle : UInt16.ofNat bytes.size ≤ 65535 := by
    rw [UInt16.le_iff_toNat_le, hlength]
    exact h
  have hcomplement : (65535 - UInt16.ofNat bytes.size).toNat = 65535 - bytes.size := by
    have hmax : (65535 : UInt16).toNat = 65535 := rfl
    rw [UInt16.toNat_sub_of_le _ _ hle, hlength, hmax]
  rw [storedBlock, bitsOf_append, bitsOf, bitsOf]
  simp only [List.data_toByteArray, List.flatMap_append, List.flatMap_cons, List.cons_append,
    byteBits_head, flatMap_byteBits_u16Bytes, hlength, hcomplement, List.append_assoc]

theorem isBlock_storedBlock {bytes : ByteArray} (h : bytes.size ≤ maxStored) (last : Bool)
    {rest : Bits} (hr : rest.length % 8 = 0) :
    IsBlock last (bytes.data.toList.map .literal) (bitsOf (storedBlock last bytes) ++ rest) rest := by
  have hlength : bytes.data.toList.length < 2 ^ 16 := by
    rw [Bytes.length_toList_data]
    exact Nat.lt_succ_of_le h
  have hpadding : (List.replicate 5 false).length < 8 := by decide
  have hcontents := IsContents.stored hlength hpadding hr
  rw [Bytes.length_toList_data] at hcontents
  rw [bitsOf_storedBlock h]
  simp only [List.cons_append, List.append_assoc]
  exact .mk hcontents

/-! ## Streams -/

/-- A stored block that is the last one is a whole stream. -/
theorem isStream_storedBlock {bytes : ByteArray} (h : bytes.size ≤ maxStored) :
    IsStream (bytes.data.toList.map .literal) (bitsOf (storedBlock true bytes)) [] := by
  have hempty : ([] : Bits).length % 8 = 0 := rfl
  have hblock := isBlock_storedBlock h true hempty
  rw [List.append_nil] at hblock
  exact .last hblock

/-- From each position on, the writer adds a stream whose tokens are the bytes from there on. -/
theorem deflateFrom_isStream (data : ByteArray) (start : Nat) (out : ByteArray) :
    ∃ blocks, deflateFrom data start out = out ++ blocks ∧
      IsStream ((data.extract start data.size).data.toList.map .literal) (bitsOf blocks) [] := by
  fun_induction deflateFrom data start out with
  | case1 start out hlast =>
    have hsize : (data.extract start data.size).size ≤ maxStored := by
      rw [ByteArray.size_extract, Nat.min_self]
      exact hlast
    exact ⟨_, rfl, isStream_storedBlock hsize⟩
  | case2 start out hmore ih =>
    obtain ⟨blocks, hblocks, hs⟩ := ih
    have hend : start + maxStored ≤ data.size := by omega
    have hsize : (data.extract start (start + maxStored)).size = maxStored := by
      rw [ByteArray.size_extract, Nat.min_eq_left hend, Nat.add_sub_cancel_left]
    have hwhole : (bitsOf blocks).length % 8 = 0 := by
      rw [length_bitsOf]
      exact Nat.mul_mod_right 8 _
    have hblock := isBlock_storedBlock (Nat.le_of_eq hsize) false hwhole
    have hstream := IsStream.more hblock hs
    rw [← bitsOf_append, ← List.map_append, ← ByteArray.toList_data_append,
      ← ByteArray.extract_eq_extract_append_extract _ (Nat.le_add_right ..) hend] at hstream
    refine ⟨_, ?_, hstream⟩
    rw [hblocks, ByteArray.append_assoc]

/-! ## What is written is read back -/

theorem expands_literals (bs before : List UInt8) :
    Expands (bs.map .literal) before (before ++ bs) := by
  induction bs generalizing before with
  | nil =>
    rw [List.append_nil]
    exact .nil
  | cons b bs ih =>
    have hrest := ih (before ++ [b])
    rw [List.append_assoc] at hrest
    exact .cons .literal hrest

theorem decodes_storedBlock {bytes : ByteArray} (h : bytes.size ≤ maxStored) :
    Decodes (storedBlock true bytes) bytes :=
  ⟨_, [], isStream_storedBlock h, expands_literals bytes.data.toList []⟩

/-- What the writer writes decodes to the bytes it was given. -/
theorem decodes_deflate (data : ByteArray) : Decodes (deflate data) data := by
  obtain ⟨blocks, hblocks, hs⟩ := deflateFrom_isStream data 0 ByteArray.empty
  rw [ByteArray.empty_append] at hblocks
  rw [ByteArray.extract_zero_size] at hs
  rw [deflate, hblocks]
  exact ⟨_, [], hs, expands_literals data.data.toList []⟩

end BrowserTrace.Deflate
