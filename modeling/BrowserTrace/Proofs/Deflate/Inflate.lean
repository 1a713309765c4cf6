import BrowserTrace.Proofs.Deflate.Output
import BrowserTrace.Proofs.Deflate.Stream

/-!
# Decompression

`Decodes data x` says that the bytes begin with a stream whose tokens describe `x`.  Decompression
with a limit above the size of its result gives exactly that (`inflate?_eq_some_iff`): it neither
takes part of a longer output for the whole nor the output of a stream that breaks off.  Of a stream
that is complete it gives the output up to the limit (`Decodes.inflate?_eq`).
-/

namespace BrowserTrace.Deflate

/-! ## Bits of bytes -/

theorem bitsOf_append (data more : ByteArray) :
    bitsOf (data ++ more) = bitsOf data ++ bitsOf more := by
  simp [bitsOf]

theorem length_bitsOf (data : ByteArray) : (bitsOf data).length = 8 * data.size := by
  rw [bitsOf, length_flatMap_byteBits, Bytes.length_toList_data]

/-! ## What bytes decode to -/

/-- The bytes begin with a stream, complete with its last block, that describes the output. -/
def Decodes (data x : ByteArray) : Prop :=
  ∃ ts rest, IsStream ts (bitsOf data) rest ∧ Expands ts [] x.data.toList

theorem Expands.unique {ts : List Token} {before after after' : List UInt8}
    (h : Expands ts before after) (h' : Expands ts before after') : after = after' := by
  induction h with
  | nil =>
    cases h'
    rfl
  | cons ht _ ih =>
    cases h' with
    | cons ht' hts' =>
      obtain rfl := ht.unique ht'
      exact ih hts'

/-- Bytes decode to one output at most. -/
theorem Decodes.unique {data x y : ByteArray} (hx : Decodes data x) (hy : Decodes data y) :
    x = y := by
  obtain ⟨ts, rest, hs, hx⟩ := hx
  obtain ⟨us, rest', hs', hy⟩ := hy
  obtain ⟨rfl, rfl⟩ := hs.unique hs'
  exact eq_of_toList_data_eq (hx.unique hy)

/-- Bytes behind the stream do not matter. -/
theorem Decodes.append {data x : ByteArray} (h : Decodes data x) (more : ByteArray) :
    Decodes (data ++ more) x := by
  obtain ⟨ts, rest, hs, hx⟩ := h
  refine ⟨ts, rest ++ bitsOf more, ?_, hx⟩
  rw [bitsOf_append]
  refine hs.append ?_
  rw [length_bitsOf]
  exact Nat.mul_mod_right 8 _

/-- A stream that goes on behind the bytes, so that they hold only a part of it, decodes to nothing,
even if that part describes a whole output. -/
theorem not_decodes_of_cut {data more : ByteArray} {ts : List Token} {rest : Bits}
    (hs : IsStream ts (bitsOf (data ++ more)) rest) (hcut : rest.length < 8 * more.size)
    (x : ByteArray) : ¬ Decodes data x := by
  rintro ⟨us, rest', hus, -⟩
  rw [bitsOf_append] at hs
  rw [← length_bitsOf] at hcut
  refine hs.not_of_cut ?_ hcut hus
  rw [length_bitsOf]
  exact Nat.mul_mod_right 8 _

/-! ## Decompression -/

theorem empty_toList : ByteArray.empty.data.toList = [] := rfl

/-- Decompression whose result stays below the limit gives what the bytes decode to. -/
theorem inflate?_eq_some_iff {limit : Nat} {data x : ByteArray} (hx : x.size < limit) :
    inflate? limit data = some x ↔ Decodes data x := by
  simp only [inflate?]
  constructor
  · intro h
    split at h
    · contradiction
    · next out hout =>
      split at h
      · next rest hending =>
        obtain rfl := Option.some.inj h
        rw [expand?_eq_some_iff hx] at hout
        exact ⟨_, rest, readStream_eq_complete_iff.mp (Prod.ext rfl hending), hout⟩
      · split at h
        · next hcut =>
          obtain rfl := Option.some.inj h
          omega
        · contradiction
  · rintro ⟨ts, rest, hs, hts⟩
    rw [← empty_toList, ← expand?_eq_some_iff hx] at hts
    simp only [readStream_eq_complete_iff.mpr hs, hts]

/-- Of a complete stream, decompression gives as much of the output as the limit allows. -/
theorem Decodes.inflate?_eq {data x : ByteArray} (h : Decodes data x) (limit : Nat) :
    inflate? limit data = some (x.extract 0 limit) := by
  obtain ⟨ts, rest, hs, hts⟩ := h
  rw [← empty_toList] at hts
  obtain ⟨out, hout, htake⟩ := hts.expand?_eq_take (Nat.zero_le limit)
  have hextract : out = x.extract 0 limit := by
    refine eq_of_toList_data_eq ?_
    rw [htake]
    simp
  simp only [inflate?, readStream_eq_complete_iff.mpr hs, hout, hextract]

end BrowserTrace.Deflate
