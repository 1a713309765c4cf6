import BrowserTrace.Proofs.Archive.Footprint

/-!
# Bytes behind an archive

An archive says where everything is from its beginning on, so bytes that are appended to it change
nothing that is looked at (`footprint_append`).  They do move the end, from which the end record is
searched for.  The record is still found while it stands at most 65557 bytes before the new end, and
no later; a record further back is out of reach, and with no other candidate there is none.

Appending can also turn bytes inside the archive into a candidate, since a comment that ran past the
old end may fit before the new one.  So the hypothesis that nothing behind the record is taken for a
record is about the longer array.
-/

namespace BrowserTrace

open Bytes Grammar

section

variable {b t : ByteArray} {p : Nat} {limits : ArchiveLimits}

/-! ## What is appended -/

/-- All that is looked at lies in the archive, and stays where it is. -/
theorem footprint_append (hp : IsCandidate b p) (hgood : GoodDirectory b p) (t : ByteArray) :
    Footprint b (b ++ t) p where
  size_le := by
    rw [ByteArray.size_append]
    exact Nat.le_add_right _ _
  record := agree_append b t hp.fits
  directory := agree_append b t hgood.record.directory_fits
  locals i hi := by
    have hheader := hgood.headers i hi
    have hfits := hheader.local_fits
    exact ⟨agree_append b t (by omega), agree_append b t hfits,
      agree_append b t hheader.data_fits⟩

/-- The record stays the last candidate while it is within reach. -/
theorem isGreatest_append (hp : IsCandidate b p) (hreach : (b ++ t).size - 65557 ≤ p)
    (hlast : ∀ q, p < q → ¬ IsCandidate (b ++ t) q) :
    IsGreatest {q | IsCandidate (b ++ t) q} p := by
  constructor
  · refine isCandidate_of_agree ?_ (agree_append b t hp.fits) hreach hp
    rw [ByteArray.size_append]
    exact Nat.le_add_right _ _
  · intro q hq
    by_contra hlt
    exact hlast q (Nat.not_le.mp hlt) hq

/-- Without a candidate there is no end record. -/
theorem Archive.ofBytes_of_no_candidate (h : ∀ q, ¬ IsCandidate b q) :
    ofBytes b limits = .error .missingEndRecord := by
  have hnone : EndRecord.find? b = none := by
    rw [Option.eq_none_iff_forall_ne_some]
    intro r hr
    obtain ⟨p, hp, -⟩ := EndRecord.find?_eq_some_iff.mp hr
    exact h p hp.1
  rw [ofBytes, hnone]

/-- **Trailing bytes.**  Let bytes be appended to an archive that was read, such that behind its end
record nothing is taken for one in the whole.  While the record stands at most 65557 bytes before the
new end, the whole is read with the same entries, and each of them gives the same; when it stands
further back, it is missing. -/
theorem Archive.ofBytes_append_within_reach {a : Archive} (ha : ofBytes b limits = .ok a)
    (hp : IsGreatest {q | IsCandidate b q} p)
    (hlast : ∀ q, p < q → ¬ (numberAt (b ++ t) q 4 = 0x06054b50 ∧
      q + 22 + numberAt (b ++ t) (q + 20) 2 ≤ b.size + t.size)) :
    (b.size + t.size - p ≤ 65557 → ∃ a', ofBytes (b ++ t) limits = .ok a' ∧
      a'.entries = a.entries ∧ ∀ e ∈ a.entries, a'.read e = a.read e) ∧
    (65557 < b.size + t.size - p →
      ofBytes (b ++ t) limits = .error .missingEndRecord) := by
  have hsize : (b ++ t).size = b.size + t.size := ByteArray.size_append
  have hlast' : ∀ q, p < q → ¬ IsCandidate (b ++ t) q := by
    intro q hq hc
    exact hlast q hq ⟨hc.signature, hsize ▸ hc.comment_fits⟩
  constructor
  · intro hnear
    have hgreatest := isGreatest_append hp.1 (by omega) hlast'
    exact ofBytes_of_footprint ha hp hgreatest fun hgood ↦ footprint_append hp.1 hgood t
  · intro hfar
    apply ofBytes_of_no_candidate
    intro q hq
    have hreach := hq.reach
    exact hlast' q (by omega) hq

end

/-! ## An archive with zeros behind it -/

/-- An end record begins with the first byte of its signature. -/
theorem mem_drop_of_signature {b : ByteArray} {q : Nat} (h : numberAt b q 4 = 0x06054b50) :
    0x50 ∈ b.data.toList.drop q := by
  unfold numberAt at h
  cases hd : b.data.toList.drop q with
  | nil =>
    rw [hd] at h
    contradiction
  | cons x xs =>
    rw [hd, List.take_succ_cons, littleEndian] at h
    have hx := x.toNat_lt
    have hfirst : x = 0x50 := by
      apply UInt8.toNat_inj.mp
      change x.toNat = 80
      omega
    rw [hfirst]
    exact List.mem_cons_self

namespace Sample

/-- So many bytes that are zero. -/
def zeros (count : Nat) : ByteArray := (List.replicate count 0).toByteArray

/-- The end record of the archive of one entry. -/
theorem isGreatest_singleEntry : IsGreatest {q | IsCandidate Archive.singleEntry q} 80 := by
  constructor
  · exact ⟨by decide, by decide, by decide +kernel, by decide +kernel⟩
  · intro q hq
    have hfits : q + 22 ≤ 102 := hq.fits
    change q ≤ 80
    omega

/-- Behind its beginning the record has no byte with which a record begins, and zeros have none. -/
theorem not_signature_append_zeros {count q : Nat} (hq : 80 < q) :
    numberAt (Archive.singleEntry ++ zeros count) q 4 ≠ 0x06054b50 := by
  intro hsignature
  have hmem := mem_drop_of_signature hsignature
  have hlength : Archive.singleEntry.data.toList.length = 102 := by decide +kernel
  have hplain : ∀ x ∈ Archive.singleEntry.data.toList.drop 81, x ≠ 0x50 := by decide +kernel
  rw [ByteArray.toList_data_append, List.drop_append, List.mem_append] at hmem
  rcases hmem with hmem | hmem
  · exact hplain _ ((List.drop_sublist_drop_left _ hq).mem hmem) rfl
  · have hzero : (0x50 : UInt8) ∈ List.replicate count 0 := by
      have := List.mem_of_mem_drop hmem
      rwa [zeros, List.data_toByteArray] at this
    exact absurd (List.eq_of_mem_replicate hzero) (by decide)

/-- The cut-off is exact: the archive is read with 65535 zeros behind it, and not with one more. -/
theorem ofBytes_append_within_reach_zeros :
    ∃ a, Archive.ofBytes Archive.singleEntry {} = .ok a ∧
      (∃ a', Archive.ofBytes (Archive.singleEntry ++ zeros 65535) {} = .ok a' ∧
        a'.entries = a.entries ∧ ∀ e ∈ a.entries, a'.read e = a.read e) ∧
      Archive.ofBytes (Archive.singleEntry ++ zeros 65536) {} = .error .missingEndRecord := by
  have hsize (count : Nat) : Archive.singleEntry.size + (zeros count).size = 102 + count := by
    rw [zeros, List.size_toByteArray, List.length_replicate]
    rfl
  obtain ⟨a, ha⟩ : ∃ a, Archive.ofBytes Archive.singleEntry {} = .ok a := ⟨_, rfl⟩
  have hnear := (Archive.ofBytes_append_within_reach ha isGreatest_singleEntry (t := zeros 65535)
    fun q hq hc ↦ not_signature_append_zeros hq hc.1).1
  have hfar := (Archive.ofBytes_append_within_reach ha isGreatest_singleEntry (t := zeros 65536)
    fun q hq hc ↦ not_signature_append_zeros hq hc.1).2
  rw [hsize] at hnear hfar
  exact ⟨a, ha, hnear (by omega), hfar (by omega)⟩

end Sample

end BrowserTrace
