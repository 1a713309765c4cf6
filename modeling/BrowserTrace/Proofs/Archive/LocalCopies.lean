import BrowserTrace.Proofs.Archive.Contents
import BrowserTrace.Proofs.Archive.Footprint

/-!
# The directory is authoritative

A local header repeats the name and most fields of its directory header.  Reading does not look at
these copies: a written archive in which they have been overwritten with anything, signatures
included, is read like the archive itself (`Archive.ofBytes_ignores_local_copies`).

The copies of different members are apart, because the local records stand one behind the other
(`IsLocalCopy.own`).  So a byte inside the record of a member is a copy only if it is one of that
member, and the signature, the lengths and the data of the member are none.
-/

namespace BrowserTrace

open Bytes Grammar

section

variable {members : List Member} {b : ByteArray} {i j k : Nat}

/-! ## Local records, one behind the other -/

/-- The record of a member ends where that of any later one begins, or before. -/
theorem localSizes_take_add_le (hj : j < members.length) (hji : j < i) :
    localSizes (members.take j) + members[j].localSize ≤ localSizes (members.take i) := by
  rw [← localSizes_take_succ hj]
  exact localSizes_le_of_sublist (List.take_sublist_take_left hji)

/-! ## Copies -/

/-- The byte at `k` is a copy in the local record of `m` that begins at `offset`: of the fields
between the signature and the lengths, or of the name. -/
def Member.IsCopy (m : Member) (offset k : Nat) : Prop :=
  (offset + 4 ≤ k ∧ k < offset + 26) ∨ (offset + 30 ≤ k ∧ k < offset + 30 + m.nameBytes.size)

/-- The byte at `k` of the written archive is a copy in one of the local records. -/
def IsLocalCopy (members : List Member) (k : Nat) : Prop :=
  ∃ (i : Nat) (hi : i < members.length), members[i].IsCopy (localSizes (members.take i)) k

/-- A copy lies inside the record. -/
theorem Member.IsCopy.bounds {m : Member} {offset : Nat} (h : m.IsCopy offset k) :
    offset ≤ k ∧ k < offset + m.localSize := by
  unfold localSize
  rcases h with h | h
  · omega
  · omega

/-- A copy that lies inside the record of a member is one of this member. -/
theorem IsLocalCopy.own (h : IsLocalCopy members k) (hi : i < members.length)
    (hstart : localSizes (members.take i) ≤ k)
    (hstop : k < localSizes (members.take i) + members[i].localSize) :
    members[i].IsCopy (localSizes (members.take i)) k := by
  obtain ⟨j, hj, hcopy⟩ := h
  obtain ⟨hstart', hstop'⟩ := hcopy.bounds
  rcases Nat.lt_trichotomy j i with hji | rfl | hij
  · have := localSizes_take_add_le hj hji
    omega
  · exact hcopy
  · have := localSizes_take_add_le hi hij
    omega

/-- Copies lie before the directory. -/
theorem IsLocalCopy.lt_localSizes (h : IsLocalCopy members k) : k < localSizes members := by
  obtain ⟨j, hj, hcopy⟩ := h
  have hle := localSizes_take_add_le hj hj
  rw [List.take_length] at hle
  exact Nat.lt_of_lt_of_le hcopy.bounds.2 hle

/-! ## Overwriting the copies -/

/-- `b` is the written archive of the members, without a comment, with other bytes in any number of
copies. -/
structure HasOtherCopies (members : List Member) (b : ByteArray) : Prop where
  size_eq : b.size = (writeArchive members ByteArray.empty).size
  kept : ∀ k, ¬ IsLocalCopy members k →
    b.data.toList[k]? = (writeArchive members ByteArray.empty).data.toList[k]?

/-- A run of bytes without copies is the one that was written. -/
theorem HasOtherCopies.agree (hb : HasOtherCopies members b) {pos stop : Nat}
    (h : ∀ k, pos ≤ k → k < stop → ¬ IsLocalCopy members k) :
    Agree (writeArchive members ByteArray.empty) b pos stop :=
  fun k hk hk' ↦ hb.kept k (h k hk hk')

/-- The written archive with `xs` in place of the bytes from `pos` on. -/
def Bytes.overwrite (b : ByteArray) (pos : Nat) (xs : List UInt8) : ByteArray :=
  (b.data.toList.take pos ++ (xs ++ b.data.toList.drop (pos + xs.length))).toByteArray

theorem HasOtherCopies.refl (members : List Member) :
    HasOtherCopies members (writeArchive members ByteArray.empty) := ⟨rfl, fun _ _ ↦ rfl⟩

/-- Any run of copies may be overwritten, again and again. -/
theorem HasOtherCopies.overwrite (hb : HasOtherCopies members b) {pos : Nat} {xs : List UInt8}
    (hfits : pos + xs.length ≤ b.size)
    (hcopies : ∀ k, pos ≤ k → k < pos + xs.length → IsLocalCopy members k) :
    HasOtherCopies members (Bytes.overwrite b pos xs) := by
  have hpos : (b.data.toList.take pos).length = pos := by
    rw [List.length_take, length_toList_data]
    omega
  constructor
  · rw [← hb.size_eq, Bytes.overwrite, List.size_toByteArray, List.length_append, hpos,
      List.length_append, List.length_drop, length_toList_data]
    omega
  · intro k hk
    rw [← hb.kept k hk, Bytes.overwrite, List.data_toByteArray, List.getElem?_append, hpos]
    split
    · next hlt => exact List.getElem?_take_of_lt hlt
    · next hge =>
      have hbehind : pos + xs.length ≤ k := by
        by_contra hlt
        exact hk (hcopies k (by omega) (by omega))
      rw [List.getElem?_append_right (by omega), List.getElem?_drop]
      congr 1
      omega

/-! ## What is looked at -/

/-- A run inside the record of a member that meets no copy of the member is the one that was
written. -/
theorem HasOtherCopies.agree_own (hb : HasOtherCopies members b) (hi : i < members.length)
    {pos stop : Nat} (hpos : localSizes (members.take i) ≤ pos)
    (hstop : stop ≤ localSizes (members.take i) + members[i].localSize)
    (h : ∀ k, pos ≤ k → k < stop → ¬ members[i].IsCopy (localSizes (members.take i)) k) :
    Agree (writeArchive members ByteArray.empty) b pos stop := by
  refine hb.agree ?_
  intro k hk hk' hcopy
  exact h k hk hk' (hcopy.own hi (Nat.le_trans hpos hk) (Nat.lt_of_lt_of_le hk' hstop))

/-- Where a directory that has the entries of the members leads to. -/
theorem local_of_entriesAt {p : Nat} (hentries : entriesAt b p = entriesFrom 0 members)
    (hstart : localSizes members < 0xFFFFFFFF) (hi : i < members.length) :
    localOffsetAt b (headerAt b p i) = localSizes (members.take i) ∧
      dataStartAt b (headerAt b p i) =
        localSizes (members.take i) + 30 + members[i].nameBytes.size ∧
      compressedSizeAt b (headerAt b p i) = members[i].data.size := by
  have hlength : i < (entriesAt b p).length := by
    rwa [hentries, length_entriesFrom]
  have hentry : entryAt b (headerAt b p i) = members[i].entryAt (localSizes (members.take i)) := by
    rw [← getElem_entriesAt hlength]
    simp only [hentries]
    rw [getElem_entriesFrom hi, Nat.zero_add]
  have hdescribes := describes_entryAt b (headerAt b p i)
  rw [hentry] at hdescribes
  have hfit := size_data_le members hi
  refine ⟨hdescribes.localOffset.symm.trans ?_, hdescribes.dataStart.symm,
    hdescribes.compressedSize.symm.trans ?_⟩
  · exact UInt32.toNat_ofNat_of_lt' (by simp only [UInt32.size]; omega)
  · exact UInt32.toNat_ofNat_of_lt' (by simp only [UInt32.size]; omega)

/-- No copy is looked at. -/
theorem footprint_of_hasOtherCopies (h : Representable members ByteArray.empty)
    (hb : HasOtherCopies members b) :
    Footprint (writeArchive members ByteArray.empty) b (endStart members) := by
  obtain ⟨hcount, hstart, -, -⟩ := endRecord_written h.partsFit
  have hcount_le := h.count_le
  rw [Nat.mod_eq_of_lt (by omega)] at hcount
  have hbehind : ∀ k, localSizes members ≤ k → ¬ IsLocalCopy members k :=
    fun k hk hcopy ↦ absurd hcopy.lt_localSizes (Nat.not_lt.mpr hk)
  refine ⟨Nat.le_of_eq hb.size_eq.symm, hb.agree fun k hk _ ↦ hbehind k ?_,
    hb.agree fun k hk _ ↦ hbehind k (hstart ▸ hk), ?_⟩
  · exact Nat.le_trans (Nat.le_add_right _ _) hk
  · intro i hi
    rw [hcount] at hi
    obtain ⟨hoffset, hdata, hsize⟩ :=
      local_of_entriesAt (goodDirectory_endStart h).2 h.directoryStart_lt hi
    have hlocal : members[i].localSize = 30 + members[i].nameBytes.size + members[i].data.size := rfl
    constructor
    · rw [hoffset]
      exact hb.agree_own hi (by omega) (by omega) fun k hk hk' ↦ by
        unfold Member.IsCopy
        omega
    · rw [hoffset]
      exact hb.agree_own hi (by omega) (by omega) fun k hk hk' ↦ by
        unfold Member.IsCopy
        omega
    · rw [hdata, hsize]
      exact hb.agree_own hi (by omega) (by omega) fun k hk hk' ↦ by
        unfold Member.IsCopy
        omega

/-- **The directory is authoritative.**  A written archive in which any number of copies in local
headers, from the version to the sizes and in the names, hold other bytes is read like the archive
itself: with the same entries, and each of them gives the same. -/
theorem Archive.ofBytes_ignores_local_copies (h : Representable members ByteArray.empty)
    (limits : ArchiveLimits) (hb : HasOtherCopies members b) :
    ∃ a a', ofBytes (writeArchive members ByteArray.empty) limits = .ok a ∧
      ofBytes b limits = .ok a' ∧ a'.entries = a.entries ∧
      ∀ e ∈ a.entries, a'.read e = a.read e := by
  have hfoot := footprint_of_hasOtherCopies h hb
  have hcandidate := isCandidate_endStart h.partsFit
  have hsize := size_writeArchive members ByteArray.empty
  rw [← endStart, ByteArray.size_empty] at hsize
  have hlast (c : ByteArray) (hc : c.size = (writeArchive members ByteArray.empty).size) :
      endStart members ∈ upperBounds {q | IsCandidate c q} := by
    intro q hq
    have hfits := hq.fits
    omega
  have ha := ofBytes_writeArchive h limits fun _ ↦ not_isCandidate_of_endStart_lt
  have hcandidate' := isCandidate_of_agree hfoot.size_le hfoot.record
    (hb.size_eq ▸ hcandidate.reach) hcandidate
  obtain ⟨a', ha', hentries, hread⟩ := ofBytes_of_footprint ha ⟨hcandidate, hlast _ rfl⟩
    ⟨hcandidate', hlast b hb.size_eq⟩ fun _ ↦ hfoot
  exact ⟨_, a', ha, ha', hentries, hread⟩

end

namespace Sample

/-- The small archive with an end record in place of the fields of the first local header, and zeros
in place of the name behind it. -/
def otherCopies : ByteArray :=
  Bytes.overwrite (Bytes.overwrite (writeArchive members ByteArray.empty) 4 emptyRecord.data.toList)
    30 (List.replicate 7 0)

theorem hasOtherCopies_otherCopies : HasOtherCopies members otherCopies := by
  have hfields : ∀ k, 4 ≤ k → k < 4 + emptyRecord.data.toList.length → IsLocalCopy members k :=
    fun k hk hk' ↦ ⟨0, by decide, .inl ⟨hk, hk'⟩⟩
  have hname : ∀ k, 30 ≤ k → k < 30 + (List.replicate 7 (0 : UInt8)).length →
      IsLocalCopy members k := fun k hk hk' ↦ ⟨0, by decide, .inr ⟨hk, hk'⟩⟩
  have h := (HasOtherCopies.refl members).overwrite (by decide +kernel) hfields
  refine h.overwrite ?_ hname
  rw [h.size_eq]
  decide +kernel

theorem otherCopies_ne : otherCopies ≠ writeArchive members ByteArray.empty := by
  -- They differ in the first byte behind the signature.
  intro h
  have hbyte := congrArg (fun b : ByteArray ↦ b.data.toList[4]?) h
  simp only [otherCopies, Bytes.overwrite, List.data_toByteArray, toList_writeArchive] at hbyte
  revert hbyte
  decide +kernel

/-- The archive is read although its first local header holds an end record; the names are those of
the directory. -/
theorem ofBytes_ignores_local_copies_signatures :
    HasOtherCopies members otherCopies ∧ otherCopies ≠ writeArchive members ByteArray.empty ∧
    ∃ a', Archive.ofBytes otherCopies {} = .ok a' ∧ a'.entries = entriesFrom 0 members := by
  obtain ⟨a, a', ha, ha', hentries, -⟩ := Archive.ofBytes_ignores_local_copies
    representable_members {} hasOtherCopies_otherCopies
  rw [ofBytes_writeArchive representable_members {} fun _ ↦ not_isCandidate_of_endStart_lt] at ha
  obtain rfl := Except.ok.inj ha
  exact ⟨hasOtherCopies_otherCopies, otherCopies_ne, a', ha', hentries⟩

end Sample

end BrowserTrace
