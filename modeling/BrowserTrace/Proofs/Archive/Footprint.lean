import BrowserTrace.Proofs.Archive.Reading

/-!
# What reading an archive looks at

Reading an archive looks at its end record, at the directory, at two runs of each local header, the
signature and the two lengths, and, when an entry is read, at the data of the entry.  These bytes are
the footprint of the archive (`Footprint`).  An archive that agrees with another one on its footprint
and is at least as long is read in the same way (`Archive.ofBytes_of_footprint`), provided the search
ends at the same record; whatever else it holds does not matter.

The argument follows the reader.  The numbers of the record agree, so the walk begins in the same
place; each header agrees, so the walk goes on in the same place (`headerAt_eq`), and the jump from it
arrives at a local header with the same lengths (`dataStartAt_eq`).
-/

namespace BrowserTrace

open Bytes Grammar

/-- `b'` agrees with `b` on what is looked at of the entry whose header is at `pos` behind the
directory: the signature and the lengths of its local header, and its data. -/
structure LocalFootprint (b b' : ByteArray) (pos : Nat) : Prop where
  signature : Agree b b' (localOffsetAt b pos) (localOffsetAt b pos + 4)
  lengths : Agree b b' (localOffsetAt b pos + 26) (localOffsetAt b pos + 30)
  data : Agree b b' (dataStartAt b pos) (dataStartAt b pos + compressedSizeAt b pos)

/-- `b'` is at least as long as `b` and agrees with it on what is looked at when `b` is read by the
record at `p`. -/
structure Footprint (b b' : ByteArray) (p : Nat) : Prop where
  size_le : b.size ≤ b'.size
  record : Agree b b' p (p + 22)
  directory : Agree b b' (directoryStartAt b p) (directoryEndAt b p)
  locals : ∀ i < entryCountAt b p, LocalFootprint b b' (headerAt b p i)

section

variable {b b' : ByteArray} {p pos stop : Nat}

/-! ## The record -/

/-- A candidate stays one in a longer array that agrees on the record, while it is within reach. -/
theorem isCandidate_of_agree (hsize : b.size ≤ b'.size) (hrecord : Agree b b' p (p + 22))
    (hreach : b'.size - 65557 ≤ p) (h : IsCandidate b p) : IsCandidate b' p where
  reach := hreach
  fits := Nat.le_trans h.fits hsize
  signature := (hrecord.mono (Nat.le_refl p) (by omega)).numberAt_eq.trans h.signature
  comment_fits := by
    have hcomment : numberAt b' (p + 20) 2 = numberAt b (p + 20) 2 :=
      (hrecord.mono (by omega) (by omega)).numberAt_eq
    rw [hcomment]
    exact Nat.le_trans h.comment_fits hsize

namespace Footprint

/-- A field of the record is the same. -/
theorem field_eq (h : Footprint b b' p) {offset width : Nat} (hfield : offset + width ≤ 22) :
    numberAt b' (p + offset) width = numberAt b (p + offset) width :=
  (h.record.mono (by omega) (by omega)).numberAt_eq

theorem entryCountAt_eq (h : Footprint b b' p) : entryCountAt b' p = entryCountAt b p :=
  h.field_eq (by omega)

theorem directoryStartAt_eq (h : Footprint b b' p) : directoryStartAt b' p = directoryStartAt b p :=
  h.field_eq (by omega)

theorem directorySizeAt_eq (h : Footprint b b' p) : directorySizeAt b' p = directorySizeAt b p :=
  h.field_eq (by omega)

theorem directoryEndAt_eq (h : Footprint b b' p) : directoryEndAt b' p = directoryEndAt b p := by
  rw [directoryEndAt, directoryEndAt, h.directoryStartAt_eq, h.directorySizeAt_eq]

theorem goodRecord (h : Footprint b b' p) (hgood : GoodRecord b p) : GoodRecord b' p where
  disk := (h.field_eq (by omega)).trans hgood.disk
  directoryDisk := (h.field_eq (by omega)).trans hgood.directoryDisk
  counts := by
    rw [h.field_eq (by omega), h.entryCountAt_eq]
    exact hgood.counts
  count_ne := h.entryCountAt_eq ▸ hgood.count_ne
  size_ne := h.directorySizeAt_eq ▸ hgood.size_ne
  start_ne := h.directoryStartAt_eq ▸ hgood.start_ne
  directory_fits := h.directoryEndAt_eq ▸ Nat.le_trans hgood.directory_fits h.size_le

end Footprint

/-! ## A header -/

/-- A field of a header is the same, when the fixed part of the header is. -/
theorem headerField_eq (h : Agree b b' pos (pos + 46)) {offset width : Nat}
    (hfield : offset + width ≤ 46) :
    numberAt b' (pos + offset) width = numberAt b (pos + offset) width :=
  (h.mono (by omega) (by omega)).numberAt_eq

/-- The next header is where it was, when the fixed part of this one is the same. -/
theorem nextHeader_eq (h : Agree b b' pos (pos + 46)) : nextHeader b' pos = nextHeader b pos := by
  rw [nextHeader, nextHeader, headerField_eq h (by omega), headerField_eq h (by omega),
    headerField_eq h (by omega)]

theorem localOffsetAt_eq (h : Agree b b' pos (pos + 46)) :
    localOffsetAt b' pos = localOffsetAt b pos := headerField_eq h (by omega)

theorem compressedSizeAt_eq (h : Agree b b' pos (pos + 46)) :
    compressedSizeAt b' pos = compressedSizeAt b pos := headerField_eq h (by omega)

theorem uncompressedSizeAt_eq (h : Agree b b' pos (pos + 46)) :
    uncompressedSizeAt b' pos = uncompressedSizeAt b pos := headerField_eq h (by omega)

/-- The data begin where they did: the jump arrives at a local header with the same lengths. -/
theorem dataStartAt_eq (h : Agree b b' pos (pos + 46)) (hlocal : LocalFootprint b b' pos) :
    dataStartAt b' pos = dataStartAt b pos := by
  have hname : numberAt b' (localOffsetAt b pos + 26) 2 = numberAt b (localOffsetAt b pos + 26) 2 :=
    (hlocal.lengths.mono (by omega) (by omega)).numberAt_eq
  have hextra :
      numberAt b' (localOffsetAt b pos + 28) 2 = numberAt b (localOffsetAt b pos + 28) 2 :=
    (hlocal.lengths.mono (by omega) (by omega)).numberAt_eq
  rw [dataStartAt, dataStartAt, localOffsetAt_eq h, hname, hextra]

/-- A header in order stays in order. -/
theorem goodHeader_of_agree (hsize : b.size ≤ b'.size) (h : Agree b b' pos (pos + 46))
    (hlocal : LocalFootprint b b' pos) (hgood : GoodHeader b stop pos) :
    GoodHeader b' stop pos where
  signature := (h.mono (Nat.le_refl pos) (by omega)).numberAt_eq.trans hgood.signature
  fits := nextHeader_eq h ▸ hgood.fits
  compressed_ne := compressedSizeAt_eq h ▸ hgood.compressed_ne
  uncompressed_ne := uncompressedSizeAt_eq h ▸ hgood.uncompressed_ne
  offset_ne := localOffsetAt_eq h ▸ hgood.offset_ne
  local_fits := localOffsetAt_eq h ▸ Nat.le_trans hgood.local_fits hsize
  local_signature := by
    rw [localOffsetAt_eq h, hlocal.signature.numberAt_eq]
    exact hgood.local_signature
  data_fits := by
    rw [dataStartAt_eq h hlocal, compressedSizeAt_eq h]
    exact Nat.le_trans hgood.data_fits hsize

/-- The entry of a header is the same, when the whole header is. -/
theorem entryAt_of_agree (h : Agree b b' pos (nextHeader b pos)) (hlocal : LocalFootprint b b' pos) :
    entryAt b' pos = entryAt b pos := by
  have hfixed : Agree b b' pos (pos + 46) := h.mono (Nat.le_refl pos) (by unfold nextHeader; omega)
  have hname : Agree b b' (pos + 46) (pos + 46 + numberAt b (pos + 28) 2) :=
    h.mono (by omega) (by unfold nextHeader; omega)
  rw [entryAt, entryAt, headerField_eq hfixed (by omega), headerField_eq hfixed (by omega),
    headerField_eq hfixed (by omega), compressedSizeAt_eq hfixed, uncompressedSizeAt_eq hfixed,
    localOffsetAt_eq hfixed, dataStartAt_eq hfixed hlocal, hname.extract_eq]

/-! ## The chain of headers -/

/-- Headers do not lie before the directory. -/
theorem directoryStartAt_le_headerAt (b : ByteArray) (p i : Nat) :
    directoryStartAt b p ≤ headerAt b p i := by
  induction i with
  | zero => exact Nat.le_refl _
  | succ i ih =>
    rw [headerAt, Function.iterate_succ_apply']
    refine Nat.le_trans ih ?_
    change headerAt b p i ≤ nextHeader b (headerAt b p i)
    unfold nextHeader
    omega

namespace Footprint

variable {i : Nat}

/-- Every header that the record counts lies in the directory, so all of it agrees. -/
theorem agree_header (h : Footprint b b' p) (hgood : GoodDirectory b p) (hi : i < entryCountAt b p) :
    Agree b b' (headerAt b p i) (nextHeader b (headerAt b p i)) :=
  h.directory.mono (directoryStartAt_le_headerAt b p i) (hgood.headers i hi).fits

theorem agree_fixed (h : Footprint b b' p) (hgood : GoodDirectory b p) (hi : i < entryCountAt b p) :
    Agree b b' (headerAt b p i) (headerAt b p i + 46) :=
  (h.agree_header hgood hi).mono (Nat.le_refl _) (by unfold nextHeader; omega)

/-- The walk along the directory arrives at the same headers. -/
theorem headerAt_eq (h : Footprint b b' p) (hgood : GoodDirectory b p) (hi : i ≤ entryCountAt b p) :
    headerAt b' p i = headerAt b p i := by
  induction i with
  | zero => exact h.directoryStartAt_eq
  | succ i ih =>
    have hnext : headerAt b' p (i + 1) = nextHeader b' (headerAt b' p i) :=
      Function.iterate_succ_apply' ..
    rw [hnext, ih (Nat.le_of_succ_le hi), nextHeader_eq (h.agree_fixed hgood hi)]
    exact (Function.iterate_succ_apply' ..).symm

theorem goodDirectory (h : Footprint b b' p) (hgood : GoodDirectory b p) : GoodDirectory b' p where
  record := h.goodRecord hgood.record
  headers i hi := by
    rw [h.entryCountAt_eq] at hi
    rw [h.directoryEndAt_eq, h.headerAt_eq hgood (Nat.le_of_lt hi)]
    exact goodHeader_of_agree h.size_le (h.agree_fixed hgood hi) (h.locals i hi) (hgood.headers i hi)

theorem entriesAt_eq (h : Footprint b b' p) (hgood : GoodDirectory b p) :
    entriesAt b' p = entriesAt b p := by
  rw [entriesAt, entriesAt, h.entryCountAt_eq]
  refine List.map_congr_left ?_
  intro i hi
  have hi : i < entryCountAt b p := List.mem_range.mp hi
  rw [h.headerAt_eq hgood (Nat.le_of_lt hi)]
  exact entryAt_of_agree (h.agree_header hgood hi) (h.locals i hi)

/-- The data of the entries are the same. -/
theorem extract_eq (h : Footprint b b' p) {e : Entry} (he : e ∈ entriesAt b p) :
    b'.extract e.dataStart e.dataEnd = b.extract e.dataStart e.dataEnd := by
  obtain ⟨i, hi, rfl⟩ := List.mem_map.mp he
  rw [(describes_entryAt b _).dataEnd]
  exact (h.locals i (List.mem_range.mp hi)).data.extract_eq

end Footprint

/-! ## Whole archives -/

namespace Archive

variable {limits : ArchiveLimits} {a : Archive}

/-- What an archive is read as, where it agrees with another one that was read, on the footprint of
that one.  The record must be the last candidate in both. -/
theorem ofBytes_of_footprint (ha : ofBytes b limits = .ok a)
    (hp : IsGreatest {q | IsCandidate b q} p) (hp' : IsGreatest {q | IsCandidate b' q} p)
    (h : GoodDirectory b p → Footprint b b' p) :
    ∃ a', ofBytes b' limits = .ok a' ∧ a'.entries = a.entries ∧
      ∀ e ∈ a.entries, a'.read e = a.read e := by
  obtain ⟨q, hq, hgood, rfl⟩ := ofBytes_eq_ok_iff.mp ha
  obtain rfl : p = q := Nat.le_antisymm (hq.2 hp.1) (hp.2 hq.1)
  have hfoot := h hgood
  refine ⟨⟨b', entriesAt b' p, limits⟩,
    ofBytes_eq_ok_iff.mpr ⟨p, hp', hfoot.goodDirectory hgood, rfl⟩, hfoot.entriesAt_eq hgood, ?_⟩
  intro e he
  exact read_congr rfl rfl rfl rfl rfl rfl (hfoot.extract_eq he)

end Archive

end

end BrowserTrace
