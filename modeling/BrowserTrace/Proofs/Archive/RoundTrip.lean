import BrowserTrace.Proofs.Archive.Acceptance
import BrowserTrace.Proofs.Archive.Layout

/-!
# Reading what was written

An archive that the writer laid out is read back member by member, whatever the data hold: the
search for the end record runs backwards, so nothing before the written record can win, and the
headers are reached by offsets and lengths alone.  Two things can go wrong, and both are hypotheses.
A count, length or offset may not fit its field (`Representable`), and the record or the comment may
hold what looks like a later record.

A name or a number of entries that does not fit is cut by the writer.  What is read at the header of a
member is told for any name (`header_written`), and the walk along the directory, which is by induction
on the number of headers passed, arrives there as long as no name before it is cut
(`iterate_nextHeader`).
-/

namespace BrowserTrace

open Bytes Grammar

/-! ## What can be written -/

/-- All counts, lengths and offsets fit their fields.  The data of a member and the offset of its
local record lie before the directory, so they fit as well. -/
structure Representable (members : List Member) (comment : ByteArray) : Prop where
  count_le : members.length ≤ 65534
  names_le : ∀ m ∈ members, m.nameBytes.size ≤ 65535
  declared_lt : ∀ m ∈ members, m.uncompressedSize.toNat < 0xFFFFFFFF
  comment_le : comment.size ≤ 65535
  directoryStart_lt : localSizes members < 0xFFFFFFFF
  directorySize_lt : directorySizes members < 0xFFFFFFFF

/-- Where the end record of the members begins. -/
def endStart (members : List Member) : Nat := localSizes members + directorySizes members

/-! ## Entries of members -/

/-- The entry that a member becomes whose local record begins at `offset`. -/
def Member.entryAt (m : Member) (offset : Nat) : Entry where
  name := m.name
  flags := m.flags
  method := methodOf m.method.toNat
  compressedSize := UInt32.ofNat m.data.size
  uncompressedSize := m.uncompressedSize
  localOffset := UInt32.ofNat offset
  dataStart := offset + 30 + m.nameBytes.size

/-- The entries that members become whose local records begin at `offset`. -/
def entriesFrom : (offset : Nat) → List Member → List Entry
  | _, [] => []
  | offset, m :: members => m.entryAt offset :: entriesFrom (offset + m.localSize) members

@[simp] theorem length_entriesFrom (offset : Nat) (members : List Member) :
    (entriesFrom offset members).length = members.length := by
  induction members generalizing offset with
  | nil => rfl
  | cons m members ih => simp [entriesFrom, ih]

/-- The offsets run along with the sizes of the local records. -/
theorem getElem_entriesFrom {offset i : Nat} {members : List Member} (hi : i < members.length)
    (h : i < (entriesFrom offset members).length) :
    (entriesFrom offset members)[i] =
      members[i].entryAt (offset + localSizes (members.take i)) := by
  induction members generalizing offset i with
  | nil => exact absurd h (Nat.not_lt_zero i)
  | cons m members ih =>
    cases i with
    | zero => rfl
    | succ i =>
      have hi' : i < members.length := Nat.lt_of_succ_lt_succ hi
      simp only [entriesFrom, List.getElem_cons_succ, ih hi', List.take_succ_cons, localSizes,
        List.map_cons, List.sum_cons, Nat.add_assoc]

/-- The entry that is read for a member whose local record begins at `offset`: the headers cut the
length of the name to two bytes. -/
def Member.entryReadAt (m : Member) (offset : Nat) : Entry :=
  { m.entryAt offset with
    name := Text.decodeLossy (m.nameBytes.extract 0 m.nameLength)
    dataStart := offset + 30 + m.nameLength }

theorem Member.entryReadAt_of_le {m : Member} (h : m.nameBytes.size ≤ 65535) (offset : Nat) :
    m.entryReadAt offset = m.entryAt offset := by
  rw [entryReadAt, nameLength_of_le h, ByteArray.extract_zero_size, nameBytes,
    Text.decodeLossy_toByteArray]
  rfl

/-- A member's local and directory record make a header in order, unless the declared size is the one
that stands for a larger one.  The member's entry is read from it, and the next header is looked for
behind as much of the name as it tells of. -/
theorem header_of_holds {b : ByteArray} {stop pos offset : Nat} {m : Member}
    (hlocal : Holds b offset m.localRecord.data.toList)
    (hheader : Holds b pos (m.directoryRecord offset).data.toList)
    (hend : offset + m.localSize < 0xFFFFFFFF) (hoffset : offset ≤ b.size)
    (hstop : pos + m.directorySize ≤ stop) :
    (GoodHeader b stop pos ↔ m.uncompressedSize.toNat ≠ 0xFFFFFFFF) ∧
      entryAt b pos = m.entryReadAt offset ∧ nextHeader b pos = pos + 46 + m.nameLength := by
  have hsize : offset + m.localSize ≤ b.size := by
    have h := hlocal.add_length_le hoffset
    rwa [length_toList_data, m.size_localRecord] at h
  have hname : m.nameLength ≤ m.nameBytes.size := Nat.mod_le _ _
  unfold Member.localSize at hend hsize
  unfold Member.directorySize at hstop
  obtain ⟨hlsig, hlname, hlextra, -⟩ := Member.localRecord_at hlocal
  obtain ⟨hsig, hflags, hmethod, hcomp, hdecl, hlen, hextra, hcomment, hoff, hbytes⟩ :=
    Member.directoryRecord_at hheader (by omega) (by omega)
  have hnext : nextHeader b pos = pos + 46 + m.nameLength := by
    rw [nextHeader, hlen, hextra, hcomment, Nat.add_zero, Nat.add_zero]
  have hstart : dataStartAt b pos = offset + 30 + m.nameLength := by
    rw [dataStartAt, hoff, hlname, hlextra, Nat.add_zero]
  refine ⟨⟨fun h ↦ hdecl ▸ h.uncompressed_ne, fun hne ↦ ⟨hsig, ?_, ?_, ?_, ?_, ?_, ?_, ?_⟩⟩, ?_,
    hnext⟩
  · rw [hnext]
    omega
  · rw [hcomp]
    omega
  · rwa [hdecl]
  · rw [hoff]
    omega
  · rw [hoff]
    omega
  · rw [hoff, hlsig]
  · rw [hstart, hcomp]
    omega
  · rw [entryAt, hflags, hmethod, hcomp, hdecl, hlen, hoff, hstart, hbytes.extract_add_eq hname,
      UInt16.ofNat_toNat, UInt32.ofNat_toNat]
    rfl

/-! ## Whole archives -/

section Written

variable {members : List Member} {comment : ByteArray} {i : Nat}

/-- The three parts of a written archive, where they stand. -/
theorem holds_writeArchive (members : List Member) (comment : ByteArray) :
    Holds (writeArchive members comment) 0 (localBytes members) ∧
      Holds (writeArchive members comment) (localSizes members) (directoryBytes 0 members) ∧
      Holds (writeArchive members comment) (endStart members)
        (endRecordBytes members.length (directorySizes members) (localSizes members)
          comment).data.toList := by
  have h := holds_zero (writeArchive members comment)
  rw [toList_writeArchive, holds_append_iff, holds_append_iff, length_localBytes,
    length_directoryBytes, Nat.zero_add] at h
  exact h

theorem take_append_getElem_cons_drop (hi : i < members.length) :
    members.take i ++ members[i] :: members.drop (i + 1) = members := by
  rw [← List.drop_eq_getElem_cons hi, List.take_append_drop]

/-- The local record of each member stands behind those before it. -/
theorem holds_localRecord (members : List Member) (comment : ByteArray)
    (hi : i < members.length) :
    Holds (writeArchive members comment) (localSizes (members.take i))
      members[i].localRecord.data.toList := by
  have h := (holds_writeArchive members comment).1
  have hsplit : localBytes members = localBytes (members.take i) ++
      (members[i].localRecord.data.toList ++ localBytes (members.drop (i + 1))) :=
    (congrArg localBytes (take_append_getElem_cons_drop hi)).symm.trans (localBytes_append _ _)
  rw [hsplit, holds_append_iff, length_localBytes, Nat.zero_add] at h
  exact h.2.left

/-- The directory header of each member stands behind those before it. -/
theorem holds_directoryRecord (members : List Member) (comment : ByteArray)
    (hi : i < members.length) :
    Holds (writeArchive members comment) (localSizes members + directorySizes (members.take i))
      (members[i].directoryRecord (localSizes (members.take i))).data.toList := by
  have h := (holds_writeArchive members comment).2.1
  have hsplit : directoryBytes 0 members = directoryBytes 0 (members.take i) ++
      ((members[i].directoryRecord (0 + localSizes (members.take i))).data.toList ++
        directoryBytes (0 + localSizes (members.take i) + members[i].localSize)
          (members.drop (i + 1))) :=
    (congrArg (directoryBytes 0) (take_append_getElem_cons_drop hi)).symm.trans
      (directoryBytes_append _ _ _)
  rw [hsplit, holds_append_iff, length_directoryBytes, Nat.zero_add] at h
  exact h.2.left

/-- What is read where the header of a member stands. -/
theorem header_written (comment : ByteArray) (hstart : localSizes members < 0xFFFFFFFF)
    (hi : i < members.length) {pos : Nat}
    (hpos : pos = localSizes members + directorySizes (members.take i)) :
    (GoodHeader (writeArchive members comment) (endStart members) pos ↔
        members[i].uncompressedSize.toNat ≠ 0xFFFFFFFF) ∧
      entryAt (writeArchive members comment) pos =
        members[i].entryReadAt (localSizes (members.take i)) ∧
      nextHeader (writeArchive members comment) pos = pos + 46 + members[i].nameLength := by
  subst hpos
  have htotal := size_writeArchive members comment
  have hlocal := localSizes_le_of_sublist (List.take_sublist (i + 1) members)
  have hdirectory := directorySizes_le_of_sublist (List.take_sublist (i + 1) members)
  rw [localSizes_take_succ hi] at hlocal
  rw [directorySizes_take_succ hi] at hdirectory
  refine header_of_holds (holds_localRecord members comment hi)
    (holds_directoryRecord members comment hi) (by omega) (by omega) ?_
  unfold endStart
  omega

/-- The walk along the directory arrives at the header of each member, as long as the names before it
are not cut. -/
theorem iterate_nextHeader (comment : ByteArray) (hstart : localSizes members < 0xFFFFFFFF)
    (hi : i ≤ members.length) (hnames : ∀ m ∈ members.take i, m.nameBytes.size ≤ 65535) :
    (nextHeader (writeArchive members comment))^[i] (localSizes members) =
      localSizes members + directorySizes (members.take i) := by
  induction i with
  | zero => rfl
  | succ i ih =>
    have hbefore := ih (Nat.le_of_succ_le hi) fun m hm ↦
      hnames m (List.take_subset_take_left members (Nat.le_succ i) hm)
    have hname := hnames members[i] (List.mem_take_iff_getElem.mpr ⟨i, by omega, rfl⟩)
    rw [Function.iterate_succ_apply', (header_written comment hstart hi hbefore).2.2, hbefore,
      Member.nameLength_of_le hname, directorySizes_take_succ hi, Member.directorySize]
    omega

/-- The lengths and offsets of the three parts fit their fields. -/
structure PartsFit (members : List Member) (comment : ByteArray) : Prop where
  comment_le : comment.size ≤ 65535
  directoryStart_lt : localSizes members < 0xFFFFFFFF
  directorySize_lt : directorySizes members < 0xFFFFFFFF

theorem Representable.partsFit (h : Representable members comment) : PartsFit members comment :=
  ⟨h.comment_le, h.directoryStart_lt, h.directorySize_lt⟩

/-- The written end record is a candidate. -/
theorem isCandidate_endStart (h : PartsFit members comment) :
    IsCandidate (writeArchive members comment) (endStart members) := by
  obtain ⟨hsig, -, -, -, -, -, -, hlen⟩ :=
    endRecordBytes_at (holds_writeArchive members comment).2.2 h.directorySize_lt
      h.directoryStart_lt h.comment_le
  have hcomment := h.comment_le
  have hsize := size_writeArchive members comment
  rw [← endStart] at hsize
  exact ⟨by omega, by omega, hsig, by omega⟩

/-- Where the written end record leads to: the number of entries is cut to two bytes. -/
theorem endRecord_written (h : PartsFit members comment) :
    entryCountAt (writeArchive members comment) (endStart members) = members.length % 65536 ∧
      directoryStartAt (writeArchive members comment) (endStart members) = localSizes members ∧
      directoryEndAt (writeArchive members comment) (endStart members) = endStart members ∧
      (GoodRecord (writeArchive members comment) (endStart members) ↔
        members.length % 65536 ≠ 0xFFFF) := by
  obtain ⟨-, hdisk, hdirectoryDisk, hentries, hcount, hsize, hstart, -⟩ :=
    endRecordBytes_at (holds_writeArchive members comment).2.2 h.directorySize_lt
      h.directoryStart_lt h.comment_le
  have hend : directoryEndAt (writeArchive members comment) (endStart members) =
      endStart members := by
    rw [directoryEndAt, hstart, hsize]
    rfl
  have htotal := size_writeArchive members comment
  refine ⟨hcount, hstart, hend, fun hgood ↦ hcount ▸ hgood.count_ne, fun hne ↦
    ⟨hdisk, hdirectoryDisk, hentries.trans hcount.symm, hcount ▸ hne, ?_, ?_, ?_⟩⟩
  · exact hsize ▸ Nat.ne_of_lt h.directorySize_lt
  · exact hstart ▸ Nat.ne_of_lt h.directoryStart_lt
  · rw [hend, htotal, endStart]
    omega

/-- The header that the end record leads to by as many steps as there are members before. -/
theorem headerAt_written (h : PartsFit members comment) (hi : i < members.length)
    (hnames : ∀ m ∈ members.take i, m.nameBytes.size ≤ 65535) :
    headerAt (writeArchive members comment) (endStart members) i =
      localSizes members + directorySizes (members.take i) := by
  rw [headerAt, (endRecord_written h).2.1,
    iterate_nextHeader comment h.directoryStart_lt (Nat.le_of_lt hi) hnames]

/-- A written directory of members whose names are not cut: it is read up to the number of entries
that the end record tells of, and is in order when that number and the declared sizes are. -/
theorem directory_written (h : PartsFit members comment)
    (hnames : ∀ m ∈ members, m.nameBytes.size ≤ 65535) :
    (GoodDirectory (writeArchive members comment) (endStart members) ↔
        members.length % 65536 ≠ 0xFFFF ∧
          ∀ m ∈ members.take (members.length % 65536), m.uncompressedSize.toNat ≠ 0xFFFFFFFF) ∧
      entriesAt (writeArchive members comment) (endStart members) =
        entriesFrom 0 (members.take (members.length % 65536)) := by
  obtain ⟨hcount, -, hend, hrecord⟩ := endRecord_written h
  have hle : members.length % 65536 ≤ members.length := Nat.mod_le _ _
  have hheader (i : Nat) (hi : i < members.length) :=
    headerAt_written h hi fun m hm ↦ hnames m (List.mem_of_mem_take hm)
  constructor
  · constructor
    · intro hgood
      refine ⟨hrecord.mp hgood.record, fun m hm ↦ ?_⟩
      obtain ⟨i, hi, rfl⟩ := List.mem_take_iff_getElem.mp hm
      have hgoodHeader := hgood.headers i (by omega)
      rw [hend] at hgoodHeader
      exact (header_written comment h.directoryStart_lt (by omega)
        (hheader i (by omega))).1.mp hgoodHeader
    · rintro ⟨hne, hdeclared⟩
      refine ⟨hrecord.mpr hne, fun i hi ↦ ?_⟩
      rw [hcount] at hi
      rw [hend]
      exact (header_written comment h.directoryStart_lt (by omega)
        (hheader i (by omega))).1.mpr (hdeclared _ (List.mem_take_iff_getElem.mpr
          ⟨i, by omega, rfl⟩))
  · refine List.ext_getElem (by simp [hcount, hle]) fun i hi hi' ↦ ?_
    rw [length_entriesAt, hcount] at hi
    have hm : i < members.length := by omega
    have htake : i < (members.take (members.length % 65536)).length := by simp [hi, hm]
    rw [getElem_entriesAt, getElem_entriesFrom htake, List.getElem_take, List.take_take,
      Nat.min_eq_left (Nat.le_of_lt hi), Nat.zero_add,
      (header_written comment h.directoryStart_lt hm (hheader i hm)).2.1,
      Member.entryReadAt_of_le (hnames _ (List.getElem_mem hm))]

/-- The written directory is in order. -/
theorem goodDirectory_endStart (h : Representable members comment) :
    GoodDirectory (writeArchive members comment) (endStart members) ∧
      entriesAt (writeArchive members comment) (endStart members) = entriesFrom 0 members := by
  obtain ⟨hgood, hentries⟩ := directory_written h.partsFit h.names_le
  have hcount := h.count_le
  have hmod : members.length % 65536 = members.length := Nat.mod_eq_of_lt (by omega)
  rw [hmod, List.take_length] at hgood hentries
  exact ⟨hgood.mpr ⟨by omega, fun m hm ↦ Nat.ne_of_lt (h.declared_lt m hm)⟩, hentries⟩

/-- A written archive is read back as its members' entries, when nothing behind the start of the end
record looks like another one. -/
theorem ofBytes_writeArchive (h : Representable members comment) (limits : ArchiveLimits)
    (hlast : ∀ q, endStart members < q → ¬ IsCandidate (writeArchive members comment) q) :
    Archive.ofBytes (writeArchive members comment) limits =
      .ok ⟨writeArchive members comment, entriesFrom 0 members, limits⟩ := by
  obtain ⟨hgood, hentries⟩ := goodDirectory_endStart h
  refine Archive.ofBytes_eq_ok_iff.mpr ⟨endStart members,
    ⟨isCandidate_endStart h.partsFit, ?_⟩, hgood, ?_⟩
  · exact fun q hq ↦ Nat.not_lt.mp fun hlt ↦ hlast q hlt hq
  · rw [hentries]

/-- The data of a member lie before the directory. -/
theorem size_data_le (members : List Member) {i : Nat} (hi : i < members.length) :
    localSizes (members.take i) + members[i].data.size ≤ localSizes members := by
  have hsplit : localSizes members = localSizes (members.take i) +
      (members[i].localSize + localSizes (members.drop (i + 1))) :=
    (congrArg localSizes (take_append_getElem_cons_drop hi)).symm.trans (localSizes_append _ _)
  unfold Member.localSize at hsplit
  omega

/-- The data of a member stand where its entry says. -/
theorem extract_entryAt {b : ByteArray} {offset : Nat} {m : Member}
    (hlocal : Holds b offset m.localRecord.data.toList) (hdata : m.data.size < 0xFFFFFFFF) :
    b.extract (m.entryAt offset).dataStart (m.entryAt offset).dataEnd = m.data := by
  obtain ⟨-, -, -, -, hbytes⟩ := Member.localRecord_at hlocal
  have hsize : (m.entryAt offset).compressedSize.toNat = m.data.size :=
    UInt32.toNat_ofNat_of_lt' (by simp only [UInt32.size]; omega)
  rw [Entry.dataEnd, hsize]
  exact hbytes.extract_eq

end Written

/-- **Round trip.**  An archive of any members, with any data and any comment, is read back when
everything is representable and nothing behind the start of the end record, neither in the record
nor in the comment, looks like a record whose comment fits.  Its entries are the members in order,
with their fields, the running offsets, and exactly their data. -/
theorem ofBytes_writeArchive_roundTrip (members : List Member) (comment : ByteArray)
    (limits : ArchiveLimits) (h : Representable members comment)
    (hlast : ∀ q, endStart members < q →
      ¬ (numberAt (writeArchive members comment) q 4 = 0x06054b50 ∧
        q + 22 + numberAt (writeArchive members comment) (q + 20) 2 ≤
          (writeArchive members comment).size)) :
    ∃ a, Archive.ofBytes (writeArchive members comment) limits = .ok a ∧
      a.entries.length = members.length ∧
      ∀ (i : Nat) (hi : i < members.length) (he : i < a.entries.length),
        a.entries[i].name = members[i].name ∧
        a.entries[i].flags = members[i].flags ∧
        a.entries[i].method = methodOf members[i].method.toNat ∧
        a.entries[i].compressedSize.toNat = members[i].data.size ∧
        a.entries[i].uncompressedSize = members[i].uncompressedSize ∧
        a.entries[i].localOffset.toNat = localSizes (members.take i) ∧
        a.rawData a.entries[i] = members[i].data := by
  refine ⟨_, ofBytes_writeArchive h limits fun q hq hc ↦ hlast q hq ⟨hc.signature, hc.comment_fits⟩,
    length_entriesFrom 0 members, fun i hi he ↦ ?_⟩
  have hfit := size_data_le members hi
  have hstart := h.directoryStart_lt
  simp only [getElem_entriesFrom hi, Nat.zero_add, Archive.rawData]
  refine ⟨rfl, rfl, rfl, ?_, rfl, ?_, ?_⟩
  · exact UInt32.toNat_ofNat_of_lt' (by simp only [UInt32.size]; omega)
  · exact UInt32.toNat_ofNat_of_lt' (by simp only [UInt32.size]; omega)
  · exact extract_entryAt (holds_localRecord members comment hi) (by omega)

/-- The end record of an empty archive. -/
def emptyRecord : ByteArray := endRecordBytes 0 0 0 ByteArray.empty

/-- A comment that begins like an end record with a comment of 65535 bytes. -/
def signatureComment : ByteArray :=
  (u32Bytes EndRecord.signature ++ List.replicate 18 0xFF).toByteArray

/-- The hypotheses are met by data that are an end record themselves, before a comment that begins
like one: neither is taken for the record. -/
theorem ofBytes_writeArchive_roundTrip_signatures :
    Representable [.stored "a.trace" emptyRecord] signatureComment ∧
      ∃ a, Archive.ofBytes (writeArchive [.stored "a.trace" emptyRecord] signatureComment) {} =
          .ok a ∧ a.entries.length = 1 ∧ ∀ he : 0 < a.entries.length,
        a.entries[0].name = "a.trace" ∧ a.rawData a.entries[0] = emptyRecord := by
  have h : Representable [.stored "a.trace" emptyRecord] signatureComment :=
    ⟨by decide, by decide +kernel, by decide +kernel, by decide, by decide +kernel,
      by decide +kernel⟩
  have hsize : (writeArchive [.stored "a.trace" emptyRecord] signatureComment).size =
      endStart [.stored "a.trace" emptyRecord] + 44 := by decide +kernel
  have hnear : ∀ k < 22, ¬ (numberAt (writeArchive [.stored "a.trace" emptyRecord] signatureComment)
        (endStart [.stored "a.trace" emptyRecord] + 1 + k) 4 = 0x06054b50 ∧
      endStart [.stored "a.trace" emptyRecord] + 1 + k + 22 +
        numberAt (writeArchive [.stored "a.trace" emptyRecord] signatureComment)
          (endStart [.stored "a.trace" emptyRecord] + 1 + k + 20) 2 ≤
        (writeArchive [.stored "a.trace" emptyRecord] signatureComment).size) := by decide +kernel
  obtain ⟨a, ha, hlen, hall⟩ := ofBytes_writeArchive_roundTrip _ signatureComment {} h
    fun q hq hc ↦ by
    refine hnear (q - endStart [.stored "a.trace" emptyRecord] - 1) ?_ ?_
    · have := hc.2
      omega
    · rwa [show endStart [.stored "a.trace" emptyRecord] + 1 +
        (q - endStart [.stored "a.trace" emptyRecord] - 1) = q by omega]
  exact ⟨h, a, ha, hlen, fun he ↦
    ⟨(hall 0 Nat.one_pos he).1, (hall 0 Nat.one_pos he).2.2.2.2.2.2⟩⟩

end BrowserTrace
