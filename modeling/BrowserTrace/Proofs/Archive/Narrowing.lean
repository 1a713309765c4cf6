import BrowserTrace.Proofs.Archive.Contents

/-!
# Fields that are too narrow

The writer cuts the number of members and the length of each name to two bytes.  What it has written
is read by these fields, so an archive may be read with other entries than the members it was written
from.  It has theirs exactly when nothing was cut (`Archive.hasMembers_iff_fits`): when the number is
cut the last members are lost, and a cut name is a shorter name, with data that begin inside the name.

Offsets and sizes are not in question here, since all of them lie below the size of the archive.
-/

namespace BrowserTrace

open Bytes Grammar

/-- The entries are those of the members: as many, in their order, with their names and data. -/
def Archive.HasMembers (a : Archive) (members : List Member) : Prop :=
  List.Forall₂ (fun e m ↦ e.name = m.name ∧ a.rawData e = m.data) a.entries members

variable {members : List Member} {limits : ArchiveLimits} {a : Archive}

theorem Archive.hasMembers_iff :
    a.HasMembers members ↔ a.entries.length = members.length ∧
      ∀ (i : Nat) (he : i < a.entries.length) (hi : i < members.length),
        a.entries[i].name = members[i].name ∧ a.rawData a.entries[i] = members[i].data :=
  List.forall₂_iff_get

/-! ## What is read -/

theorem partsFit_of_size_lt (h : (writeArchive members ByteArray.empty).size < 0xFFFFFFFF) :
    PartsFit members ByteArray.empty := by
  rw [size_writeArchive] at h
  exact ⟨by decide, by omega, by omega⟩

/-- An archive without a comment is read by the end record that was written. -/
theorem ofBytes_written_eq_ok_iff (h : PartsFit members ByteArray.empty) :
    Archive.ofBytes (writeArchive members ByteArray.empty) limits = .ok a ↔
      GoodDirectory (writeArchive members ByteArray.empty) (endStart members) ∧
        a = ⟨writeArchive members ByteArray.empty,
          entriesAt (writeArchive members ByteArray.empty) (endStart members), limits⟩ := by
  have hgreatest :
      IsGreatest {q | IsCandidate (writeArchive members ByteArray.empty) q} (endStart members) :=
    ⟨isCandidate_endStart h, fun q hq ↦
      Nat.not_lt.mp fun hlt ↦ not_isCandidate_of_endStart_lt hlt hq⟩
  rw [Archive.ofBytes_eq_ok_iff]
  constructor
  · rintro ⟨p, hp, hgood, rfl⟩
    obtain rfl : p = endStart members :=
      Nat.le_antisymm (hgreatest.2 hp.1) (hp.2 hgreatest.1)
    exact ⟨hgood, rfl⟩
  · rintro ⟨hgood, rfl⟩
    exact ⟨endStart members, hgreatest, hgood, rfl⟩

/-- As many entries are read as the cut number says. -/
theorem length_entries_written (h : PartsFit members ByteArray.empty)
    (ha : Archive.ofBytes (writeArchive members ByteArray.empty) limits = .ok a) :
    a.entries.length = members.length % 65536 := by
  obtain ⟨-, rfl⟩ := (ofBytes_written_eq_ok_iff h).mp ha
  exact (length_entriesAt _ _).trans (endRecord_written h).1

/-- When no name is cut, what is read are the first members, up to the cut number. -/
theorem hasMembers_take (h : PartsFit members ByteArray.empty)
    (hnames : ∀ m ∈ members, m.nameBytes.size < 65536)
    (ha : Archive.ofBytes (writeArchive members ByteArray.empty) limits = .ok a) :
    a.HasMembers (members.take (members.length % 65536)) := by
  obtain ⟨-, rfl⟩ := (ofBytes_written_eq_ok_iff h).mp ha
  rw [(directory_written h fun m hm ↦ Nat.le_of_lt_succ (hnames m hm)).2, Archive.hasMembers_iff]
  refine ⟨length_entriesFrom _ _, fun i _ hi ↦ ?_⟩
  have hi' := hi
  rw [List.length_take] at hi'
  have hfit := size_data_le members (show i < members.length by omega)
  have hstart := h.directoryStart_lt
  simp only [getElem_entriesFrom hi, List.getElem_take, Nat.zero_add, List.take_take,
    Nat.min_eq_left (show i ≤ members.length % 65536 by omega), Archive.rawData]
  exact ⟨rfl, extract_entryAt (holds_localRecord members _ (by omega)) (by omega)⟩

/-- The entry that is read for a member behind others whose names are not cut. -/
theorem getElem_entries_written (h : PartsFit members ByteArray.empty)
    (ha : Archive.ofBytes (writeArchive members ByteArray.empty) limits = .ok a) {i : Nat}
    (hi : i < members.length) (he : i < a.entries.length)
    (hnames : ∀ m ∈ members.take i, m.nameBytes.size ≤ 65535) :
    a.entries[i] = members[i].entryReadAt (localSizes (members.take i)) := by
  obtain ⟨-, rfl⟩ := (ofBytes_written_eq_ok_iff h).mp ha
  rw [getElem_entriesAt]
  exact (header_written _ h.directoryStart_lt hi (headerAt_written h hi hnames)).2.1

/-! ## Cut names -/

/-- A name that is cut is read as another one. -/
theorem Member.name_entryReadAt_ne {m : Member} (h : 65536 ≤ m.nameBytes.size) (offset : Nat) :
    (m.entryReadAt offset).name ≠ m.name := by
  refine Text.decodeLossy_extract_ne ?_
  change m.nameBytes.size % 65536 + 16 ≤ m.nameBytes.size
  omega

/-- When the members come back, none of their names was cut.  The header of a member is reached when
the names before it are whole, so this goes from each position to the next. -/
theorem Archive.HasMembers.name_size_lt (hmembers : a.HasMembers members)
    (h : PartsFit members ByteArray.empty)
    (ha : Archive.ofBytes (writeArchive members ByteArray.empty) limits = .ok a) {i : Nat}
    (hi : i < members.length) : members[i].nameBytes.size < 65536 := by
  obtain ⟨hlength, hentries⟩ := Archive.hasMembers_iff.mp hmembers
  induction i using Nat.strong_induction_on with
  | _ i ih =>
    have hbefore : ∀ m ∈ members.take i, m.nameBytes.size ≤ 65535 := by
      intro m hm
      obtain ⟨j, hj, rfl⟩ := List.mem_take_iff_getElem.mp hm
      exact Nat.le_of_lt_succ (ih j (by omega) (by omega))
    have hread := getElem_entries_written h ha hi (hlength.symm ▸ hi) hbefore
    have hname := (hentries i (hlength.symm ▸ hi) hi).1
    by_contra hlong
    rw [hread] at hname
    exact Member.name_entryReadAt_ne (Nat.not_lt.mp hlong) _ hname

/-- **What the writer cuts is lost.**  Of an archive without a comment that is shorter than the sizes
and offsets can tell and that is read, the entries are the members it was written from exactly when
their number and the lengths of their names fit two bytes.  When the names fit and the number does
not, the entries are the first members, as many as the cut number says. -/
theorem Archive.hasMembers_iff_fits (members : List Member) (limits : ArchiveLimits) (a : Archive)
    (hsize : (writeArchive members ByteArray.empty).size < 0xFFFFFFFF)
    (ha : Archive.ofBytes (writeArchive members ByteArray.empty) limits = .ok a) :
    (a.HasMembers members ↔
        members.length < 65536 ∧ ∀ m ∈ members, m.nameBytes.size < 65536) ∧
      ((∀ m ∈ members, m.nameBytes.size < 65536) →
        a.HasMembers (members.take (members.length % 65536))) := by
  have h := partsFit_of_size_lt hsize
  refine ⟨⟨fun hmembers ↦ ⟨?_, fun m hm ↦ ?_⟩, fun ⟨hcount, hnames⟩ ↦ ?_⟩,
    fun hnames ↦ hasMembers_take h hnames ha⟩
  · have hlength := (Archive.hasMembers_iff.mp hmembers).1
    rw [length_entries_written h ha] at hlength
    omega
  · obtain ⟨i, hi, rfl⟩ := List.mem_iff_getElem.mp hm
    exact hmembers.name_size_lt h ha hi
  · have hfirst := hasMembers_take h hnames ha
    rwa [Nat.mod_eq_of_lt hcount, List.take_length] at hfirst

/-- Members that fit come back. -/
theorem Archive.hasMembers_iff_fits_sample :
    (writeArchive Sample.members ByteArray.empty).size < 0xFFFFFFFF ∧
      ∃ a, Archive.ofBytes (writeArchive Sample.members ByteArray.empty) {} = .ok a ∧
        a.HasMembers Sample.members := by
  have hsize : (writeArchive Sample.members ByteArray.empty).size < 0xFFFFFFFF := by decide +kernel
  have hnames : ∀ m ∈ Sample.members, m.nameBytes.size < 65536 := by decide +kernel
  obtain ⟨a, ha, -⟩ := exists_contents_writeArchive Sample.representable_members {}
  exact ⟨hsize, a, ha, (Archive.hasMembers_iff_fits Sample.members {} a hsize ha).1.mpr
    ⟨by decide, hnames⟩⟩

/-- A member that is written alone is read, however long its name. -/
theorem ofBytes_written_single {m : Member} (h : PartsFit [m] ByteArray.empty)
    (hdeclared : m.uncompressedSize.toNat ≠ 0xFFFFFFFF) (limits : ArchiveLimits) :
    Archive.ofBytes (writeArchive [m] ByteArray.empty) limits =
      .ok ⟨writeArchive [m] ByteArray.empty, [m.entryReadAt 0], limits⟩ := by
  obtain ⟨hcount, -, hend, hrecord⟩ := endRecord_written h
  have hone : [m].length % 65536 = 1 := rfl
  rw [hone] at hcount hrecord
  obtain ⟨hheader, hentry, -⟩ := header_written ByteArray.empty h.directoryStart_lt Nat.one_pos
    (headerAt_written h Nat.one_pos nofun)
  have hgood : GoodDirectory (writeArchive [m] ByteArray.empty) (endStart [m]) := by
    refine ⟨hrecord.mpr (by decide), fun i hi ↦ ?_⟩
    obtain rfl : i = 0 := by omega
    rw [hend]
    exact hheader.mpr hdeclared
  rw [ofBytes_written_eq_ok_iff h]
  refine ⟨hgood, ?_⟩
  rw [entriesAt, hcount, List.range_one, List.map_singleton, hentry]
  rfl

/-- Of a member whose name is one byte too long, the name is lost, and its beginning is read in place
of the data. -/
theorem exists_entries_longNamed {m : Member} (hname : m.nameBytes.size = 65536)
    (hdata : m.data.size ≤ 65536) (hdeclared : m.uncompressedSize.toNat ≠ 0xFFFFFFFF)
    (limits : ArchiveLimits) :
    ∃ a, Archive.ofBytes (writeArchive [m] ByteArray.empty) limits = .ok a ∧
      a.entries.map (fun e ↦ (e.name, a.rawData e)) =
        [("", m.nameBytes.extract 0 m.data.size)] := by
  have hlocal : localSizes [m] = 30 + m.nameBytes.size + m.data.size + 0 := rfl
  have hdirectory : directorySizes [m] = 46 + m.nameBytes.size + 0 := rfl
  have hlength : m.nameLength = 0 := by rw [Member.nameLength, hname]
  have hempty : (m.entryReadAt 0).name = "" := by
    rw [Member.entryReadAt, hlength, ByteArray.extract_same]
    rfl
  have hstart : (m.entryReadAt 0).dataStart = 30 := by rw [Member.entryReadAt, hlength]
  have hend : (m.entryReadAt 0).dataEnd = 30 + m.data.size := by
    rw [Entry.dataEnd, hstart]
    exact congrArg (30 + ·) (toNat_ofNat_size (by omega))
  obtain ⟨-, -, -, hbytes, -⟩ := Member.localRecord_at
    (holds_localRecord [m] ByteArray.empty Nat.one_pos)
  refine ⟨_, ofBytes_written_single ⟨by decide, by omega, by omega⟩ hdeclared limits, ?_⟩
  have hread := hbytes.extract_add_eq (hdata.trans_eq hname.symm)
  simp only [List.map_singleton, Archive.rawData, hempty, hstart, hend]
  exact congrArg (fun x ↦ [("", x)]) hread

/-- A member with a name of one byte too many, and with one byte of data. -/
def longNamed : Member :=
  .stored ("a" ++ String.ofList (List.replicate 65535 'a')) "x".toByteArray

/-- The member does not come back: read are the empty name, and the first byte of the name. -/
theorem not_hasMembers_longNamed :
    ∃ a, Archive.ofBytes (writeArchive [longNamed] ByteArray.empty) {} = .ok a ∧
      a.entries.map (fun e ↦ (e.name, a.rawData e)) = [("", "a".toByteArray)] ∧
      ¬ a.HasMembers [longNamed] := by
  have hrest : (String.ofList (List.replicate 65535 'a')).toByteArray.size = 65535 := by
    rw [← length_toList_data, Text.toList_data_toByteArray, String.toList_ofList,
      List.length_flatMap, List.map_replicate, List.sum_replicate]
    rfl
  have hname : longNamed.nameBytes =
      "a".toByteArray ++ (String.ofList (List.replicate 65535 'a')).toByteArray :=
    String.toByteArray_append
  have hsize : longNamed.nameBytes.size = 65536 := by
    rw [hname, ByteArray.size_append, hrest]
    rfl
  have hdata : longNamed.data.size = 1 := rfl
  obtain ⟨a, ha, hentries⟩ :=
    exists_entries_longNamed hsize (by rw [hdata]; decide) (by decide) {}
  have hfirst : longNamed.nameBytes.extract 0 longNamed.data.size = "a".toByteArray := by
    rw [hname, hdata]
    exact ByteArray.extract_append_eq_left rfl
  rw [hfirst] at hentries
  refine ⟨a, ha, hentries, fun hmembers ↦ ?_⟩
  obtain ⟨e, es, ⟨hsame, -⟩, -, he⟩ := List.forall₂_cons_right_iff.mp hmembers
  rw [he, List.map_cons] at hentries
  have hempty : longNamed.name = "" := hsame.symm.trans (Prod.mk.inj (List.cons.inj hentries).1).1
  rw [Member.nameBytes, hempty] at hsize
  exact absurd hsize (by decide)

end BrowserTrace
