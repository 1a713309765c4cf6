import BrowserTrace.Archive.Writer
import BrowserTrace.Proofs.Archive.Grammar
import BrowserTrace.Proofs.Text.Utf8
import Mathlib.Algebra.Order.BigOperators.Group.List

/-!
# What the writer lays out

`writeArchive` appends to two growing parts and joins them at the end.  This file says what stands
where in the result: `localBytes` and `directoryBytes` are the two parts as lists of bytes, by
recursion on the members (`toList_writeArchive`), and each record that stands in an archive is found
there by the grammar with all its fields (`Member.localRecord_at`, `Member.directoryRecord_at`).
-/

namespace BrowserTrace

open Bytes Grammar

/-! ## Sizes -/

namespace Member

/-- The length of the local header of a member with its name and data. -/
def localSize (m : Member) : Nat := 30 + m.nameBytes.size + m.data.size

/-- The length of the directory header of a member with its name. -/
def directorySize (m : Member) : Nat := 46 + m.nameBytes.size

/-- The length of the name as the headers give it: it is cut to two bytes. -/
def nameLength (m : Member) : Nat := m.nameBytes.size % 65536

theorem nameLength_of_le {m : Member} (h : m.nameBytes.size ≤ 65535) :
    m.nameLength = m.nameBytes.size := Nat.mod_eq_of_lt (Nat.lt_succ_of_le h)

@[simp] theorem size_localRecord (m : Member) : m.localRecord.size = m.localSize := by
  simp only [localRecord, commonFields, ByteArray.size_append, List.size_toByteArray,
    List.length_append, length_u16Bytes, length_u32Bytes, localSize]

@[simp] theorem size_directoryRecord (m : Member) (offset : Nat) :
    (m.directoryRecord offset).size = m.directorySize := by
  simp only [directoryRecord, commonFields, ByteArray.size_append, List.size_toByteArray,
    List.length_append, length_u16Bytes, length_u32Bytes, directorySize]

end Member

/-! ## The two parts -/

/-- The local records of the members, one after another. -/
def localBytes (members : List Member) : List UInt8 :=
  members.flatMap fun m ↦ m.localRecord.data.toList

/-- The directory headers of members whose local records begin at `offset`. -/
def directoryBytes : (offset : Nat) → List Member → List UInt8
  | _, [] => []
  | offset, m :: members =>
    (m.directoryRecord offset).data.toList ++ directoryBytes (offset + m.localSize) members

/-- The length of all local records. -/
def localSizes (members : List Member) : Nat := (members.map Member.localSize).sum

/-- The length of all directory headers. -/
def directorySizes (members : List Member) : Nat := (members.map Member.directorySize).sum

theorem localBytes_append (xs ys : List Member) :
    localBytes (xs ++ ys) = localBytes xs ++ localBytes ys := List.flatMap_append

theorem localSizes_append (xs ys : List Member) :
    localSizes (xs ++ ys) = localSizes xs + localSizes ys := by
  simp [localSizes]

theorem directorySizes_append (xs ys : List Member) :
    directorySizes (xs ++ ys) = directorySizes xs + directorySizes ys := by
  simp [directorySizes]

theorem localSizes_take_succ {members : List Member} {i : Nat} (hi : i < members.length) :
    localSizes (members.take (i + 1)) = localSizes (members.take i) + members[i].localSize := by
  rw [List.take_succ_eq_append_getElem hi, localSizes_append]
  rfl

theorem directorySizes_take_succ {members : List Member} {i : Nat} (hi : i < members.length) :
    directorySizes (members.take (i + 1)) =
      directorySizes (members.take i) + members[i].directorySize := by
  rw [List.take_succ_eq_append_getElem hi, directorySizes_append]
  rfl

theorem localSizes_le_of_sublist {fewer members : List Member} (hs : fewer.Sublist members) :
    localSizes fewer ≤ localSizes members :=
  (hs.map Member.localSize).sum_le_sum fun _ _ ↦ Nat.zero_le _

theorem directorySizes_le_of_sublist {fewer members : List Member} (hs : fewer.Sublist members) :
    directorySizes fewer ≤ directorySizes members :=
  (hs.map Member.directorySize).sum_le_sum fun _ _ ↦ Nat.zero_le _

theorem directoryBytes_append (offset : Nat) (xs ys : List Member) :
    directoryBytes offset (xs ++ ys) =
      directoryBytes offset xs ++ directoryBytes (offset + localSizes xs) ys := by
  induction xs generalizing offset with
  | nil => rfl
  | cons m xs ih =>
    have hsizes : localSizes (m :: xs) = m.localSize + localSizes xs := rfl
    rw [List.cons_append, directoryBytes, directoryBytes, ih, hsizes, List.append_assoc,
      Nat.add_assoc]

@[simp] theorem length_localBytes (members : List Member) :
    (localBytes members).length = localSizes members := by
  simp [localBytes, localSizes]

@[simp] theorem length_directoryBytes (offset : Nat) (members : List Member) :
    (directoryBytes offset members).length = directorySizes members := by
  induction members generalizing offset with
  | nil => rfl
  | cons m members ih =>
    rw [directoryBytes, List.length_append, ih, length_toList_data, Member.size_directoryRecord]
    rfl

/-- The invariant of the writer's loop: each part grows by the bytes of the members. -/
theorem toList_foldl_add (members : List Member) (parts : ArchiveParts) :
    (members.foldl ArchiveParts.add parts).records.data.toList =
        parts.records.data.toList ++ localBytes members ∧
      (members.foldl ArchiveParts.add parts).directory.data.toList =
        parts.directory.data.toList ++ directoryBytes parts.records.size members := by
  induction members generalizing parts with
  | nil => simp [localBytes, directoryBytes]
  | cons m members ih =>
    have hsize : (parts.add m).records.size = parts.records.size + m.localSize := by
      rw [ArchiveParts.add, ByteArray.size_append, m.size_localRecord]
    obtain ⟨hr, hd⟩ := ih (parts.add m)
    rw [List.foldl_cons]
    constructor
    · rw [hr, ArchiveParts.add, ByteArray.toList_data_append, List.append_assoc]
      rfl
    · rw [hd, hsize, ArchiveParts.add, ByteArray.toList_data_append, List.append_assoc]
      rfl

/-- An archive is the local records, the directory, and the end record. -/
theorem toList_writeArchive (members : List Member) (comment : ByteArray) :
    (writeArchive members comment).data.toList =
      localBytes members ++ (directoryBytes 0 members ++
        (endRecordBytes members.length (directorySizes members) (localSizes members)
          comment).data.toList) := by
  obtain ⟨hr, hd⟩ := toList_foldl_add members {}
  have hrs : (members.foldl ArchiveParts.add {}).records.size = localSizes members := by
    rw [← length_toList_data, hr]
    simp
  have hds : (members.foldl ArchiveParts.add {}).directory.size = directorySizes members := by
    rw [← length_toList_data, hd]
    simp
  rw [writeArchive, ByteArray.toList_data_append, ByteArray.toList_data_append, hr, hd, hrs, hds,
    List.append_assoc]
  rfl

theorem size_writeArchive (members : List Member) (comment : ByteArray) :
    (writeArchive members comment).size =
      localSizes members + directorySizes members + 22 + comment.size := by
  rw [← length_toList_data, toList_writeArchive]
  simp [endRecordBytes]
  omega

/-! ## Records found again -/

/-- What a local header says that stands at `pos`. -/
theorem Member.localRecord_at {b : ByteArray} {pos : Nat} {m : Member}
    (h : Holds b pos m.localRecord.data.toList) :
    numberAt b pos 4 = 0x04034b50 ∧ numberAt b (pos + 26) 2 = m.nameLength ∧
      numberAt b (pos + 28) 2 = 0 ∧ Holds b (pos + 30) m.nameBytes.data.toList ∧
      Holds b (pos + 30 + m.nameBytes.size) m.data.data.toList := by
  simp only [localRecord, commonFields, ByteArray.toList_data_append, List.data_toByteArray,
    holds_append_iff, List.length_append, length_u16Bytes, length_u32Bytes, Nat.reduceAdd,
    Nat.add_assoc, and_assoc, length_toList_data] at h
  obtain ⟨hsig, -, -, -, -, -, -, -, -, hlen, hextra, hname, hdata⟩ := h
  exact ⟨hsig.numberAt_u32, hlen.numberAt_u16, hextra.numberAt_u16, hname, by rwa [Nat.add_assoc]⟩

/-- What a directory header says that stands at `pos`. -/
theorem Member.directoryRecord_at {b : ByteArray} {pos offset : Nat} {m : Member}
    (h : Holds b pos (m.directoryRecord offset).data.toList)
    (hdata : m.data.size < 0xFFFFFFFF) (hoffset : offset < 0xFFFFFFFF) :
    numberAt b pos 4 = 0x02014b50 ∧ numberAt b (pos + 8) 2 = m.flags.toNat ∧
      numberAt b (pos + 10) 2 = m.method.toNat ∧ compressedSizeAt b pos = m.data.size ∧
      uncompressedSizeAt b pos = m.uncompressedSize.toNat ∧
      numberAt b (pos + 28) 2 = m.nameLength ∧ numberAt b (pos + 30) 2 = 0 ∧
      numberAt b (pos + 32) 2 = 0 ∧ localOffsetAt b pos = offset ∧
      Holds b (pos + 46) m.nameBytes.data.toList := by
  simp only [directoryRecord, commonFields, ByteArray.toList_data_append, List.data_toByteArray,
    holds_append_iff, List.length_append, length_u16Bytes, length_u32Bytes, Nat.reduceAdd,
    Nat.add_assoc, and_assoc] at h
  obtain ⟨hsig, -, -, hflags, hmethod, -, -, -, hsize, hdeclared, hlen, hextra, hcomment, -, -, -,
    hoff, hbytes⟩ := h
  refine ⟨hsig.numberAt_u32, hflags.numberAt_u16, hmethod.numberAt_u16, ?_,
    hdeclared.numberAt_u32, hlen.numberAt_u16, hextra.numberAt_u16, hcomment.numberAt_u16, ?_,
    hbytes⟩
  · rw [compressedSizeAt, hsize.numberAt_u32,
      UInt32.toNat_ofNat_of_lt' (by simp only [UInt32.size]; omega)]
  · rw [localOffsetAt, hoff.numberAt_u32,
      UInt32.toNat_ofNat_of_lt' (by simp only [UInt32.size]; omega)]

/-- What an end record says that stands at `p`.  The number of entries is cut to two bytes. -/
theorem endRecordBytes_at {b : ByteArray} {p count size start : Nat} {comment : ByteArray}
    (h : Holds b p (endRecordBytes count size start comment).data.toList)
    (hsize : size < 0xFFFFFFFF) (hstart : start < 0xFFFFFFFF) (hcomment : comment.size ≤ 65535) :
    numberAt b p 4 = 0x06054b50 ∧ numberAt b (p + 4) 2 = 0 ∧ numberAt b (p + 6) 2 = 0 ∧
      numberAt b (p + 8) 2 = count % 65536 ∧ entryCountAt b p = count % 65536 ∧
      directorySizeAt b p = size ∧ directoryStartAt b p = start ∧
      numberAt b (p + 20) 2 = comment.size := by
  simp only [endRecordBytes, ByteArray.toList_data_append, List.data_toByteArray,
    holds_append_iff, List.length_append, length_u16Bytes, length_u32Bytes, Nat.reduceAdd,
    and_assoc] at h
  obtain ⟨hsig, hdisk, hdirectoryDisk, hentries, htotal, hlen, hoff, hrest, -⟩ := h
  refine ⟨hsig.numberAt_u32, hdisk.numberAt_u16, hdirectoryDisk.numberAt_u16,
    hentries.numberAt_u16, htotal.numberAt_u16, ?_, ?_, ?_⟩
  · rw [directorySizeAt, hlen.numberAt_u32,
      UInt32.toNat_ofNat_of_lt' (by simp only [UInt32.size]; omega)]
  · rw [directoryStartAt, hoff.numberAt_u32,
      UInt32.toNat_ofNat_of_lt' (by simp only [UInt32.size]; omega)]
  · rw [hrest.numberAt_u16, UInt16.toNat_ofNat_of_lt' (by simp only [UInt16.size]; omega)]

end BrowserTrace
