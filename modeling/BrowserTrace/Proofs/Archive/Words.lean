import BrowserTrace.Archive.Words
import BrowserTrace.Proofs.Archive.Acceptance

/-!
# Machine words are wide enough

`Words.ofBytes` reads an archive in machine words.  When the archive is no longer than half of what
they can address, as every array is, it reads what `Archive.ofBytes` reads with exact numbers
(`Words.ofBytes_words_exact`): no unchecked sum is too large, and every byte and slice that has to be
in bounds is.

Each reader is shown to be the exact one at words that stand for positions in the archive.  Behind
such a position there is room for a few lengths of two bytes (`Words.Room`), and no more than that is
added to it before the sum is compared with the length of the archive.  A size of four bytes may be
too large to be added; those sums are checked.  That a word stands for a position is known from what
was checked before: the record for the directory, the end of a header for the next one
(`Words.readEntries_eq`), and the fixed part of a local header for the data behind it.
-/

namespace BrowserTrace.Words

open Bytes Grammar

variable {w : Nat} {b : ByteArray} {o : Overflow} {m n pos : Nat}

theorem ok_bind {α β : Type} (x : α) (f : α → Run β) : (Except.ok x >>= f) = f x := rfl

/-! ## Sums and slices -/

theorem toNat_ofNat_of_lt (h : n < 2 ^ w) : (BitVec.ofNat w n).toNat = n := by
  rw [BitVec.toNat_ofNat, Nat.mod_eq_of_lt h]

theorem uaddOverflow_ofNat (hm : m < 2 ^ w) (hn : n < 2 ^ w) :
    (BitVec.ofNat w m).uaddOverflow (.ofNat w n) = decide (2 ^ w ≤ m + n) := by
  rw [BitVec.uaddOverflow, toNat_ofNat_of_lt hm, toNat_ofNat_of_lt hn]

/-- A sum that is small enough is the exact one, whatever becomes of larger ones, and the run goes on
with it. -/
theorem add_bind {α : Type} (o : Overflow) (h : m + n < 2 ^ w) (f : BitVec w → Run α) :
    (add o (BitVec.ofNat w m) (.ofNat w n) >>= f) = f (.ofNat w (m + n)) := by
  rw [add, uaddOverflow_ofNat (by omega) (by omega), if_neg (by simpa using fun _ ↦ h), ok_bind,
    BitVec.ofNat_add]

theorem checkedAdd?_ofNat (hm : m < 2 ^ w) (hn : n < 2 ^ w) :
    checkedAdd? (BitVec.ofNat w m) (.ofNat w n) =
      if m + n < 2 ^ w then some (.ofNat w (m + n)) else none := by
  rw [checkedAdd?, uaddOverflow_ofNat hm hn, BitVec.ofNat_add]
  by_cases h : m + n < 2 ^ w
  · rw [if_pos h, if_neg (by simpa using h)]
  · rw [if_neg h, if_pos (by simpa using h)]

theorem length_lt_ofNat (hb : b.size < 2 ^ w) (hn : n < 2 ^ w) :
    length w b < .ofNat w n ↔ b.size < n := by
  rw [BitVec.lt_def, length, toNat_ofNat_of_lt hb, toNat_ofNat_of_lt hn]

/-- A checked end of some bytes is there when it is in bounds. -/
theorem filter_checkedAdd?_ofNat (hb : b.size < 2 ^ w) (hm : m < 2 ^ w) (hn : n < 2 ^ w) :
    (checkedAdd? (BitVec.ofNat w m) (.ofNat w n)).filter (· ≤ length w b) =
      if m + n ≤ b.size then some (.ofNat w (m + n)) else none := by
  rw [checkedAdd?_ofNat hm hn]
  by_cases h : m + n < 2 ^ w
  · rw [if_pos h, Option.filter_some]
    simp only [length, BitVec.le_def, toNat_ofNat_of_lt hb, toNat_ofNat_of_lt h, decide_eq_true_eq]
  · rw [if_neg h, if_neg (by omega)]
    rfl

theorem slice?_ofNat (hb : b.size < 2 ^ w) (hm : m < 2 ^ w) (hn : n < 2 ^ w) :
    slice? b (BitVec.ofNat w m) (.ofNat w n) =
      if m ≤ n ∧ n ≤ b.size then some (b.extract m n) else none := by
  simp only [slice?, length, BitVec.le_def, toNat_ofNat_of_lt hb, toNat_ofNat_of_lt hm,
    toNat_ofNat_of_lt hn]

theorem slice_ofNat (hb : b.size < 2 ^ w) (h : m + n ≤ b.size) :
    slice b (BitVec.ofNat w m) (.ofNat w (m + n)) = .ok (b.extract m (m + n)) := by
  rw [slice, slice?_ofNat hb (by omega) (by omega), if_pos ⟨Nat.le_add_right m n, h⟩]

theorem sliceFrom?_ofNat (hb : b.size < 2 ^ w) (hm : m < 2 ^ w) (hn : n < 2 ^ w) :
    sliceFrom? b (BitVec.ofNat w m) (.ofNat w n) =
      if m + n ≤ b.size then some (b.extract m (m + n)) else none := by
  rw [sliceFrom?, checkedAdd?_ofNat hm hn]
  by_cases h : m + n < 2 ^ w
  · rw [if_pos h, Option.bind_some, slice?_ofNat hb hm h]
    simp only [Nat.le_add_right, true_and]
  · rw [if_neg h, if_neg (by omega)]
    rfl

theorem byte_extract {i : Nat} (hi : i < n) (hn : m + n ≤ b.size) :
    byte (b.extract m (m + n)) i = .ok b[m + i] := by
  rw [byte, dif_pos (by rwa [size_extract_add hn]), ByteArray.getElem_extract]

/-! ## Fields -/

theorem u16At?_ofNat (hw : 2 < 2 ^ w) (hb : b.size < 2 ^ w) (hpos : pos < 2 ^ w) :
    u16At? b (BitVec.ofNat w pos) = .ok (Bytes.u16At? b pos) := by
  rw [u16At?, sliceFrom?_ofNat hb hpos hw, Bytes.u16At?]
  by_cases h : pos + 2 ≤ b.size
  · rw [if_pos h, dif_pos h]
    dsimp only
    rw [byte_extract (by decide) h, byte_extract (by decide) h]
    rfl
  · rw [if_neg h, dif_neg h]
    rfl

theorem u32At?_ofNat (hw : 4 < 2 ^ w) (hb : b.size < 2 ^ w) (hpos : pos < 2 ^ w) :
    u32At? b (BitVec.ofNat w pos) = .ok (Bytes.u32At? b pos) := by
  rw [u32At?, sliceFrom?_ofNat hb hpos hw, Bytes.u32At?]
  by_cases h : pos + 4 ≤ b.size
  · rw [if_pos h, dif_pos h]
    dsimp only
    rw [byte_extract (by decide) h, byte_extract (by decide) h, byte_extract (by decide) h,
      byte_extract (by decide) h]
    rfl
  · rw [if_neg h, dif_neg h]
    rfl

section

variable {i : Nat}

/-- The field of a record is the one at its place in the array that the record was cut out of. -/
theorem field16_extract (hb : b.size < 2 ^ w) (hi : i + 2 ≤ n) (hn : m + n ≤ b.size) :
    field16 w (b.extract m (m + n)) i = .ok (.ofNat (numberAt b (m + i) 2)) := by
  have hsize := size_extract_add hn
  rw [field16, u16At?_ofNat (by omega) (by omega) (by omega), Bytes.u16At?_of_le (by omega),
    numberAt_extract hi]
  rfl

theorem field32_extract (hb : b.size < 2 ^ w) (hi : i + 4 ≤ n) (hn : m + n ≤ b.size) :
    field32 w (b.extract m (m + n)) i = .ok (.ofNat (numberAt b (m + i) 4)) := by
  have hsize := size_extract_add hn
  rw [field32, u32At?_ofNat (by omega) (by omega) (by omega), Bytes.u32At?_of_le (by omega),
    numberAt_extract hi]
  rfl

end

theorem endRecordOf_extract (hb : b.size < 2 ^ w) (hpos : pos + 22 ≤ b.size) :
    endRecordOf w (b.extract pos (pos + 22)) = .ok (EndRecord.valueAt b pos) := by
  rw [endRecordOf]
  simp (disch := omega) only [field16_extract, field32_extract, ok_bind]
  rfl

theorem localHeaderOf_extract (hb : b.size < 2 ^ w) (hpos : pos + 30 ≤ b.size) :
    localHeaderOf w (b.extract pos (pos + 30)) = .ok (LocalHeader.valueAt b pos) := by
  rw [localHeaderOf]
  simp (disch := omega) only [field16_extract, field32_extract, ok_bind]
  rfl

theorem headerOf_extract (hb : b.size < 2 ^ w) (hpos : pos + 46 ≤ b.size) :
    headerOf w (b.extract pos (pos + 46)) = .ok (DirectoryHeader.valueAt b pos) := by
  rw [headerOf]
  simp (disch := omega) only [field16_extract, field32_extract, ok_bind]
  rfl

/-! ## Room -/

/-- The words have room for all fields of four bytes, and for an array with all that the readers add
to a position in it. -/
structure Room (w : Nat) (b : ByteArray) : Prop where
  fields : 2 ^ 32 ≤ 2 ^ w
  positions : b.size + 2 ^ 31 ≤ 2 ^ w
  size_lt : b.size < 2 ^ 63

theorem Room.size_lt_two_pow (h : Room w b) : b.size < 2 ^ w :=
  Nat.lt_of_lt_of_le (Nat.lt_add_of_pos_right (by decide)) h.positions

theorem room_of_size_le (hw : w = 32 ∨ w = 64) (hb : b.size ≤ 2 ^ (w - 1) - 1) : Room w b := by
  rcases hw with rfl | rfl
  · exact ⟨by decide, by omega, by omega⟩
  · exact ⟨by decide, by omega, by omega⟩

/-! ## The end record -/

theorem recordAt?_ofNat (h : Room w b) (hpos : pos + 22 ≤ b.size) :
    recordAt? o b (BitVec.ofNat w pos) = .ok (EndRecord.at? b pos) := by
  have hsize := h.size_lt_two_pow
  have hpositions := h.positions
  have hlength : EndRecord.fixedLength = 22 := rfl
  have hcomment := numberAt_lt b (pos + 20) 2
  have hsignature : some (UInt32.ofNat (numberAt b pos 4)) ≠ some EndRecord.signature ↔
      ¬ numberAt b pos 4 = 0x06054b50 := by
    rw [ne_eq, Option.some_inj, ← UInt32.toNat_inj, toNat_ofNat_numberAt_four]
    rfl
  rw [recordAt?, u32At?_ofNat (by omega) hsize (by omega), ok_bind,
    Bytes.u32At?_of_le (by omega), EndRecord.at?_eq_ite, hlength]
  simp only [hsignature]
  by_cases hsig : numberAt b pos 4 = 0x06054b50
  case neg =>
    rw [if_pos hsig, if_neg fun hc ↦ hsig hc.1]
    rfl
  rw [if_neg (not_not_intro hsig), add_bind o (by omega),
    u16At?_ofNat (by omega) hsize (by omega), ok_bind, Bytes.u16At?_of_le (by omega)]
  dsimp only
  rw [add_bind o (m := pos) (n := 22) (by omega), toNat_ofNat_numberAt_two, add_bind o (by omega)]
  simp only [length_lt_ofNat hsize
    (show pos + 22 + numberAt b (pos + 20) 2 < 2 ^ w by omega)]
  by_cases hfits : pos + 22 + numberAt b (pos + 20) 2 ≤ b.size
  case neg =>
    rw [if_pos (by omega), if_neg fun hc ↦ hfits hc.2]
    rfl
  rw [if_neg (by omega), if_pos ⟨hsig, hfits⟩, add_bind o (by omega), slice_ofNat hsize hpos,
    ok_bind, endRecordOf_extract hsize hpos]
  rfl

/-- A record that was found, once it has passed its check. -/
def checked (archiveLength : Nat) : Option EndRecord → Except ArchiveError EndRecord
  | none => .error .missingEndRecord
  | some r => (r.check archiveLength).map fun _ ↦ r

/-- The offset and the size of a directory are both of four bytes, so 64 bits are enough for its
end. -/
theorem checkRecord_length (h : Room w b) (r : EndRecord) :
    checkRecord o r (length w b) = (r.check b.size).mapError .rejected := by
  have hoffset := r.directoryOffset.toNat_lt
  have hsize := r.directorySize.toNat_lt
  have hlength : ((length w b).setWidth 64).toNat = b.size := by
    have hb := h.size_lt
    rw [BitVec.toNat_setWidth, length, toNat_ofNat_of_lt h.size_lt_two_pow,
      Nat.mod_eq_of_lt (by omega)]
  have hlt : (length w b).setWidth 64 <
      BitVec.ofNat 64 (r.directoryOffset.toNat + r.directorySize.toNat) ↔
        b.size < r.directoryEnd := by
    rw [BitVec.lt_def, hlength, toNat_ofNat_of_lt (by omega)]
    rfl
  rw [checkRecord, EndRecord.check, add_bind o (by omega)]
  simp only [hlt, hlength]
  split
  · rfl
  split
  · rfl
  split
  · rfl
  · rfl

/-- The search goes through positions where a record fits. -/
theorem lastRecord_ofNat (h : Room w b) {first count : Nat} (hlast : first + count ≤ b.size - 21) :
    lastRecord o b (BitVec.ofNat w first) count =
      (checked b.size (EndRecord.lastFrom? b first count)).mapError .rejected := by
  have hsize := h.size_lt_two_pow
  induction count with
  | zero => rfl
  | succ count ih =>
    rw [lastRecord, toNat_ofNat_of_lt (by omega), recordAt?_ofNat h (by omega), ok_bind,
      EndRecord.lastFrom?]
    cases EndRecord.at? b (first + count) with
    | none => exact ih (by omega)
    | some r =>
      dsimp only
      rw [checkRecord_length h, checked]
      cases r.check b.size with
      | error e => rfl
      | ok u => rfl

theorem checkedSub?_length (h : Room w b) (hn : n < 2 ^ 32) :
    checkedSub? (length w b) (.ofNat w n) =
      if b.size < n then none else some (.ofNat w (b.size - n)) := by
  have hn := Nat.lt_of_lt_of_le hn h.fields
  simp only [checkedSub?, length_lt_ofNat h.size_lt_two_pow hn]
  split
  · rfl
  · next hle => rw [length, BitVec.ofNat_sub_ofNat_of_le _ _ hn (Nat.not_lt.mp hle)]

theorem findRecord_eq (h : Room w b) :
    findRecord o w b = (checked b.size (EndRecord.find? b)).mapError .rejected := by
  have hsize := h.size_lt_two_pow
  have hlength : EndRecord.fixedLength = 22 := rfl
  have hstart : EndRecord.firstStart b = b.size - 65557 := rfl
  have hfirst : saturatingSub (length w b) (.ofNat w EndRecord.maxLength) =
      .ofNat w (EndRecord.firstStart b) := by
    rw [saturatingSub, checkedSub?_length h (by decide), EndRecord.firstStart]
    split
    · next hlt =>
      rw [Nat.sub_eq_zero_of_le (Nat.le_of_lt hlt)]
      rfl
    · rfl
  rw [findRecord, checkedSub?_length h (by decide), hfirst, EndRecord.find?, hlength]
  by_cases hshort : b.size < 22
  · rw [if_pos hshort, if_pos hshort]
    rfl
  · rw [if_neg hshort, if_neg hshort]
    dsimp only
    rw [toNat_ofNat_of_lt (by omega), toNat_ofNat_of_lt (by omega), lastRecord_ofNat h (by omega)]

/-! ## Entries -/

/-- The data of an entry begin in the same place, and their end is a word. -/
theorem dataRange_eq (h : Room w b) (name : String) (localOffset compressedSize : UInt32) :
    dataRange (w := w) o b name localOffset compressedSize =
      ((dataStart b name localOffset compressedSize).map fun start ↦
        (.ofNat w start, .ofNat w (start + compressedSize.toNat))).mapError .rejected := by
  have hsize := h.size_lt_two_pow
  have hpositions := h.positions
  have hfields := h.fields
  have hoffset := localOffset.toNat_lt
  have hcompressed := compressedSize.toNat_lt
  have hlength : LocalHeader.fixedLength = 30 := rfl
  rw [dataRange, dataStart, hlength, sliceFrom?_ofNat hsize (by omega) (by omega),
    LocalHeader.at?_eq]
  by_cases hfits : localOffset.toNat + 30 ≤ b.size
  case neg =>
    rw [if_neg hfits, if_neg hfits]
    rfl
  rw [if_pos hfits, if_pos hfits]
  dsimp only
  rw [localHeaderOf_extract hsize hfits, ok_bind]
  generalize LocalHeader.valueAt b localOffset.toNat = header
  have hname := header.nameLength.toNat_lt
  have hextra := header.extraLength.toNat_lt
  have hstart : localOffset.toNat + 30 + header.nameLength.toNat + header.extraLength.toNat =
      localOffset.toNat + header.length := by
    rw [LocalHeader.length, hlength]
    omega
  rw [add_bind o (by omega), add_bind o (by omega), add_bind o (by omega), hstart,
    filter_checkedAdd?_ofNat hsize (by omega) (by omega)]
  split
  · rfl
  by_cases hdata : localOffset.toNat + header.length + compressedSize.toNat ≤ b.size
  · simp only [if_pos hdata]
    rfl
  · simp only [if_neg hdata]
    rfl

section Directory

variable {start size : Nat} {header : DirectoryHeader}

/-- The directory is a slice, so positions in it are counted from its start. -/
theorem nameAt_extract (h : Room w b) (hdirectory : start + size ≤ b.size) (hpos : pos ≤ size) :
    nameAt o (b.extract start (start + size)) (BitVec.ofNat w pos) header =
      if start + size < start + pos + 46 + header.nameLength.toNat then
        reject (.truncated .directoryName)
      else
        .ok (Text.decodeLossy (b.extract (start + pos + 46)
          (start + pos + 46 + header.nameLength.toNat)),
          .ofNat w (pos + 46 + header.nameLength.toNat)) := by
  have hpositions := h.positions
  have hname := header.nameLength.toNat_lt
  have hsize := size_extract_add hdirectory
  rw [nameAt, show DirectoryHeader.fixedLength = 46 from rfl, add_bind o (by omega),
    add_bind o (by omega), slice?_ofNat (by omega) (by omega) (by omega), hsize]
  by_cases hfits : pos + 46 + header.nameLength.toNat ≤ size
  · rw [if_pos ⟨Nat.le_add_right _ _, hfits⟩, if_neg (by omega), extract_extract_add hfits]
    simp only [Nat.add_assoc]
    rfl
  · rw [if_neg fun hc ↦ hfits hc.2, if_pos (by omega)]

theorem headerEnd_extract (h : Room w b) (hdirectory : start + size ≤ b.size)
    (hname : pos + 46 + header.nameLength.toNat ≤ size) :
    headerEnd o (b.extract start (start + size))
        (BitVec.ofNat w (pos + 46 + header.nameLength.toNat)) header =
      if start + size < start + pos + header.length then
        reject (.truncated .directoryExtra)
      else
        .ok (.ofNat w (pos + header.length)) := by
  have hpositions := h.positions
  have hextra := header.extraLength.toNat_lt
  have hcomment := header.commentLength.toNat_lt
  have hsize := size_extract_add hdirectory
  have hend : pos + 46 + header.nameLength.toNat + header.extraLength.toNat +
      header.commentLength.toNat = pos + header.length := by
    rw [DirectoryHeader.length, show DirectoryHeader.fixedLength = 46 from rfl]
    omega
  rw [headerEnd, add_bind o (by omega), add_bind o (by omega), hend]
  simp only [length_lt_ofNat (show (b.extract start (start + size)).size < 2 ^ w by omega)
    (show pos + header.length < 2 ^ w by omega), hsize, Nat.add_assoc, Nat.add_lt_add_iff_left]
  rfl

theorem readEntry_eq (h : Room w b) (hdirectory : start + size ≤ b.size) (hpos : pos ≤ size) :
    readEntry o b (b.extract start (start + size)) (BitVec.ofNat w start) (.ofNat w pos) =
      ((BrowserTrace.readEntry b (start + size) (start + pos)).map fun (e, next) ↦
        (e, .ofNat w (next - start))).mapError .rejected := by
  have hsize := h.size_lt_two_pow
  have hpositions := h.positions
  have hlength : DirectoryHeader.fixedLength = 46 := rfl
  have hdirectorySize := size_extract_add hdirectory
  rw [readEntry, BrowserTrace.readEntry, hlength, add_bind o (by omega),
    slice?_ofNat (by omega) (by omega) (by omega), hdirectorySize]
  by_cases hfits : pos + 46 ≤ size
  case neg =>
    rw [if_neg fun hc ↦ hfits hc.2, if_pos (by omega)]
    rfl
  rw [if_pos ⟨Nat.le_add_right _ _, hfits⟩, if_neg (by omega), extract_extract_add hfits]
  dsimp only
  rw [← Nat.add_assoc, headerOf_extract hsize (by omega), ok_bind,
    DirectoryHeader.at?_of_le (by omega)]
  generalize DirectoryHeader.valueAt b (start + pos) = header
  dsimp only
  by_cases hsignature : header.signature = DirectoryHeader.goodSignature
  case neg =>
    rw [if_pos hsignature, if_pos hsignature, add_bind o (by omega),
      toNat_ofNat_of_lt (by omega)]
    rfl
  rw [if_neg (not_not_intro hsignature), if_neg (not_not_intro hsignature)]
  by_cases hzip64 : header.needsZip64 = true
  case pos =>
    rw [if_pos hzip64, if_pos hzip64]
    rfl
  rw [if_neg hzip64, if_neg hzip64, nameAt_extract h hdirectory hpos]
  split
  · rfl
  next hname =>
  rw [ok_bind]
  dsimp only
  rw [headerEnd_extract h hdirectory (by omega)]
  split
  · rfl
  rw [ok_bind, dataRange_eq h]
  cases hstart : dataStart b _ header.localOffset header.compressedSize with
  | error e => rfl
  | ok dataStart =>
    have hdata := (dataStart_eq_ok_iff.mp hstart).2.1
    have hword : (BitVec.ofNat w dataStart).toNat = dataStart := toNat_ofNat_of_lt (by omega)
    simp only [Except.map, Except.mapError, ok_bind, hword, Nat.add_assoc,
      Nat.add_sub_cancel_left]
    rfl

/-- The walk along the directory.  A header that has been read ends in the directory, so that its end
is a position in it again. -/
theorem readEntries_eq (h : Room w b) (hdirectory : start + size ≤ b.size) (hpos : pos ≤ size)
    (count : Nat) (acc : List Entry) :
    readEntries o b (b.extract start (start + size)) (BitVec.ofNat w start) count (.ofNat w pos)
        acc =
      (BrowserTrace.readEntries b (start + size) count (start + pos) acc).mapError .rejected := by
  induction count generalizing pos acc with
  | zero => rfl
  | succ count ih =>
    rw [readEntries, BrowserTrace.readEntries, readEntry_eq h hdirectory hpos]
    cases hread : BrowserTrace.readEntry b (start + size) (start + pos) with
    | error e => rfl
    | ok result =>
      obtain ⟨e, next⟩ := result
      obtain ⟨hgood, -, rfl⟩ := (readEntry_eq_ok_iff hdirectory).mp hread
      have hfits := hgood.fits
      have hforward : start + pos ≤ nextHeader b (start + pos) := by
        unfold nextHeader
        omega
      have hnext : nextHeader b (start + pos) - start ≤ size := by omega
      have hrest := ih hnext (e :: acc)
      rw [Nat.add_sub_cancel' (by omega)] at hrest
      exact hrest

end Directory

/-! ## Archives -/

theorem ofBytes_eq (h : Room w b) (o : Overflow) (limits : ArchiveLimits) :
    ofBytes o w b limits = (Archive.ofBytes b limits).mapError .rejected := by
  have hsize := h.size_lt_two_pow
  rw [ofBytes, Archive.ofBytes, findRecord_eq h]
  cases EndRecord.find? b with
  | none => rfl
  | some r =>
    dsimp only [checked]
    cases hcheck : r.check b.size with
    | error e => rfl
    | ok u =>
      have hdirectory : r.directoryOffset.toNat + r.directorySize.toNat ≤ b.size :=
        (EndRecord.check_eq_ok_iff.mp hcheck).2.2
      have hread := readEntries_eq (o := o) h hdirectory (Nat.zero_le _) r.entryCount.toNat []
      simp only [Except.map, Except.mapError, ok_bind]
      rw [add_bind o (by omega), slice_ofNat hsize hdirectory, ok_bind,
        show (0 : BitVec w) = .ofNat w 0 from rfl, hread, Nat.add_zero, EndRecord.directoryEnd,
        EndRecord.directoryStart]
      cases BrowserTrace.readEntries b (r.directoryOffset.toNat + r.directorySize.toNat)
        r.entryCount.toNat r.directoryOffset.toNat [] with
      | error e => rfl
      | ok es => rfl

/-- **Reading an archive is exact in machine words.**  Let words have 32 or 64 bits, and let an archive
be at most as long as half of what they can address.  Then reading it in words gives just what exact
numbers give, an archive or the reason why it is rejected, both where a sum that is too large stops
the run and where it is cut.  So no run has such a sum, and none has a byte or a slice out of
bounds. -/
theorem ofBytes_words_exact (w : Nat) (b : ByteArray) (limits : ArchiveLimits)
    (hw : w = 32 ∨ w = 64) (hb : b.size ≤ 2 ^ (w - 1) - 1) (o : Overflow) :
    ofBytes o w b limits = (Archive.ofBytes b limits).mapError .rejected ∧
      ofBytes o w b limits ≠ .error .overflow ∧ ofBytes o w b limits ≠ .error .outOfBounds := by
  have hexact := ofBytes_eq (room_of_size_le hw hb) o limits
  rw [hexact]
  cases Archive.ofBytes b limits with
  | error e => exact ⟨rfl, nofun, nofun⟩
  | ok a => exact ⟨rfl, nofun, nofun⟩

/-- An archive of one entry is read in words of 32 bits. -/
theorem ofBytes_words_exact_singleEntry :
    Archive.singleEntry.size ≤ 2 ^ (32 - 1) - 1 ∧
      ∀ o, ∃ a, ofBytes o 32 Archive.singleEntry {} = .ok a ∧ a.entries.length = 1 := by
  have hsize : Archive.singleEntry.size ≤ 2 ^ (32 - 1) - 1 := by decide +kernel
  refine ⟨hsize, fun o ↦ ⟨_, (ofBytes_words_exact 32 _ {} (.inl rfl) hsize o).1, rfl⟩⟩

end BrowserTrace.Words
