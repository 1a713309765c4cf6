import BrowserTrace.Proofs.Archive.Grammar

/-!
# The readers accept the container grammar

Each reader of `Archive.ofBytes` agrees with the condition of the grammar that it checks: the search
for the end record with the greatest candidate (`EndRecord.find?_eq_some_iff`), the check of the
record with `GoodRecord`, and the walk along the directory with the chain of good headers
(`readEntries_eq_ok_iff`).  `Archive.ofBytes_eq_ok_iff` puts them together: an archive is read if
and only if there is a greatest candidate with a good directory.
-/

namespace BrowserTrace

open Bytes Grammar

/-! ## The end record -/

namespace EndRecord

/-- The record whose fields are those at `p`. -/
def valueAt (b : ByteArray) (p : Nat) : EndRecord where
  disk := UInt16.ofNat (numberAt b (p + 4) 2)
  directoryDisk := UInt16.ofNat (numberAt b (p + 6) 2)
  entriesOnDisk := UInt16.ofNat (numberAt b (p + 8) 2)
  entryCount := UInt16.ofNat (entryCountAt b p)
  directorySize := UInt32.ofNat (directorySizeAt b p)
  directoryOffset := UInt32.ofNat (directoryStartAt b p)

@[simp] theorem toNat_entryCount_valueAt (b : ByteArray) (p : Nat) :
    (valueAt b p).entryCount.toNat = entryCountAt b p := toNat_ofNat_numberAt_two b _

@[simp] theorem directoryStart_valueAt (b : ByteArray) (p : Nat) :
    (valueAt b p).directoryStart = directoryStartAt b p := toNat_ofNat_numberAt_four b _

@[simp] theorem directoryEnd_valueAt (b : ByteArray) (p : Nat) :
    (valueAt b p).directoryEnd = directoryEndAt b p :=
  congrArg₂ (· + ·) (toNat_ofNat_numberAt_four b _) (toNat_ofNat_numberAt_four b _)

/-- A record is read where there is one, whatever the distance to the end of the archive. -/
theorem at?_eq_some_iff {b : ByteArray} {p : Nat} {r : EndRecord} :
    at? b p = some r ↔ (p + 22 + numberAt b (p + 20) 2 ≤ b.size ∧
      numberAt b p 4 = 0x06054b50) ∧ r = valueAt b p := by
  by_cases hp : p + 22 ≤ b.size
  · simp only [at?, u32At?_of_le (show p + 4 ≤ b.size by omega),
      u16At?_of_le (show p + 20 + 2 ≤ b.size by omega),
      u16At?_of_le (show p + 4 + 2 ≤ b.size by omega),
      u16At?_of_le (show p + 6 + 2 ≤ b.size by omega),
      u16At?_of_le (show p + 8 + 2 ≤ b.size by omega),
      u16At?_of_le (show p + 10 + 2 ≤ b.size by omega),
      u32At?_of_le (show p + 12 + 4 ≤ b.size by omega),
      u32At?_of_le (show p + 16 + 4 ≤ b.size by omega), Option.bind_eq_bind, Option.bind_some]
    split
    · next h =>
      rw [← UInt32.toNat_inj, toNat_ofNat_numberAt_four, toNat_ofNat_numberAt_two] at h
      rw [Option.some_inj, and_iff_right ⟨h.2, h.1⟩]
      exact eq_comm
    · next h =>
      rw [← UInt32.toNat_inj, toNat_ofNat_numberAt_four, toNat_ofNat_numberAt_two] at h
      exact ⟨nofun, fun hr ↦ absurd ⟨hr.1.2, hr.1.1⟩ h⟩
  · have hn : u16At? b (p + 20) = none := u16At?_of_lt (by omega)
    refine ⟨fun h ↦ ?_, fun h ↦ absurd h.1.1 (by omega)⟩
    simp [at?, hn] at h

/-- The record at a position, told from the numbers there. -/
theorem at?_eq_ite (b : ByteArray) (p : Nat) :
    at? b p = if numberAt b p 4 = 0x06054b50 ∧ p + 22 + numberAt b (p + 20) 2 ≤ b.size then
      some (valueAt b p) else none := by
  split
  · next h => exact at?_eq_some_iff.mpr ⟨h.symm, rfl⟩
  · next h =>
    rw [Option.eq_none_iff_forall_ne_some]
    exact fun r hr ↦ h (at?_eq_some_iff.mp hr).1.symm

/-- The backwards search finds the last record among the positions it tries. -/
theorem lastFrom?_eq_some_iff {b : ByteArray} {first count : Nat} {r : EndRecord} :
    lastFrom? b first count = some r ↔
      ∃ p, (first ≤ p ∧ p < first + count) ∧ at? b p = some r ∧
        ∀ q, p < q → q < first + count → at? b q = none := by
  induction count with
  | zero => exact ⟨nofun, fun ⟨p, hp, _⟩ ↦ absurd hp (by omega)⟩
  | succ count ih =>
    rw [lastFrom?]
    cases h : at? b (first + count) with
    | some last =>
      constructor
      · intro hr
        exact ⟨first + count, by omega, h.trans hr, fun q hq hq' ↦ absurd hq (by omega)⟩
      · rintro ⟨p, hp, hr, hlast⟩
        rcases Nat.lt_or_ge p (first + count) with hlt | hge
        · exact absurd (hlast _ hlt (by omega)) (by simp [h])
        · rwa [show p = first + count by omega, h] at hr
    | none =>
      refine ih.trans ⟨?_, ?_⟩
      · rintro ⟨p, hp, hr, hlast⟩
        refine ⟨p, by omega, hr, fun q hpq hq ↦ ?_⟩
        rcases Nat.lt_or_ge q (first + count) with hlt | hge
        · exact hlast q hpq hlt
        · rwa [show q = first + count by omega]
      · rintro ⟨p, hp, hr, hlast⟩
        have hne : p ≠ first + count := fun he ↦ by simp [← he, hr] at h
        exact ⟨p, by omega, hr, fun q hpq hq ↦ hlast q hpq (by omega)⟩

theorem isCandidate_iff {b : ByteArray} {p : Nat} :
    IsCandidate b p ↔ (b.size - 65557 ≤ p ∧ p + 22 ≤ b.size) ∧
      p + 22 + numberAt b (p + 20) 2 ≤ b.size ∧ numberAt b p 4 = 0x06054b50 :=
  ⟨fun h ↦ ⟨⟨h.reach, h.fits⟩, h.comment_fits, h.signature⟩,
    fun h ↦ ⟨h.1.1, h.1.2, h.2.2, h.2.1⟩⟩

/-- Within reach of the end, no record is read exactly where there is no candidate. -/
theorem at?_eq_none_iff {b : ByteArray} {p : Nat} (h : b.size - 65557 ≤ p ∧ p + 22 ≤ b.size) :
    at? b p = none ↔ ¬ IsCandidate b p := by
  rw [Option.eq_none_iff_forall_not_mem, isCandidate_iff, and_iff_right h]
  exact ⟨fun hn hc ↦ hn _ (at?_eq_some_iff.mpr ⟨hc, rfl⟩),
    fun hn r hr ↦ hn (at?_eq_some_iff.mp hr).1⟩

/-- The positions that the search tries. -/
theorem mem_window_iff {b : ByteArray} (h : ¬ b.size < fixedLength) (p : Nat) :
    (firstStart b ≤ p ∧ p < firstStart b + (b.size - fixedLength + 1 - firstStart b)) ↔
      b.size - 65557 ≤ p ∧ p + 22 ≤ b.size := by
  have hf : fixedLength = 22 := rfl
  have hs : firstStart b = b.size - 65557 := rfl
  rw [hf] at h
  rw [hs, hf]
  omega

/-- The record that is found stands at the greatest candidate. -/
theorem find?_eq_some_iff {b : ByteArray} {r : EndRecord} :
    find? b = some r ↔ ∃ p, IsGreatest {q | IsCandidate b q} p ∧ r = valueAt b p := by
  rw [find?]
  split
  · next hlt =>
    have hlt : b.size < 22 := hlt
    exact ⟨nofun, fun ⟨p, hp, _⟩ ↦ absurd hp.1.fits (by omega)⟩
  · next hge =>
    rw [lastFrom?_eq_some_iff]
    refine exists_congr fun p ↦ ?_
    rw [mem_window_iff hge]
    constructor
    · rintro ⟨hp, hr, hlast⟩
      obtain ⟨hc, rfl⟩ := at?_eq_some_iff.mp hr
      refine ⟨⟨isCandidate_iff.mpr ⟨hp, hc⟩, fun q hq ↦ ?_⟩, rfl⟩
      by_contra hlt
      have hw := (isCandidate_iff.mp hq).1
      have hn := hlast q (by omega) ((mem_window_iff hge q).mpr hw).2
      exact (at?_eq_none_iff hw).mp hn hq
    · rintro ⟨hp, rfl⟩
      obtain ⟨hw, hc⟩ := isCandidate_iff.mp hp.1
      refine ⟨hw, at?_eq_some_iff.mpr ⟨hc, rfl⟩, fun q hpq hq ↦ ?_⟩
      have hwq := (mem_window_iff hge q).mp ⟨by have := (mem_window_iff hge p).mpr hw; omega, hq⟩
      exact (at?_eq_none_iff hwq).mpr fun hq' ↦ absurd (hp.2 hq') (by omega)

theorem check_eq_ok_iff {r : EndRecord} {length : Nat} :
    r.check length = .ok () ↔
      (r.disk = 0 ∧ r.directoryDisk = 0 ∧ r.entriesOnDisk = r.entryCount) ∧
      (r.entryCount ≠ 0xFFFF ∧ r.directorySize ≠ 0xFFFFFFFF ∧ r.directoryOffset ≠ 0xFFFFFFFF) ∧
      r.directoryEnd ≤ length := by
  unfold check
  split
  · next h => exact ⟨nofun, fun hr ↦ by simp [hr.1] at h⟩
  · next h₁ =>
    split
    · next h => exact ⟨nofun, fun hr ↦ by simp [hr.2.1] at h⟩
    · next h₂ =>
      split
      · next h => exact ⟨nofun, fun hr ↦ absurd hr.2.2 (by omega)⟩
      · next h₃ =>
        simp only [not_or, ne_eq, Decidable.not_not] at h₁ h₂
        exact ⟨fun _ ↦ ⟨h₁, h₂, by omega⟩, fun _ ↦ rfl⟩

/-- The record at `p` passes its check exactly when it is in order. -/
theorem check_valueAt_eq_ok_iff {b : ByteArray} {p : Nat} :
    (valueAt b p).check b.size = .ok () ↔ GoodRecord b p := by
  rw [check_eq_ok_iff, directoryEnd_valueAt]
  simp only [ne_eq, ← UInt16.toNat_inj, ← UInt32.toNat_inj, valueAt, entryCountAt,
    directorySizeAt, directoryStartAt, toNat_ofNat_numberAt_two, toNat_ofNat_numberAt_four]
  exact ⟨fun h ↦ ⟨h.1.1, h.1.2.1, h.1.2.2, h.2.1.1, h.2.1.2.1, h.2.1.2.2, h.2.2⟩,
    fun h ↦ ⟨⟨h.disk, h.directoryDisk, h.counts⟩, ⟨h.count_ne, h.size_ne, h.start_ne⟩,
      h.directory_fits⟩⟩

end EndRecord

/-! ## Headers and entries -/

namespace DirectoryHeader

/-- The header whose fields are those at `pos`. -/
def valueAt (b : ByteArray) (pos : Nat) : DirectoryHeader where
  signature := UInt32.ofNat (numberAt b pos 4)
  flags := UInt16.ofNat (numberAt b (pos + 8) 2)
  method := UInt16.ofNat (numberAt b (pos + 10) 2)
  compressedSize := UInt32.ofNat (compressedSizeAt b pos)
  uncompressedSize := UInt32.ofNat (uncompressedSizeAt b pos)
  nameLength := UInt16.ofNat (numberAt b (pos + 28) 2)
  extraLength := UInt16.ofNat (numberAt b (pos + 30) 2)
  commentLength := UInt16.ofNat (numberAt b (pos + 32) 2)
  localOffset := UInt32.ofNat (localOffsetAt b pos)

theorem at?_of_le {b : ByteArray} {pos : Nat} (h : pos + 46 ≤ b.size) :
    at? b pos = some (valueAt b pos) := by
  rw [at?, u32At?_of_le (by omega), u16At?_of_le (by omega), u16At?_of_le (by omega),
    u32At?_of_le (by omega), u32At?_of_le (by omega), u16At?_of_le (by omega),
    u16At?_of_le (by omega), u16At?_of_le (by omega), u32At?_of_le (by omega)]
  rfl

theorem signature_valueAt_eq_iff {b : ByteArray} {pos : Nat} :
    (valueAt b pos).signature = goodSignature ↔ numberAt b pos 4 = 0x02014b50 := by
  rw [← UInt32.toNat_inj, valueAt, toNat_ofNat_numberAt_four]
  rfl

theorem needsZip64_valueAt {b : ByteArray} {pos : Nat} :
    (valueAt b pos).needsZip64 = true ↔ compressedSizeAt b pos = 0xFFFFFFFF ∨
      uncompressedSizeAt b pos = 0xFFFFFFFF ∨ localOffsetAt b pos = 0xFFFFFFFF := by
  simp only [needsZip64, Bool.or_eq_true, beq_iff_eq, ← UInt32.toNat_inj, valueAt,
    compressedSizeAt, uncompressedSizeAt, localOffsetAt, toNat_ofNat_numberAt_four, or_assoc]
  rfl

theorem toNat_localOffset_valueAt (b : ByteArray) (pos : Nat) :
    (valueAt b pos).localOffset.toNat = localOffsetAt b pos := toNat_ofNat_numberAt_four b _

theorem toNat_compressedSize_valueAt (b : ByteArray) (pos : Nat) :
    (valueAt b pos).compressedSize.toNat = compressedSizeAt b pos := toNat_ofNat_numberAt_four b _

/-- The name ends behind the fixed part of the header. -/
theorem nameEnd_valueAt (b : ByteArray) (pos : Nat) :
    pos + fixedLength + (valueAt b pos).nameLength.toNat =
      pos + 46 + numberAt b (pos + 28) 2 := by
  rw [valueAt, toNat_ofNat_numberAt_two]
  rfl

/-- The next header begins where this one ends. -/
theorem add_length_valueAt (b : ByteArray) (pos : Nat) :
    pos + (valueAt b pos).length = nextHeader b pos := by
  have hf : fixedLength = 46 := rfl
  simp only [length, valueAt, toNat_ofNat_numberAt_two, nextHeader, hf]
  omega

end DirectoryHeader

namespace LocalHeader

/-- The local header whose fields are those at `pos`. -/
def valueAt (b : ByteArray) (pos : Nat) : LocalHeader where
  signature := UInt32.ofNat (numberAt b pos 4)
  nameLength := UInt16.ofNat (numberAt b (pos + 26) 2)
  extraLength := UInt16.ofNat (numberAt b (pos + 28) 2)

theorem at?_eq {b : ByteArray} {pos : Nat} :
    at? b pos = if pos + 30 ≤ b.size then some (valueAt b pos) else none := by
  split
  · next hp =>
    rw [at?, u32At?_of_le (by omega), u16At?_of_le (by omega), u16At?_of_le (by omega)]
    rfl
  · next hp =>
    have hn : u16At? b (pos + 28) = none := u16At?_of_lt (by omega)
    simp [at?, hn]

theorem signature_valueAt_eq_iff {b : ByteArray} {pos : Nat} :
    (valueAt b pos).signature = goodSignature ↔ numberAt b pos 4 = 0x04034b50 := by
  rw [← UInt32.toNat_inj, valueAt, toNat_ofNat_numberAt_four]
  rfl

theorem add_length_valueAt (b : ByteArray) (pos : Nat) :
    pos + (valueAt b pos).length =
      pos + 30 + numberAt b (pos + 26) 2 + numberAt b (pos + 28) 2 := by
  have hf : fixedLength = 30 := rfl
  simp only [length, valueAt, toNat_ofNat_numberAt_two, hf]
  omega

end LocalHeader

/-- The jump to the local header succeeds when the header is there and the data fit behind it. -/
theorem dataStart_eq_ok_iff {b : ByteArray} {name : String} {offset size : UInt32} {start : Nat} :
    dataStart b name offset size = .ok start ↔
      (offset.toNat + 30 ≤ b.size ∧ numberAt b offset.toNat 4 = 0x04034b50) ∧
      start + size.toNat ≤ b.size ∧ start = offset.toNat + 30 +
        numberAt b (offset.toNat + 26) 2 + numberAt b (offset.toNat + 28) 2 := by
  rw [← LocalHeader.add_length_valueAt, ← LocalHeader.signature_valueAt_eq_iff]
  unfold dataStart
  rw [LocalHeader.at?_eq]
  by_cases hfits : offset.toNat + 30 ≤ b.size
  · rw [if_pos hfits]
    by_cases hs : (LocalHeader.valueAt b offset.toNat).signature = LocalHeader.goodSignature
    · simp only [hs, ne_eq, not_true_eq_false, if_false]
      split
      · next hd =>
        rw [Except.ok.injEq]
        constructor
        · rintro rfl
          exact ⟨⟨hfits, trivial⟩, hd, rfl⟩
        · exact fun h ↦ h.2.2.symm
      · next hd => exact ⟨nofun, fun ⟨_, hd', he⟩ ↦ absurd (he ▸ hd') hd⟩
    · simp only [hs, ne_eq, not_false_eq_true, if_true]
      exact ⟨nofun, fun h ↦ absurd h.1.2 nofun⟩
  · rw [if_neg hfits]
    exact ⟨nofun, fun h ↦ absurd h.1.1 hfits⟩

/-- The same for the offset and the size that the header at `pos` gives. -/
theorem dataStart_valueAt_eq_ok_iff {b : ByteArray} {name : String} {pos start : Nat} :
    dataStart b name (DirectoryHeader.valueAt b pos).localOffset
        (DirectoryHeader.valueAt b pos).compressedSize = .ok start ↔
      (localOffsetAt b pos + 30 ≤ b.size ∧ numberAt b (localOffsetAt b pos) 4 = 0x04034b50) ∧
      start + compressedSizeAt b pos ≤ b.size ∧ start = dataStartAt b pos := by
  rw [dataStart_eq_ok_iff, DirectoryHeader.toNat_localOffset_valueAt,
    DirectoryHeader.toNat_compressedSize_valueAt]
  rfl

theorem ofNumber_eq_methodOf {n : Nat} (h : n < 65536) :
    Method.ofNumber (UInt16.ofNat n) = methodOf n := by
  have hn : (UInt16.ofNat n).toNat = n := UInt16.toNat_ofNat_of_lt' h
  unfold Method.ofNumber methodOf
  simp only [← UInt16.toNat_inj, hn]
  split
  · next h₀ =>
    obtain rfl : n = 0 := h₀
    rfl
  · next h₀ =>
    split
    · next h₈ =>
      obtain rfl : n = 8 := h₈
      rfl
    · next h₈ =>
      split
      · exact absurd rfl h₀
      · exact absurd rfl h₈
      · rfl

/-- The entry that is made of a header in order, once its data have been found. -/
theorem entryAt_eq (b : ByteArray) (pos : Nat) :
    entryAt b pos = {
      name := Text.decodeLossy (b.extract (pos + DirectoryHeader.fixedLength)
        (pos + DirectoryHeader.fixedLength + (DirectoryHeader.valueAt b pos).nameLength.toNat))
      flags := (DirectoryHeader.valueAt b pos).flags
      method := Method.ofNumber (DirectoryHeader.valueAt b pos).method
      compressedSize := (DirectoryHeader.valueAt b pos).compressedSize
      uncompressedSize := (DirectoryHeader.valueAt b pos).uncompressedSize
      localOffset := (DirectoryHeader.valueAt b pos).localOffset
      dataStart := dataStartAt b pos } := by
  rw [DirectoryHeader.nameEnd_valueAt, DirectoryHeader.valueAt,
    ofNumber_eq_methodOf (numberAt_lt b _ 2)]
  rfl

/-- A single entry is read exactly when its header is in order. -/
theorem readEntry_eq_ok_iff {b : ByteArray} {stop pos next : Nat} {e : Entry}
    (hstop : stop ≤ b.size) :
    readEntry b stop pos = .ok (e, next) ↔
      GoodHeader b stop pos ∧ e = entryAt b pos ∧ next = nextHeader b pos := by
  have hnext : pos + 46 + numberAt b (pos + 28) 2 ≤ nextHeader b pos := by
    unfold nextHeader
    omega
  unfold readEntry
  by_cases hfits : pos + 46 ≤ stop
  case neg =>
    rw [if_pos (show stop < pos + DirectoryHeader.fixedLength from Nat.not_le.mp hfits)]
    exact ⟨nofun, fun h ↦ absurd h.1.fits (by omega)⟩
  rw [if_neg (show ¬ stop < pos + DirectoryHeader.fixedLength from Nat.not_lt.mpr hfits),
    DirectoryHeader.at?_of_le (Nat.le_trans hfits hstop)]
  dsimp only
  rw [DirectoryHeader.add_length_valueAt, DirectoryHeader.nameEnd_valueAt]
  split
  · next hs =>
    rw [ne_eq, DirectoryHeader.signature_valueAt_eq_iff] at hs
    exact ⟨nofun, fun h ↦ absurd h.1.signature hs⟩
  next hs =>
  rw [ne_eq, DirectoryHeader.signature_valueAt_eq_iff, Decidable.not_not] at hs
  split
  · next hz =>
    refine ⟨nofun, fun h ↦ ?_⟩
    rcases DirectoryHeader.needsZip64_valueAt.mp hz with hz | hz | hz
    · exact absurd hz h.1.compressed_ne
    · exact absurd hz h.1.uncompressed_ne
    · exact absurd hz h.1.offset_ne
  next hz =>
  rw [DirectoryHeader.needsZip64_valueAt, not_or, not_or] at hz
  split
  · next hn => exact ⟨nofun, fun h ↦ absurd h.1.fits (by omega)⟩
  split
  · next hn => exact ⟨nofun, fun h ↦ absurd h.1.fits (by omega)⟩
  next hn =>
  rw [entryAt_eq, DirectoryHeader.nameEnd_valueAt]
  split
  · next he =>
    refine ⟨nofun, fun h ↦ ?_⟩
    rw [dataStart_valueAt_eq_ok_iff.mpr
      ⟨⟨h.1.local_fits, h.1.local_signature⟩, h.1.data_fits, rfl⟩] at he
    contradiction
  · next start hok =>
    obtain ⟨hlocal, hfit, rfl⟩ := dataStart_valueAt_eq_ok_iff.mp hok
    rw [Except.ok.injEq, Prod.mk.injEq]
    constructor
    · rintro ⟨rfl, rfl⟩
      exact ⟨⟨hs, Nat.not_lt.mp hn, hz.1, hz.2.1, hz.2.2, hlocal.1, hlocal.2, hfit⟩, rfl, rfl⟩
    · rintro ⟨-, rfl, rfl⟩
      exact ⟨rfl, rfl⟩

/-- Entries are read exactly when all headers of the chain are in order. -/
theorem readEntries_eq_ok_iff {b : ByteArray} {stop count pos : Nat} {acc es : List Entry}
    (hstop : stop ≤ b.size) :
    readEntries b stop count pos acc = .ok es ↔
      (∀ i < count, GoodHeader b stop ((nextHeader b)^[i] pos)) ∧
      es = acc.reverse ++ (List.range count).map fun i ↦ entryAt b ((nextHeader b)^[i] pos) := by
  induction count generalizing pos acc with
  | zero =>
    rw [readEntries, Except.ok.injEq]
    exact ⟨fun h ↦ ⟨nofun, by simp [h]⟩, fun h ↦ by simp [h.2]⟩
  | succ count ih =>
    have hall : (∀ i < count + 1, GoodHeader b stop ((nextHeader b)^[i] pos)) ↔
        GoodHeader b stop pos ∧
          ∀ i < count, GoodHeader b stop ((nextHeader b)^[i] (nextHeader b pos)) :=
      Nat.forall_lt_succ_left
    rw [readEntries, hall, List.range_succ_eq_map]
    cases h : readEntry b stop pos with
    | error e =>
      refine ⟨nofun, fun hg ↦ ?_⟩
      have hok := (readEntry_eq_ok_iff hstop).mpr ⟨hg.1.1, rfl, rfl⟩
      exact absurd (h.symm.trans hok) nofun
    | ok result =>
      obtain ⟨e, next⟩ := result
      obtain ⟨hg, rfl, rfl⟩ := (readEntry_eq_ok_iff hstop).mp h
      rw [ih, and_iff_right hg]
      simp [Function.comp_def]

theorem describes_entryAt (b : ByteArray) (pos : Nat) : Describes b pos (entryAt b pos) where
  name := by simp only [entryAt]
  flags := toNat_ofNat_numberAt_two b (pos + 8)
  method := rfl
  compressedSize := toNat_ofNat_numberAt_four b (pos + 20)
  uncompressedSize := toNat_ofNat_numberAt_four b (pos + 24)
  localOffset := toNat_ofNat_numberAt_four b (pos + 42)
  dataStart := rfl
  dataEnd := by
    rw [Entry.dataEnd, entryAt, compressedSizeAt, toNat_ofNat_numberAt_four]

@[simp] theorem length_entriesAt (b : ByteArray) (p : Nat) :
    (entriesAt b p).length = entryCountAt b p := by
  simp [entriesAt]

theorem getElem_entriesAt {b : ByteArray} {p i : Nat} (h : i < (entriesAt b p).length) :
    (entriesAt b p)[i] = entryAt b (headerAt b p i) := by
  simp [entriesAt]

/-! ## Whole archives -/

namespace Archive

/-- An archive is read exactly when the greatest candidate has a good directory, and then it is the
bytes with the entries of that directory. -/
theorem ofBytes_eq_ok_iff {b : ByteArray} {limits : ArchiveLimits} {a : Archive} :
    ofBytes b limits = .ok a ↔ ∃ p, IsGreatest {q | IsCandidate b q} p ∧ GoodDirectory b p ∧
      a = ⟨b, entriesAt b p, limits⟩ := by
  unfold ofBytes
  cases hf : EndRecord.find? b with
  | none =>
    refine ⟨nofun, fun ⟨p, hp, _⟩ ↦ ?_⟩
    rw [EndRecord.find?_eq_some_iff.mpr ⟨p, hp, rfl⟩] at hf
    contradiction
  | some r =>
    obtain ⟨p, hp, rfl⟩ := EndRecord.find?_eq_some_iff.mp hf
    have huniq : ∀ q, IsGreatest {q | IsCandidate b q} q → q = p := fun q hq ↦
      Nat.le_antisymm (hp.2 hq.1) (hq.2 hp.1)
    dsimp only
    split
    · next e he =>
      refine ⟨nofun, fun ⟨q, hq, hg, _⟩ ↦ ?_⟩
      obtain rfl := huniq q hq
      rw [EndRecord.check_valueAt_eq_ok_iff.mpr hg.record] at he
      contradiction
    next hc =>
    have hgood := EndRecord.check_valueAt_eq_ok_iff.mp hc
    rw [EndRecord.directoryEnd_valueAt, EndRecord.directoryStart_valueAt,
      EndRecord.toNat_entryCount_valueAt]
    split
    · next e he =>
      refine ⟨nofun, fun ⟨q, hq, hg, _⟩ ↦ ?_⟩
      obtain rfl := huniq q hq
      rw [(readEntries_eq_ok_iff hgood.directory_fits).mpr ⟨hg.headers, rfl⟩] at he
      contradiction
    · next es hes =>
      obtain ⟨hheaders, rfl⟩ := (readEntries_eq_ok_iff hgood.directory_fits).mp hes
      rw [Except.ok.injEq]
      constructor
      · rintro rfl
        exact ⟨p, hp, ⟨hgood, hheaders⟩, rfl⟩
      · rintro ⟨q, hq, _, rfl⟩
        obtain rfl := huniq q hq
        rfl

/-- **The container grammar.**  An archive is read if and only if some position is a candidate and
the record and all headers are in order at the greatest one.  The archive then has its bytes, as
many entries as the record counts, and the `i`-th entry is the one that the `i`-th header
describes. -/
theorem ofBytes_follows_grammar (b : ByteArray) (limits : ArchiveLimits) :
    ((∃ a, ofBytes b limits = .ok a) ↔
      ∃ p, IsGreatest {q | IsCandidate b q} p ∧ GoodDirectory b p) ∧
    ∀ a, ofBytes b limits = .ok a → a.data = b ∧ a.limits = limits ∧
      ∃ p, IsGreatest {q | IsCandidate b q} p ∧ a.entries.length = entryCountAt b p ∧
        ∀ i (h : i < a.entries.length), Describes b (headerAt b p i) a.entries[i] := by
  constructor
  · constructor
    · rintro ⟨a, ha⟩
      obtain ⟨p, hp, hg, -⟩ := ofBytes_eq_ok_iff.mp ha
      exact ⟨p, hp, hg⟩
    · rintro ⟨p, hp, hg⟩
      exact ⟨_, ofBytes_eq_ok_iff.mpr ⟨p, hp, hg, rfl⟩⟩
  · intro a ha
    obtain ⟨p, hp, -, rfl⟩ := ofBytes_eq_ok_iff.mp ha
    refine ⟨rfl, rfl, p, hp, length_entriesAt b p, fun i h ↦ ?_⟩
    rw [getElem_entriesAt]
    exact describes_entryAt b _

/-- An archive of one stored entry, written out: a local header with the data behind it, a header of
the directory, and the end record. -/
def singleEntry : ByteArray :=
  ([0x50, 0x4b, 3, 4, 20, 0, 0, 0, 0, 0, 0, 0, 0, 0, 0, 0, 0, 0, 2, 0, 0, 0, 2, 0, 0, 0, 1, 0, 0, 0,
    0x61, 0x68, 0x69,
    0x50, 0x4b, 1, 2, 20, 0, 20, 0, 0, 0, 0, 0, 0, 0, 0, 0, 0, 0, 0, 0, 2, 0, 0, 0, 2, 0, 0, 0, 1,
    0, 0, 0, 0, 0, 0, 0, 0, 0, 0, 0, 0, 0, 0, 0, 0, 0, 0x61,
    0x50, 0x4b, 5, 6, 0, 0, 0, 0, 1, 0, 1, 0, 47, 0, 0, 0, 33, 0, 0, 0, 0, 0] :
    List UInt8).toByteArray

/-- The hypothesis of the grammar is met: this archive is read, and its only entry is described by
the header that the record leads to. -/
theorem ofBytes_follows_grammar_singleEntry :
    ∃ a, ofBytes singleEntry {} = .ok a ∧ ∃ p, IsGreatest {q | IsCandidate singleEntry q} p ∧
      a.entries.length = 1 ∧
      ∀ i (h : i < a.entries.length),
        Describes singleEntry (headerAt singleEntry p i) a.entries[i] := by
  refine ⟨_, rfl, ?_⟩
  obtain ⟨-, -, p, hp, -, hd⟩ := (ofBytes_follows_grammar singleEntry {}).2 _ rfl
  exact ⟨p, hp, rfl, hd⟩

end Archive

end BrowserTrace
