import BrowserTrace.Proofs.Archive.Acceptance
import BrowserTrace.Proofs.Deflate.Writer

/-!
# Reading an entry

The data of an entry lie within the archive, which `Archive.ofBytes` has made sure of, so taking
them out cannot fail.  What is read from them is either the data themselves or what they decode to,
and it always has the declared size (`Archive.read_eq_ok_iff`).
-/

namespace BrowserTrace

open Grammar

namespace Archive

/-! ## Where the data lie -/

/-- The data of every entry lie within the archive. -/
theorem dataEnd_le {b : ByteArray} {limits : ArchiveLimits} {a : Archive}
    (ha : ofBytes b limits = .ok a) {e : Entry} (he : e ∈ a.entries) : e.dataEnd ≤ b.size := by
  obtain ⟨p, -, hg, rfl⟩ := ofBytes_eq_ok_iff.mp ha
  obtain ⟨i, hi, rfl⟩ := List.mem_map.mp he
  rw [(describes_entryAt b _).dataEnd]
  exact (hg.headers i (List.mem_range.mp hi)).data_fits

theorem dataStart_le_dataEnd (e : Entry) : e.dataStart ≤ e.dataEnd := Nat.le_add_right ..

/-- Data that lie within the archive have the compressed size. -/
theorem size_rawData {a : Archive} {e : Entry} (h : e.dataEnd ≤ a.data.size) :
    (a.rawData e).size = e.compressedSize.toNat := by
  rw [rawData, ByteArray.size_extract, Nat.min_eq_left h, Entry.dataEnd, Nat.add_sub_cancel_left]

/-! ## What is read -/

/-- What is read depends on where the data of an entry stand only through the data. -/
theorem read_congr {a a' : Archive} {e e' : Entry} (hlimits : a.limits = a'.limits)
    (hname : e.name = e'.name) (hflags : e.flags = e'.flags) (hmethod : e.method = e'.method)
    (hsize : e.compressedSize = e'.compressedSize)
    (hdeclared : e.uncompressedSize = e'.uncompressedSize) (hraw : a.rawData e = a'.rawData e') :
    a.read e = a'.read e' := by
  unfold read Entry.isEncrypted
  rw [hlimits, hname, hflags, hmethod, hsize, hdeclared, hraw]

theorem inflateExactly_eq_ok_iff {name : String} {claimed : Nat} {raw x : ByteArray} :
    inflateExactly name claimed raw = .ok x ↔ Deflate.Decodes raw x ∧ x.size = claimed := by
  unfold inflateExactly
  constructor
  · intro h
    split at h
    · contradiction
    · next out hout =>
      split at h
      · next hsize =>
        obtain rfl := Except.ok.inj h
        exact ⟨(Deflate.inflate?_eq_some_iff (by omega)).mp hout, hsize⟩
      · contradiction
  · rintro ⟨hd, rfl⟩
    rw [(Deflate.inflate?_eq_some_iff (Nat.lt_succ_self _)).mpr hd]
    exact if_pos rfl

/-- The contents of an entry, when it can be read. -/
inductive HasContents (a : Archive) (e : Entry) (x : ByteArray) : Prop
  | stored (hm : e.method = .stored) (hsize : e.compressedSize = e.uncompressedSize)
      (hx : x = a.rawData e)
  | deflate (hm : e.method = .deflate) (hx : Deflate.Decodes (a.rawData e) x)
      (hsize : x.size = e.uncompressedSize.toNat)

section Contents

variable {a : Archive} {e : Entry} {x : ByteArray}

theorem hasContents_iff_of_stored (hm : e.method = .stored) :
    HasContents a e x ↔ e.compressedSize = e.uncompressedSize ∧ x = a.rawData e := by
  constructor
  · intro hc
    cases hc with
    | stored _ hsize hx => exact ⟨hsize, hx⟩
    | deflate hm' _ _ => exact Method.noConfusion (hm.symm.trans hm')
  · rintro ⟨hsize, hx⟩
    exact .stored hm hsize hx

theorem hasContents_iff_of_deflate (hm : e.method = .deflate) :
    HasContents a e x ↔
      Deflate.Decodes (a.rawData e) x ∧ x.size = e.uncompressedSize.toNat := by
  constructor
  · intro hc
    cases hc with
    | stored hm' _ _ => exact Method.noConfusion (hm.symm.trans hm')
    | deflate _ hx hsize => exact ⟨hx, hsize⟩
  · rintro ⟨hx, hsize⟩
    exact .deflate hm hx hsize

theorem not_hasContents_of_unsupported {number : UInt16} (hm : e.method = .unsupported number) :
    ¬ HasContents a e x := by
  intro hc
  cases hc with
  | stored hm' _ _ => exact Method.noConfusion (hm.symm.trans hm')
  | deflate hm' _ _ => exact Method.noConfusion (hm.symm.trans hm')

/-- An entry is read exactly when it is not encrypted, its declared size is within the limit, and it
has contents of that size. -/
theorem read_eq_ok_iff :
    a.read e = .ok x ↔ e.isEncrypted = false ∧
      e.uncompressedSize.toNat ≤ a.limits.maxEntrySize.bytes ∧ HasContents a e x := by
  unfold read
  cases he : e.isEncrypted with
  | true => simp
  | false =>
    rw [if_neg Bool.false_ne_true, eq_self, true_and]
    by_cases hlimit : a.limits.maxEntrySize.bytes < e.uncompressedSize.toNat
    · rw [if_pos hlimit]
      exact ⟨nofun, fun h ↦ absurd h.1 (Nat.not_le.mpr hlimit)⟩
    · rw [if_neg hlimit, and_iff_right (Nat.le_of_not_lt hlimit)]
      cases hm : e.method with
      | stored =>
        rw [hasContents_iff_of_stored hm]
        by_cases hsize : e.compressedSize = e.uncompressedSize
        · rw [if_pos hsize, Except.ok.injEq, and_iff_right hsize]
          exact eq_comm
        · rw [if_neg hsize]
          exact ⟨nofun, fun h ↦ absurd h.1 hsize⟩
      | deflate => rw [hasContents_iff_of_deflate hm, inflateExactly_eq_ok_iff]
      | unsupported number =>
        exact ⟨nofun, fun hc ↦ absurd hc (not_hasContents_of_unsupported hm)⟩

/-- Contents have the declared size, whichever way the data are stored. -/
theorem HasContents.size_eq (hc : HasContents a e x) (h : e.dataEnd ≤ a.data.size) :
    x.size = e.uncompressedSize.toNat := by
  cases hc with
  | stored _ hsize hx => rw [hx, size_rawData h, hsize]
  | deflate _ _ hsize => exact hsize

end Contents

/-- **Reading is in bounds, bounded and sound.**  The data of an entry of an archive that was read
lie within its bytes.  The entry is read exactly when it is not encrypted, its declared size is
within the limit and it has contents of that size; so what is read never has another size, and a
stream that is cut before the end of its last block is never read, whatever it gave before that. -/
theorem read_in_bounds_and_sound {b : ByteArray} {limits : ArchiveLimits} {a : Archive}
    (ha : ofBytes b limits = .ok a) {e : Entry} (he : e ∈ a.entries) :
    (e.dataStart ≤ e.dataEnd ∧ e.dataEnd ≤ b.size ∧
        a.rawData e = b.extract e.dataStart e.dataEnd ∧
        (a.rawData e).size = e.compressedSize.toNat) ∧
      (∀ x, a.read e = .ok x ↔ e.isEncrypted = false ∧
        e.uncompressedSize.toNat ≤ limits.maxEntrySize.bytes ∧ HasContents a e x) ∧
      (∀ x, a.read e = .ok x →
        x.size = e.uncompressedSize.toNat ∧ x.size ≤ limits.maxEntrySize.bytes) ∧
      ∀ more ts rest, e.method = .deflate →
        Deflate.IsStream ts (Deflate.bitsOf (a.rawData e ++ more)) rest →
        rest.length < 8 * more.size → ∀ x, a.read e ≠ .ok x := by
  have hend := dataEnd_le ha he
  obtain ⟨p, -, -, rfl⟩ := ofBytes_eq_ok_iff.mp ha
  refine ⟨⟨dataStart_le_dataEnd e, hend, rfl, size_rawData hend⟩, fun x ↦ read_eq_ok_iff, ?_, ?_⟩
  · intro x hx
    obtain ⟨-, hlimit, hc⟩ := read_eq_ok_iff.mp hx
    have hsize := hc.size_eq hend
    exact ⟨hsize, hsize ▸ hlimit⟩
  · intro more ts rest hm hs hcut x hx
    obtain ⟨-, -, hc⟩ := read_eq_ok_iff.mp hx
    exact Deflate.not_decodes_of_cut hs hcut x ((hasContents_iff_of_deflate hm).mp hc).1

/-- An archive of one deflated entry: its data are a stream of one stored block. -/
def deflatedEntry : ByteArray :=
  ([0x50, 0x4b, 3, 4, 20, 0, 0, 0, 8, 0, 0, 0, 0, 0, 0, 0, 0, 0, 7, 0, 0, 0, 2, 0, 0, 0, 1, 0, 0, 0,
    0x61, 1, 2, 0, 0xfd, 0xff, 0x68, 0x69,
    0x50, 0x4b, 1, 2, 20, 0, 20, 0, 0, 0, 8, 0, 0, 0, 0, 0, 0, 0, 0, 0, 7, 0, 0, 0, 2, 0, 0, 0, 1,
    0, 0, 0, 0, 0, 0, 0, 0, 0, 0, 0, 0, 0, 0, 0, 0, 0, 0x61,
    0x50, 0x4b, 5, 6, 0, 0, 0, 0, 1, 0, 1, 0, 47, 0, 0, 0, 38, 0, 0, 0, 0, 0] :
    List UInt8).toByteArray

/-- The hypotheses are met: the entry of this archive is read, as its data decode to two bytes. -/
theorem read_in_bounds_and_sound_deflatedEntry :
    ∃ a, ofBytes deflatedEntry {} = .ok a ∧ ∃ e ∈ a.entries, e.method = .deflate ∧
      e.dataEnd ≤ deflatedEntry.size ∧ a.read e = .ok [0x68, 0x69].toByteArray := by
  obtain ⟨a, ha, e, he, hm, hplain, hsize, hraw⟩ : ∃ a, ofBytes deflatedEntry {} = .ok a ∧
      ∃ e ∈ a.entries, e.method = .deflate ∧ e.isEncrypted = false ∧ e.uncompressedSize = 2 ∧
        a.rawData e = Deflate.storedBlock true [0x68, 0x69].toByteArray :=
    ⟨_, rfl, _, List.mem_cons_self, rfl, by decide +kernel, by decide +kernel, by decide +kernel⟩
  obtain ⟨⟨-, hend, -, -⟩, hread, -, -⟩ := read_in_bounds_and_sound ha he
  have hdecodes : Deflate.Decodes (a.rawData e) [0x68, 0x69].toByteArray := by
    rw [hraw]
    exact Deflate.decodes_storedBlock (by decide)
  refine ⟨a, ha, e, he, hm, hend, (hread _).mpr ⟨hplain, ?_, .deflate hm hdecodes ?_⟩⟩
  · rw [hsize]
    decide
  · rw [hsize]
    rfl

end Archive

end BrowserTrace
