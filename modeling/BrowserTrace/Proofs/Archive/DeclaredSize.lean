import BrowserTrace.Proofs.Archive.Contents

/-!
# Declared sizes are enforced

A member declares the size of its contents, and nobody but the reader checks it.  The reader refuses
a declared size above its limit before it looks at the data.  Otherwise it takes one byte more than
declared from a deflate stream, so the error about a longer one tells no more than that; a stored
member is refused by its sizes alone.

Reading a member gives the same wherever it stands (`Member.read`), so the cases are told apart for
one member (`Member.read_eq_ite`), and `read_enforces_declared_size` puts it back into a written
archive.
-/

namespace BrowserTrace

/-! ## Streams -/

/-- A complete stream gives its contents if their size is the one claimed; the size that an error
tells is that of the contents, but at most one more than claimed. -/
theorem Archive.inflateExactly_of_decodes {raw x : ByteArray} (h : Deflate.Decodes raw x)
    (name : String) (claimed : Nat) :
    inflateExactly name claimed raw =
      if claimed = x.size then .ok x
      else .error (.sizeMismatch name claimed (min x.size (claimed + 1))) := by
  by_cases hsize : claimed = x.size
  case pos =>
    rw [if_pos hsize]
    exact inflateExactly_eq_ok_iff.mpr ⟨h, hsize.symm⟩
  have htaken : (x.extract 0 (claimed + 1)).size = min x.size (claimed + 1) := by
    rw [ByteArray.size_extract, Nat.sub_zero, Nat.min_comm]
  have hne : ¬ min x.size (claimed + 1) = claimed := by omega
  rw [if_neg hsize, inflateExactly, h.inflate?_eq]
  dsimp only
  rw [htaken, if_neg hne]

/-! ## Members -/

namespace Member

variable {limits : ArchiveLimits} {m : Member} {name : String} {x : ByteArray} {k : UInt32}

/-- A member that is not encrypted is judged by its declared size first, and then by its method. -/
theorem read_eq_ite (hflags : m.flags = 0) (hdata : m.data.size < 0xFFFFFFFF) :
    m.read limits =
      if limits.maxEntrySize.bytes < m.uncompressedSize.toNat then
        .error (.tooLarge m.name ⟨m.uncompressedSize.toNat⟩ limits.maxEntrySize)
      else
        match Method.ofNumber m.method with
        | .stored =>
          if m.data.size = m.uncompressedSize.toNat then .ok m.data
          else .error (.storedSizeMismatch m.name m.data.size m.uncompressedSize.toNat)
        | .deflate => Archive.inflateExactly m.name m.uncompressedSize.toNat m.data
        | .unsupported number => .error (.unsupportedMethod m.name number) := by
  have hplain : m.aloneEntry.isEncrypted = false := by
    change (m.flags.toNat % 2 == 1) = false
    rw [hflags]
    rfl
  have hsize : (m.aloneEntry.compressedSize = m.aloneEntry.uncompressedSize) =
      (m.data.size = m.uncompressedSize.toNat) := by
    rw [← UInt32.toNat_inj]
    exact congrArg (· = m.uncompressedSize.toNat) (toNat_ofNat_size hdata)
  have hcompressed : m.aloneEntry.compressedSize.toNat = m.data.size := toNat_ofNat_size hdata
  simp only [read, Archive.read, hplain, hsize, hcompressed, rawData_alone hdata, method_aloneEntry]
  rfl

/-- Whatever size contents declare that were compressed in any way, with any bytes behind the
stream. -/
theorem read_deflated_declaring {packed more : ByteArray} (hx : Deflate.Decodes packed x)
    (hdata : (packed ++ more).size < 0xFFFFFFFF) :
    read limits { deflated name x with data := packed ++ more, uncompressedSize := k } =
      if limits.maxEntrySize.bytes < k.toNat then
        .error (.tooLarge name ⟨k.toNat⟩ limits.maxEntrySize)
      else if k.toNat = x.size then .ok x
      else .error (.sizeMismatch name k.toNat (min x.size (k.toNat + 1))) := by
  rw [read_eq_ite rfl hdata]
  refine ite_congr rfl (fun _ ↦ rfl) fun _ ↦ ?_
  exact Archive.inflateExactly_of_decodes (hx.append more) name k.toNat

/-- Whatever size contents declare that are stored as they are. -/
theorem read_stored_declaring (hdata : x.size < 0xFFFFFFFF) :
    read limits { stored name x with uncompressedSize := k } =
      if limits.maxEntrySize.bytes < k.toNat then
        .error (.tooLarge name ⟨k.toNat⟩ limits.maxEntrySize)
      else if k.toNat = x.size then .ok x
      else .error (.storedSizeMismatch name x.size k.toNat) := by
  rw [read_eq_ite rfl hdata]
  refine ite_congr rfl (fun _ ↦ rfl) fun _ ↦ ?_
  exact ite_congr (propext eq_comm) (fun _ ↦ rfl) fun _ ↦ rfl

end Member

/-! ## Written archives -/

/-- The entry of a member reads like the member. -/
theorem Archive.read_getElem_of_contents {a : Archive} {limits : ArchiveLimits}
    {members : List Member} (h : a.contents = members.map (Member.content limits)) {i : Nat}
    (hi : i < members.length) :
    ∃ he : i < a.entries.length, a.read a.entries[i] = members[i].read limits := by
  have hlength : a.entries.length = members.length := by
    simpa [Archive.contents] using congrArg List.length h
  have he : i < a.entries.length := by rwa [hlength]
  have hread : (a.entries[i].name, a.read a.entries[i]) = members[i].content limits := by
    have hget := congrArg (fun contents ↦ contents[i]?) h
    simpa [Archive.contents, he, hi] using hget
  exact ⟨he, congrArg Prod.snd hread⟩

/-- **Declared sizes are enforced.**  In an archive of any members that can be written, a member
declares the size `k`.  If its data begin with a stream that decodes to `c`, be it the writer's own or
any other, whatever stands behind the stream, then the entry reads as `c` when `k` is the size of
`c`; otherwise the error tells `k` and the size of `c`, but no more than `k + 1`.  If its data are `c`
itself, the error tells both sizes.  A `k` above the limit is refused in either case. -/
theorem read_enforces_declared_size {members : List Member}
    (h : Representable members ByteArray.empty) (limits : ArchiveLimits) {i : Nat}
    (hi : i < members.length) (name : String) (c : ByteArray) (k : UInt32) :
    Deflate.Decodes (Member.deflated name c).data c ∧
      ∃ a, Archive.ofBytes (writeArchive members ByteArray.empty) limits = .ok a ∧
        ∃ he : i < a.entries.length,
          (∀ packed more, Deflate.Decodes packed c →
            members[i] =
              { Member.deflated name c with data := packed ++ more, uncompressedSize := k } →
            a.read a.entries[i] =
              if limits.maxEntrySize.bytes < k.toNat then
                .error (.tooLarge name ⟨k.toNat⟩ limits.maxEntrySize)
              else if k.toNat = c.size then .ok c
              else .error (.sizeMismatch name k.toNat (min c.size (k.toNat + 1)))) ∧
          (members[i] = { Member.stored name c with uncompressedSize := k } →
            a.read a.entries[i] =
              if limits.maxEntrySize.bytes < k.toNat then
                .error (.tooLarge name ⟨k.toNat⟩ limits.maxEntrySize)
              else if k.toNat = c.size then .ok c
              else .error (.storedSizeMismatch name c.size k.toNat)) := by
  refine ⟨Deflate.decodes_deflate c, ?_⟩
  obtain ⟨a, ha, hcontents⟩ := exists_contents_writeArchive h limits
  obtain ⟨he, hread⟩ := Archive.read_getElem_of_contents hcontents hi
  have hdata := h.data_lt (List.getElem_mem hi)
  refine ⟨a, ha, he, fun packed more hpacked hm ↦ ?_, fun hm ↦ ?_⟩
  · rw [hm] at hread hdata
    rw [hread]
    exact Member.read_deflated_declaring hpacked hdata
  · rw [hm] at hread hdata
    rw [hread]
    exact Member.read_stored_declaring hdata

namespace Sample

/-- The contents of a member that declares a wrong size. -/
def twoBytes : ByteArray := [0x68, 0x69].toByteArray

/-- Members with two bytes, of which one is declared, and three are. -/
def misdeclared : List Member :=
  [{ Member.deflated "a" twoBytes with
      data := Deflate.deflate twoBytes ++ [0].toByteArray, uncompressedSize := 1 },
    { Member.stored "b" twoBytes with uncompressedSize := 3 }]

/-- Of the longer contents two bytes are taken, of which one was declared; the shorter ones are refused
by their size. -/
theorem read_enforces_declared_size_misdeclared :
    Representable misdeclared ByteArray.empty ∧
      ∃ a, Archive.ofBytes (writeArchive misdeclared ByteArray.empty) {} = .ok a ∧
        ∃ (h₀ : 0 < a.entries.length) (h₁ : 1 < a.entries.length),
          a.read a.entries[0] = .error (.sizeMismatch "a" 1 2) ∧
            a.read a.entries[1] = .error (.storedSizeMismatch "b" 2 3) := by
  have h : Representable misdeclared ByteArray.empty :=
    ⟨by decide, by decide +kernel, by decide +kernel, by decide, by decide +kernel,
      by decide +kernel⟩
  have hi₀ : 0 < misdeclared.length := by decide
  have hi₁ : 1 < misdeclared.length := by decide
  obtain ⟨hdecodes, a, ha, h₀, hdeflated, -⟩ :=
    read_enforces_declared_size h {} hi₀ "a" twoBytes 1
  obtain ⟨-, a', ha', h₁, -, hstored⟩ := read_enforces_declared_size h {} hi₁ "b" twoBytes 3
  obtain rfl : a = a' := Except.ok.inj (ha.symm.trans ha')
  have hread₀ := hdeflated (Deflate.deflate twoBytes) [0].toByteArray hdecodes rfl
  have hread₁ := hstored rfl
  refine ⟨h, a, ha, h₀, h₁, hread₀.trans ?_, hread₁.trans ?_⟩
  · rfl
  · rfl

end Sample

end BrowserTrace
