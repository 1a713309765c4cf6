import BrowserTrace.Proofs.Record

/-!
# Where bodies come from

A pointer to a body names an entry, and names may occur more than once in a directory.  The entry
that counts is the first one with the name (`Archive.IsFirst`): a body is the beginning of the text
of that entry, and if that entry cannot be read there is no body, whatever comes behind it in the
directory.  The beginning is cut between characters and not sooner than needed (`Text.IsCut`).
-/

namespace BrowserTrace

/-! ## Cuts -/

namespace Text

/-- The longest beginning of a text that has no more than `max` characters; so it is the whole text,
where that is short enough. -/
structure IsCut (max : Nat) (text body : String) : Prop where
  begins : body.toList <+: text.toList
  length_le : body.length ≤ max
  longest : ∀ other : String, other.toList <+: text.toList → other.length ≤ max →
    other.length ≤ body.length

/-- There is only one longest beginning. -/
theorem IsCut.unique {max : Nat} {text body other : String} (h : IsCut max text body)
    (h' : IsCut max text other) : body = other := by
  have hlength : body.toList.length = other.toList.length := by
    rw [String.length_toList, String.length_toList]
    exact Nat.le_antisymm (h'.longest body h.begins h.length_le)
      (h.longest other h'.begins h'.length_le)
  rw [← String.toList_inj, List.prefix_iff_eq_take.mp h.begins, hlength,
    ← List.prefix_iff_eq_take.mp h'.begins]

theorem isCut_truncate (max : Nat) (text : String) : IsCut max text (truncate max text) where
  begins := by
    rw [toList_truncate]
    exact List.take_prefix _ _
  length_le := length_truncate_le max text
  longest other hother hmax := by
    rw [← String.length_toList (s := other), ← String.length_toList (s := truncate max text),
      toList_truncate]
    exact (List.prefix_take_iff.mpr ⟨hother, hmax⟩).length_le

theorem truncate_eq_iff {max : Nat} {text body : String} :
    truncate max text = body ↔ IsCut max text body :=
  ⟨fun h ↦ h ▸ isCut_truncate max text, fun h ↦ (isCut_truncate max text).unique h⟩

end Text

/-! ## The first entry with a name -/

namespace Archive

variable {a : Archive} {name : String} {e : Entry}

/-- The entry has this name, and no entry before it in the directory does. -/
def IsFirst (a : Archive) (name : String) (e : Entry) : Prop :=
  e.name = name ∧ ∃ before behind, a.entries = before ++ e :: behind ∧
    ∀ other ∈ before, other.name ≠ name

theorem find?_eq_some_iff_isFirst : a.find? name = some e ↔ a.IsFirst name e := by
  rw [find?_eq, List.find?_eq_some_iff_append]
  simp only [IsFirst, beq_iff_eq, Bool.not_eq_true', beq_eq_false_iff_ne]

theorem find?_eq_none_iff : a.find? name = none ↔ ∀ e ∈ a.entries, e.name ≠ name := by
  rw [find?_eq, List.find?_eq_none]
  simp only [beq_iff_eq, ne_eq]

/-! ## Bodies -/

variable {ref : PayloadRef} {max : Nat} {body : String} {contents : ByteArray}

/-- The pointer is one to JSON, and the first entry that it names can be read, with these
contents. -/
def Provides (a : Archive) (ref : PayloadRef) (contents : ByteArray) : Prop :=
  ∃ mediaType hash e, ref.mediaType = some mediaType ∧ MediaType.isJson mediaType = true ∧
    ref.contentHash = some hash ∧ a.IsFirst (resourcePrefix ++ hash) e ∧ a.read e = .ok contents

theorem provides_iff :
    a.Provides ref contents ↔ ∃ name e, ref.target? = some name ∧ a.find? name = some e ∧
      a.read e = .ok contents := by
  constructor
  · rintro ⟨mediaType, hash, e, hmediaType, hjson, hhash, hfirst, hread⟩
    have htarget := PayloadRef.target?_eq_some_iff.mpr
      ⟨mediaType, hash, hmediaType, hjson, hhash, rfl⟩
    exact ⟨_, e, htarget, find?_eq_some_iff_isFirst.mpr hfirst, hread⟩
  · rintro ⟨name, e, htarget, hfind, hread⟩
    obtain ⟨mediaType, hash, hmediaType, hjson, hhash, rfl⟩ :=
      PayloadRef.target?_eq_some_iff.mp htarget
    exact ⟨mediaType, hash, e, hmediaType, hjson, hhash, find?_eq_some_iff_isFirst.mp hfind, hread⟩

theorem payload?_eq_some_iff_isCut :
    a.payload? ref max = some body ↔
      ∃ contents, a.Provides ref contents ∧ Text.IsCut max (Text.decodeLossy contents) body := by
  rw [payload?_eq_some_iff]
  simp only [provides_iff, Text.truncate_eq_iff]
  constructor
  · rintro ⟨name, e, contents, htarget, hfind, hread, hcut⟩
    exact ⟨contents, ⟨name, e, htarget, hfind, hread⟩, hcut⟩
  · rintro ⟨contents, ⟨name, e, htarget, hfind, hread⟩, hcut⟩
    exact ⟨name, e, contents, htarget, hfind, hread, hcut⟩

/-- Only the first entry that a pointer names can provide anything. -/
theorem IsFirst.not_provides {hash : String} {error : EntryError}
    (hhash : ref.contentHash = some hash) (h : a.IsFirst (resourcePrefix ++ hash) e)
    (herror : a.read e = .error error) : ¬ a.Provides ref contents := by
  rintro ⟨mediaType, hash', e', -, -, hhash', hfirst, hread⟩
  obtain rfl := Option.some.inj (hhash.symm.trans hhash')
  rw [← find?_eq_some_iff_isFirst] at h hfirst
  obtain rfl := Option.some.inj (h.symm.trans hfirst)
  rw [herror] at hread
  contradiction

/-- **The first entry with a name counts.**  A name is looked up to the first entry with it, and to
nothing if there is none.  A pointer gives a body if and only if it is one to JSON and the first
entry that it names can be read; the body is the text of that entry, cut to `max` characters.  If
the first entry cannot be read, there is no body, whatever other entries have the name. -/
theorem payload_of_first_entry (a : Archive) :
    (∀ name, (∀ e, a.find? name = some e ↔ a.IsFirst name e) ∧
      (a.find? name = none ↔ ∀ e ∈ a.entries, e.name ≠ name)) ∧
    ∀ ref max, ((∃ body, a.payload? ref max = some body) ↔ ∃ contents, a.Provides ref contents) ∧
      (∀ body, a.payload? ref max = some body ↔
        ∃ contents, a.Provides ref contents ∧ Text.IsCut max (Text.decodeLossy contents) body) ∧
      ∀ hash e error, ref.contentHash = some hash → a.IsFirst (resourcePrefix ++ hash) e →
        a.read e = .error error → a.payload? ref max = none := by
  refine ⟨fun name ↦ ⟨fun e ↦ find?_eq_some_iff_isFirst, find?_eq_none_iff⟩, fun ref max ↦
    ⟨?_, fun body ↦ payload?_eq_some_iff_isCut, ?_⟩⟩
  · simp only [payload?_eq_some_iff_isCut]
    constructor
    · rintro ⟨body, contents, hprovides, -⟩
      exact ⟨contents, hprovides⟩
    · rintro ⟨contents, hprovides⟩
      exact ⟨_, contents, hprovides, Text.isCut_truncate max _⟩
  · intro hash e error hhash hfirst herror
    refine Option.eq_none_iff_forall_ne_some.mpr fun body hbody ↦ ?_
    obtain ⟨contents, hprovides, -⟩ := payload?_eq_some_iff_isCut.mp hbody
    exact hfirst.not_provides hhash herror hprovides

end Archive

end BrowserTrace
