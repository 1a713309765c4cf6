import BrowserTrace.Proofs.Archive.Contents
import BrowserTrace.Proofs.Archive.Payload

/-!
# What an entry is for

The name of an entry decides what it is for.  Scanning an archive looks at the entries that hold
events and at no others, and a pointer to a body looks at resources only, so no entry gives events
as well as a body (`Archive.payload_never_scanned`).  Directories hold no events.  A pointer leads to
a directory when its hash is empty or ends in a slash, and then takes the data of the directory for a
body like any others; with every other hash the directories of the archive do not matter.
-/

namespace BrowserTrace

/-! ## Names -/

/-- Under this hash stands a directory: it is empty, or it ends in a slash. -/
def HashesDirectory (hash : String) : Prop := hash = "" ∨ hash.toList.getLast? = some '/'

namespace Entry

variable {e : Entry} {hash : String}

theorem isResource_of_name (hname : e.name = resourcePrefix ++ hash) : e.isResource = true := by
  rw [isResource, hname, List.isPrefixOf_iff_prefix]
  exact resourcePrefix_isPrefix hash

theorem isDirectory_iff (hname : e.name = resourcePrefix ++ hash) :
    e.isDirectory = true ↔ HashesDirectory hash := by
  rw [isDirectory, hname, beq_iff_eq, String.toList_append, List.getLast?_append, HashesDirectory,
    ← String.toList_eq_nil_iff]
  cases h : hash.toList.getLast? with
  | none => exact iff_of_true rfl (.inl (List.getLast?_eq_none_iff.mp h))
  | some c =>
    have hne : hash.toList ≠ [] := fun hnil ↦ by simp [hnil] at h
    rw [Option.some_or]
    exact (or_iff_right hne).symm

end Entry

namespace Archive

variable {a : Archive} {ref : PayloadRef} {e : Entry}

/-! ## Leaving entries out -/

/-- The archive with some of its entries only. -/
def only (a : Archive) (p : Entry → Bool) : Archive := { a with entries := a.entries.filter p }

/-- A pointer gives the same as long as the entries with the name it points to are there. -/
theorem payload?_only {p : Entry → Bool}
    (hp : ∀ name e, ref.target? = some name → e.name = name → p e = true) (max : Nat) :
    (a.only p).payload? ref max = a.payload? ref max := by
  have hentry : payloadEntry? (a.only p) ref = a.payloadEntry? ref := by
    rw [payloadEntry?_eq_bind, payloadEntry?_eq_bind]
    cases htarget : ref.target? with
    | none => rfl
    | some name =>
      have hsame (e : Entry) : (p e && e.name == name) = (e.name == name) := by
        by_cases hname : e.name = name
        · rw [hp name e htarget hname, Bool.true_and]
        · rw [beq_eq_false_iff_ne.mpr hname, Bool.and_false]
      rw [Option.bind_some, Option.bind_some, find?_eq, find?_eq, only, List.find?_filter]
      simp only [← Bool.and_eq_true, hsame, Bool.decide_eq_true]
  rw [payload?, payload?, hentry]
  rfl

theorem scan_only (a : Archive) : (a.only Entry.holdsEvents).scan = a.scan := by
  have hentries : (a.only Entry.holdsEvents).eventEntries = a.eventEntries := by
    rw [eventEntries, eventEntries, only, List.filter_filter]
    simp only [Bool.and_self]
  rw [scan, scan, hentries]
  rfl

/-- A resource is never scanned. -/
theorem notMem_eventEntries_of_isResource (h : e.isResource = true) : e ∉ a.eventEntries := by
  intro hmem
  have hevents := (List.mem_filter.mp hmem).2
  rw [Entry.holdsEvents, h] at hevents
  contradiction

/-- **No entry gives events and a body.**  Scanning an archive looks at the entries that hold events
and at no others, and what a pointer gives depends on the resources alone, and on no directory unless
its hash is that of one.  A body is the beginning of the text of the first entry with the name: a
resource, which is never scanned, and a directory only where the hash is empty or ends in a slash. -/
theorem payload_never_scanned (a : Archive) (ref : PayloadRef) (max : Nat) :
    (a.only Entry.holdsEvents).scan = a.scan ∧
    (a.only Entry.isResource).payload? ref max = a.payload? ref max ∧
    (∀ hash, ref.contentHash = some hash → ¬ HashesDirectory hash →
      (a.only (!·.isDirectory)).payload? ref max = a.payload? ref max) ∧
    ∀ body, a.payload? ref max = some body → ∃ hash e contents, ref.contentHash = some hash ∧
      a.IsFirst (resourcePrefix ++ hash) e ∧ a.read e = .ok contents ∧
      Text.IsCut max (Text.decodeLossy contents) body ∧
      e.isResource = true ∧ e ∉ a.eventEntries ∧ (e.isDirectory = true ↔ HashesDirectory hash) := by
  refine ⟨scan_only a, payload?_only ?_ max, ?_, ?_⟩
  · intro name e htarget hname
    obtain ⟨hash, -, rfl⟩ := PayloadRef.target?_eq_some htarget
    exact Entry.isResource_of_name hname
  · intro hash hhash hfile
    refine payload?_only ?_ max
    intro name e htarget hname
    obtain ⟨hash', hhash', rfl⟩ := PayloadRef.target?_eq_some htarget
    obtain rfl := Option.some.inj (hhash.symm.trans hhash')
    rw [Bool.not_eq_true', ← Bool.not_eq_true, Entry.isDirectory_iff hname]
    exact hfile
  · intro body hbody
    obtain ⟨contents, hprovides, hcut⟩ := payload?_eq_some_iff_isCut.mp hbody
    obtain ⟨-, hash, e, -, -, hhash, hfirst, hread⟩ := hprovides
    have hresource := Entry.isResource_of_name hfirst.1
    exact ⟨hash, e, contents, hhash, hfirst, hread, hcut, hresource,
      notMem_eventEntries_of_isResource hresource, Entry.isDirectory_iff hfirst.1⟩

/-- A directory that has data. -/
def directoryWithData : List Member := [.stored "resources/" "{}".toByteArray]

/-- A pointer with an empty hash takes the data of a directory for a body. -/
theorem payload_of_directory :
    ∃ a, ofBytes (writeArchive directoryWithData ByteArray.empty) {} = .ok a ∧
      ∃ e ∈ a.entries, e.isDirectory = true ∧
        a.payloadEntry? ⟨some "application/json", some ""⟩ = some e ∧
        a.payload? ⟨some "application/json", some ""⟩ 10 = some "{}" := by
  have hfits : Representable directoryWithData ByteArray.empty :=
    ⟨by decide, by decide +kernel, by decide +kernel, by decide, by decide +kernel,
      by decide +kernel⟩
  have htarget : (⟨some "application/json", some ""⟩ : PayloadRef).target? =
      some "resources/" := by decide +kernel
  refine ⟨_, ofBytes_writeArchive hfits {} fun _ ↦ not_isCandidate_of_endStart_lt, _,
    List.mem_cons_self, by decide, ?_, ?_⟩
  · rw [payloadEntry?_eq_bind, htarget, Option.bind_some, find?_eq]
    rfl
  · rw [payload?_eq_bind, htarget]
    decide +kernel

end Archive

end BrowserTrace
