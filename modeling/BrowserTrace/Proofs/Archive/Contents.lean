import BrowserTrace.Attachment
import BrowserTrace.Proofs.Archive.Reading
import BrowserTrace.Proofs.Archive.RoundTrip
import BrowserTrace.Proofs.Event.Lines
import BrowserTrace.Proofs.Record

/-!
# What an archive says

Of an archive only the names of its entries matter, and what reading each of them gives
(`Archive.contents`): its events, its unreadable entries and its payload bodies are functions of
that alone.  Where the data of an entry stand does not matter, so reading a member of a written
archive gives the same next to any other members (`Member.read`), and the contents of a written
archive are listed member by member (`exists_contents_writeArchive`).
-/

namespace BrowserTrace

open Bytes Grammar

/-! ## Names -/

/-- Whether an entry of this name holds trace events. -/
def namesEvents (name : String) : Bool :=
  !resourcePrefix.toList.isPrefixOf name.toList && !(name.toList.getLast? == some '/')

theorem Entry.holdsEvents_eq (e : Entry) : e.holdsEvents = namesEvents e.name := rfl

theorem namesEvents_iff {name : String} :
    namesEvents name = true ↔
      ¬ resourcePrefix.toList <+: name.toList ∧ name.toList.getLast? ≠ some '/' := by
  rw [namesEvents, Bool.and_eq_true, Bool.not_eq_true', ← Bool.not_eq_true,
    List.isPrefixOf_iff_prefix]
  simp

/-- A pointer points to an entry that does not hold events. -/
theorem not_namesEvents_of_target? {ref : PayloadRef} {name : String}
    (h : ref.target? = some name) : ¬ namesEvents name := by
  obtain ⟨hash, -, rfl⟩ := PayloadRef.target?_eq_some h
  exact fun hn ↦ (namesEvents_iff.mp hn).1 (resourcePrefix_isPrefix hash)

/-! ## Contents -/

namespace Archive

/-- The entries, each with its name and with what reading it gives. -/
def contents (a : Archive) : List (String × Except EntryError ByteArray) :=
  a.entries.map fun e ↦ (e.name, a.read e)

/-- The events that an entry of the contents gives. -/
def eventsIn (c : String × Except EntryError ByteArray) : List Event :=
  if namesEvents c.1 then (c.2.map Event.ofContents).toOption.getD [] else []

/-- Why an entry of the contents that should hold events cannot be read. -/
def faultIn? (c : String × Except EntryError ByteArray) : Option EntryError :=
  if namesEvents c.1 then
    match c.2 with
    | .ok _ => none
    | .error e => some e
  else
    none

section

variable {name : String}

theorem eventsIn_ok (hn : namesEvents name) (x : ByteArray) :
    eventsIn (name, .ok x) = Event.ofContents x := if_pos hn

theorem eventsIn_error (name : String) (error : EntryError) :
    eventsIn (name, .error error) = [] := ite_self _

theorem faultIn?_error (hn : namesEvents name) (error : EntryError) :
    faultIn? (name, .error error) = some error := if_pos hn

theorem eventsIn_of_not (hn : ¬ namesEvents name) (r : Except EntryError ByteArray) :
    eventsIn (name, r) = [] := if_neg hn

theorem faultIn?_of_not (hn : ¬ namesEvents name) (r : Except EntryError ByteArray) :
    faultIn? (name, r) = none := if_neg hn

end

theorem scan_events_eq_flatMap (a : Archive) : a.scan.events = a.contents.flatMap eventsIn := by
  simp only [scan, eventEntries, contents, List.flatMap_map]
  induction a.entries with
  | nil => rfl
  | cons e es ih =>
    rw [List.flatMap_cons, ← ih, eventsIn]
    dsimp only
    by_cases he : namesEvents e.name
    · rw [List.filter_cons_of_pos (e.holdsEvents_eq.trans he), List.flatMap_cons, if_pos he,
        eventsOf_eq]
    · rw [List.filter_cons_of_neg (ne_of_eq_of_ne e.holdsEvents_eq he), if_neg he, List.nil_append]

theorem scan_unreadable_eq_filterMap (a : Archive) :
    a.scan.unreadable = a.contents.filterMap faultIn? := by
  simp only [scan, eventEntries, contents, List.filterMap_map]
  induction a.entries with
  | nil => rfl
  | cons e es ih =>
    by_cases he : namesEvents e.name
    · rw [List.filter_cons_of_pos (e.holdsEvents_eq.trans he), List.filterMap_cons,
        List.filterMap_cons, ih]
      simp only [Function.comp_apply, faultIn?, if_pos he, eventsOf_eq]
      cases a.read e <;> rfl
    · rw [List.filter_cons_of_neg (ne_of_eq_of_ne e.holdsEvents_eq he), ih, List.filterMap_cons]
      simp only [Function.comp_apply, faultIn?, if_neg he]

theorem lookup_contents (a : Archive) (name : String) :
    a.contents.lookup name = (a.find? name).map a.read := by
  simp only [contents, find?_eq]
  induction a.entries with
  | nil => rfl
  | cons e es ih =>
    rw [List.map_cons, List.lookup_cons, List.find?_cons, BEq.comm]
    cases e.name == name with
    | true => rfl
    | false => exact ih

/-- A pointer gives the beginning of what reading its target gives. -/
theorem payload?_eq_bind (a : Archive) (ref : PayloadRef) (max : Nat) :
    a.payload? ref max = ref.target?.bind fun name ↦ (a.contents.lookup name).bind fun r ↦
      r.toOption.map fun x ↦ Text.truncate max (Text.decodeLossy x) := by
  rw [payload?, payloadEntry?_eq_bind, Option.bind_eq_bind, Option.bind_assoc]
  congr 1
  funext name
  rw [lookup_contents]
  cases a.find? name with
  | none => rfl
  | some e =>
    rw [Option.map_some, Option.bind_some, Option.bind_some, readText_eq]
    cases a.read e <;> rfl

end Archive

/-! ## Members -/

theorem toNat_ofNat_size {x : ByteArray} (h : x.size < 0xFFFFFFFF) :
    (UInt32.ofNat x.size).toNat = x.size :=
  UInt32.toNat_ofNat_of_lt' (by simp only [UInt32.size]; omega)

namespace Method

theorem ofNumber_eq_stored_iff {n : UInt16} : ofNumber n = stored ↔ n = 0 := by
  constructor
  · intro h
    rw [← number_ofNumber n, h, number]
  · rintro rfl
    rfl

theorem ofNumber_eq_deflate_iff {n : UInt16} : ofNumber n = deflate ↔ n = 8 := by
  constructor
  · intro h
    rw [← number_ofNumber n, h, number]
  · rintro rfl
    rfl

end Method

namespace Member

variable {limits : ArchiveLimits} {m : Member}

/-- The archive that holds the data of a member and nothing else. -/
def alone (limits : ArchiveLimits) (m : Member) : Archive := ⟨m.data, [], limits⟩

/-- The entry of a member whose data stand alone. -/
def aloneEntry (m : Member) : Entry := { m.entryAt 0 with dataStart := 0 }

/-- What reading a member gives, wherever it stands. -/
def read (limits : ArchiveLimits) (m : Member) : Except EntryError ByteArray :=
  (m.alone limits).read m.aloneEntry

theorem rawData_alone (hdata : m.data.size < 0xFFFFFFFF) :
    (m.alone limits).rawData m.aloneEntry = m.data := by
  have hend : m.aloneEntry.dataEnd = m.data.size :=
    (Nat.zero_add _).trans (toNat_ofNat_size hdata)
  rw [Archive.rawData, hend]
  exact ByteArray.extract_zero_size

/-- The entry that stands for a member in a whole archive reads like the member alone. -/
theorem read_entryAt {b : ByteArray} {entries : List Entry} {offset : Nat}
    (hlocal : Holds b offset m.localRecord.data.toList) (hdata : m.data.size < 0xFFFFFFFF) :
    Archive.read ⟨b, entries, limits⟩ (m.entryAt offset) = m.read limits := by
  refine Archive.read_congr rfl rfl rfl rfl rfl rfl ?_
  rw [rawData_alone hdata]
  exact extract_entryAt hlocal hdata

theorem method_aloneEntry (m : Member) : m.aloneEntry.method = Method.ofNumber m.method := by
  change methodOf m.method.toNat = _
  rw [← ofNumber_eq_methodOf m.method.toNat_lt, UInt16.ofNat_toNat]

/-- The contents of a member, stored or decoded. -/
theorem hasContents_alone_iff (hdata : m.data.size < 0xFFFFFFFF) {x : ByteArray} :
    (m.alone limits).HasContents m.aloneEntry x ↔
      (m.method = 0 ∧ m.data.size = m.uncompressedSize.toNat ∧ x = m.data) ∨
        (m.method = 8 ∧ Deflate.Decodes m.data x ∧ x.size = m.uncompressedSize.toNat) := by
  have hsize : m.aloneEntry.compressedSize = m.aloneEntry.uncompressedSize ↔
      m.data.size = m.uncompressedSize.toNat := by
    rw [← UInt32.toNat_inj]
    exact iff_of_eq (congrArg (· = m.uncompressedSize.toNat) (toNat_ofNat_size hdata))
  constructor
  · intro hc
    cases hc with
    | stored hm hs hx =>
      rw [method_aloneEntry, Method.ofNumber_eq_stored_iff] at hm
      exact .inl ⟨hm, hsize.mp hs, hx.trans (rawData_alone hdata)⟩
    | deflate hm hx hs =>
      rw [method_aloneEntry, Method.ofNumber_eq_deflate_iff] at hm
      rw [rawData_alone hdata] at hx
      exact .inr ⟨hm, hx, hs⟩
  · rintro (⟨hm, hs, rfl⟩ | ⟨hm, hx, hs⟩)
    · refine .stored ?_ (hsize.mpr hs) (rawData_alone hdata).symm
      rwa [method_aloneEntry, Method.ofNumber_eq_stored_iff]
    · refine .deflate ?_ ?_ hs
      · rwa [method_aloneEntry, Method.ofNumber_eq_deflate_iff]
      · rwa [rawData_alone hdata]

/-- When a member is read, and what is read from it. -/
theorem read_eq_ok_iff (hdata : m.data.size < 0xFFFFFFFF) {x : ByteArray} :
    m.read limits = .ok x ↔
      m.flags.toNat % 2 ≠ 1 ∧ m.uncompressedSize.toNat ≤ limits.maxEntrySize.bytes ∧
        ((m.method = 0 ∧ m.data.size = m.uncompressedSize.toNat ∧ x = m.data) ∨
          (m.method = 8 ∧ Deflate.Decodes m.data x ∧ x.size = m.uncompressedSize.toNat)) := by
  rw [read, Archive.read_eq_ok_iff, hasContents_alone_iff hdata]
  refine and_congr_left fun _ ↦ ?_
  change (m.flags.toNat % 2 == 1) = false ↔ _
  exact beq_eq_false_iff_ne

/-- The name of a member, and what reading it gives. -/
def content (limits : ArchiveLimits) (m : Member) : String × Except EntryError ByteArray :=
  (m.name, m.read limits)

/-- The member packs a file, which is a name with contents: the contents are stored as they are or as
a deflate stream that decodes to them, and the member declares their size. -/
structure Packs (m : Member) (file : String × ByteArray) : Prop where
  name_eq : m.name = file.1
  flags_eq : m.flags = 0
  declared_eq : m.uncompressedSize.toNat = file.2.size
  data : (m.method = 0 ∧ m.data = file.2) ∨ (m.method = 8 ∧ Deflate.Decodes m.data file.2)

theorem packs_stored {name : String} {x : ByteArray} (h : x.size < 0xFFFFFFFF) :
    (stored name x).Packs (name, x) :=
  ⟨rfl, rfl, toNat_ofNat_size h, .inl ⟨rfl, rfl⟩⟩

/-- A member gives the file that it packs. -/
theorem Packs.content_eq {file : String × ByteArray} (h : m.Packs file)
    (hdata : m.data.size < 0xFFFFFFFF) (hlimit : file.2.size ≤ limits.maxEntrySize.bytes) :
    m.content limits = (file.1, .ok file.2) := by
  refine Prod.ext h.name_eq ((read_eq_ok_iff hdata).mpr ⟨?_, ?_, ?_⟩)
  · rw [h.flags_eq]
    exact Nat.zero_ne_one
  · rwa [h.declared_eq]
  · rcases h.data with ⟨hmethod, heq⟩ | ⟨hmethod, hdecodes⟩
    · exact .inl ⟨hmethod, by rw [h.declared_eq, heq], heq.symm⟩
    · exact .inr ⟨hmethod, hdecodes, h.declared_eq.symm⟩

/-- Members give the files that they pack. -/
theorem map_content_of_packs {members : List Member} {files : List (String × ByteArray)}
    (h : List.Forall₂ Packs members files) (hdata : ∀ m ∈ members, m.data.size < 0xFFFFFFFF)
    (hlimit : ∀ f ∈ files, f.2.size ≤ limits.maxEntrySize.bytes) :
    members.map (content limits) = files.map fun f ↦ (f.1, .ok f.2) := by
  induction h with
  | nil => rfl
  | cons hpacks _ ih =>
    rw [List.forall_mem_cons] at hdata hlimit
    rw [List.map_cons, List.map_cons, hpacks.content_eq hdata.1 hlimit.1, ih hdata.2 hlimit.2]

end Member

/-! ## Written archives -/

section Written

variable {members : List Member} {comment : ByteArray} {limits : ArchiveLimits}

/-- The contents of a written archive are those of its members. -/
theorem contents_written (h : Representable members comment) :
    Archive.contents ⟨writeArchive members comment, entriesFrom 0 members, limits⟩ =
      members.map (Member.content limits) := by
  refine List.ext_getElem (by simp [Archive.contents]) fun i hi hi' ↦ ?_
  have hm : i < members.length := by simpa using hi'
  have hfit := size_data_le members hm
  have hstart := h.directoryStart_lt
  simp only [Archive.contents, List.getElem_map, getElem_entriesFrom hm, Nat.zero_add,
    Member.content]
  exact Prod.ext rfl (Member.read_entryAt (holds_localRecord members comment hm) (by omega))

/-- Without a comment nothing behind the start of the end record can be taken for one. -/
theorem not_isCandidate_of_endStart_lt {q : Nat} (hq : endStart members < q) :
    ¬ IsCandidate (writeArchive members ByteArray.empty) q := by
  intro hc
  have hfits := hc.fits
  rw [size_writeArchive, ← endStart, ByteArray.size_empty] at hfits
  omega

/-- An archive without a comment is read back with the contents of its members. -/
theorem exists_contents_writeArchive (h : Representable members ByteArray.empty)
    (limits : ArchiveLimits) :
    ∃ a, Archive.ofBytes (writeArchive members ByteArray.empty) limits = .ok a ∧
      a.contents = members.map (Member.content limits) :=
  ⟨_, ofBytes_writeArchive h limits fun _ ↦ not_isCandidate_of_endStart_lt, contents_written h⟩

theorem size_writeArchive_le_of_sublist {fewer : List Member} (hs : fewer.Sublist members)
    (comment : ByteArray) :
    (writeArchive fewer comment).size ≤ (writeArchive members comment).size := by
  have hlocal := localSizes_le_of_sublist hs
  have hdirectory := directorySizes_le_of_sublist hs
  rw [size_writeArchive, size_writeArchive]
  omega

/-- Fewer members still fit. -/
theorem Representable.sublist {fewer : List Member} (h : Representable members comment)
    (hs : fewer.Sublist members) : Representable fewer comment where
  count_le := Nat.le_trans hs.length_le h.count_le
  names_le m hm := h.names_le m (hs.mem hm)
  declared_lt m hm := h.declared_lt m (hs.mem hm)
  comment_le := h.comment_le
  directoryStart_lt := Nat.lt_of_le_of_lt (localSizes_le_of_sublist hs) h.directoryStart_lt
  directorySize_lt := Nat.lt_of_le_of_lt (directorySizes_le_of_sublist hs) h.directorySize_lt

theorem Representable.data_lt {m : Member} (h : Representable members comment) (hm : m ∈ members) :
    m.data.size < 0xFFFFFFFF := by
  have hle : m.localSize ≤ localSizes members :=
    List.le_sum_of_mem (List.mem_map.mpr ⟨m, hm, rfl⟩)
  have hstart := h.directoryStart_lt
  unfold Member.localSize at hle
  omega

end Written

/-! ## A small archive -/

namespace Sample

/-- An event: a request, and a response whose body is the resource `1`. -/
def event : Json :=
  .object [("snapshot", .object [
      ("request", .object [("method", .string "GET"), ("url", .string "/")]),
      ("response", .object [("content", .array [.string "text/json", .string "1"]),
        ("status", .number (.integer 404))])]),
    ("type", .string "resource-snapshot")]

/-- What the event says. -/
def snapshot : Snapshot where
  time := none
  resourceType := none
  method := some "GET"
  url := some "/"
  postData := none
  response := some ⟨some 404, some ⟨some "text/json", some "1"⟩⟩

/-- The record of the event. -/
def record : NetworkRecord :=
  { method := "GET", url := "/", status := 404, responseBody := some "{}" }

/-- An entry with the event, one without any, and the body of the response. -/
def entries : List (String × ByteArray) :=
  [("0.trace", (String.ofList event.compact).toByteArray), ("1.trace", ByteArray.empty),
    ("resources/1", "{}".toByteArray)]

/-- The entries as members of an archive. -/
def members : List Member := entries.map fun f ↦ .stored f.1 f.2

/-- An attempt with one trace. -/
def attempt : Attempt := { attachments := [.trace "application/zip" "trace.zip"] }

theorem representable_members : Representable members ByteArray.empty :=
  ⟨by decide, by decide +kernel, by decide +kernel, by decide, by decide +kernel,
    by decide +kernel⟩

theorem packs_members : List.Forall₂ Member.Packs members entries := by
  have hsmall : ∀ f ∈ entries, f.2.size < 0xFFFFFFFF := by decide +kernel
  rw [members, List.forall₂_map_left_iff, List.forall₂_same]
  exact fun f hf ↦ Member.packs_stored (hsmall f hf)

/-- The archive is read; it gives the event and its record. -/
theorem exists_archive : ∃ a, Archive.ofBytes (writeArchive members ByteArray.empty) {} = .ok a ∧
    a.scan.events = [.snapshot snapshot] ∧ snapshot.record? a {} = some record := by
  obtain ⟨a, ha, hc⟩ := exists_contents_writeArchive representable_members {}
  have hlimit : ∀ f ∈ entries, f.2.size ≤ ({} : ArchiveLimits).maxEntrySize.bytes := by
    decide +kernel
  rw [Member.map_content_of_packs packs_members (fun _ ↦ representable_members.data_lt) hlimit] at hc
  have hevent : Event.ofText event.compact = [.snapshot snapshot] := by decide +kernel
  refine ⟨a, ha, ?_, ?_⟩
  · have hfirst : Archive.eventsIn ("0.trace", .ok (String.ofList event.compact).toByteArray) =
        [.snapshot snapshot] := by
      rw [Archive.eventsIn_ok (by decide), Event.ofContents_toByteArray, String.toList_ofList,
        hevent]
    have hsecond : Archive.eventsIn ("1.trace", .ok ByteArray.empty) = [] := by decide
    have hthird : Archive.eventsIn ("resources/1", .ok "{}".toByteArray) = [] :=
      Archive.eventsIn_of_not (by decide) _
    rw [Archive.scan_events_eq_flatMap, hc, entries]
    simp only [List.map_cons, List.map_nil, List.flatMap_cons, List.flatMap_nil, hfirst, hsecond,
      hthird, List.append_nil]
  · have hbody : a.payload? ⟨some "text/json", some "1"⟩ 2048 = some "{}" := by
      rw [Archive.payload?_eq_bind, hc]
      decide +kernel
    simp [Snapshot.record?, snapshot, nonempty?, Option.filter, hbody, record]

end Sample

end BrowserTrace
