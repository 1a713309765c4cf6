import BrowserTrace.Proofs.Deflate.Writer
import BrowserTrace.Proofs.Isolation

/-!
# The same files in another archive

What is extracted from an archive depends on the files in it and not on how they are packed.  Where
every file can be read (`Archive.HoldsFiles`), the events of an archive are those of its event files
in order, and its payload bodies are found by name among its resources.  So archives with the same
files, whose event files stand in the same order (`Reordered`), are alike: a collector cannot tell
one from the other, whatever their members are compressed with and wherever the resources stand
(`archives_of_same_files_agree`).
-/

namespace BrowserTrace

/-- Whether an entry of this name is a resource. -/
def namesResource (name : String) : Bool := resourcePrefix.toList.isPrefixOf name.toList

/-- A pointer points to a resource. -/
theorem namesResource_of_target? {ref : PayloadRef} {name : String} (h : ref.target? = some name) :
    namesResource name := by
  obtain ⟨hash, -, rfl⟩ := PayloadRef.target?_eq_some h
  rw [namesResource, List.isPrefixOf_iff_prefix]
  exact resourcePrefix_isPrefix hash

theorem Member.packs_deflated {name : String} {x : ByteArray} (h : x.size < 0xFFFFFFFF) :
    (deflated name x).Packs (name, x) :=
  ⟨rfl, rfl, toNat_ofNat_size h, .inr ⟨rfl, Deflate.decodes_deflate x⟩⟩

/-! ## Archives of readable files -/

namespace Archive

/-- The archive has these files, and each of them can be read. -/
def HoldsFiles (a : Archive) (files : List (String × ByteArray)) : Prop :=
  a.contents = files.map fun f ↦ (f.1, .ok f.2)

/-- The events of files, in their order. -/
def eventsOfFiles (files : List (String × ByteArray)) : List Event :=
  (files.filter fun f ↦ namesEvents f.1).flatMap fun f ↦ Event.ofContents f.2

namespace HoldsFiles

variable {a : Archive} {files : List (String × ByteArray)}

theorem scan_eq (h : a.HoldsFiles files) :
    a.scan = { events := eventsOfFiles files, unreadable := [] } := by
  have hevents : a.scan.events = eventsOfFiles files := by
    rw [scan_events_eq_flatMap, h, List.flatMap_map, eventsOfFiles]
    clear h
    induction files with
    | nil => rfl
    | cons f files ih =>
      rw [List.flatMap_cons, ih]
      by_cases hf : namesEvents f.1
      · rw [eventsIn_ok hf, List.filter_cons, if_pos hf, List.flatMap_cons]
      · rw [eventsIn_of_not hf, List.filter_cons, if_neg hf, List.nil_append]
  have hunreadable : a.scan.unreadable = [] := by
    rw [scan_unreadable_eq_filterMap, h, List.filterMap_map, List.filterMap_eq_nil_iff]
    exact fun f _ ↦ ite_self _
  exact congrArg₂ Scan.mk hevents hunreadable

/-- Bodies are found among the resources. -/
theorem payload?_eq (h : a.HoldsFiles files) (ref : PayloadRef) (max : Nat) :
    a.payload? ref max = ref.target?.bind fun name ↦
      ((files.filter fun f ↦ namesResource f.1).lookup name).map fun x ↦
        Text.truncate max (Text.decodeLossy x) := by
  rw [payload?_eq_bind, h]
  refine Option.bind_congr fun name hname ↦ ?_
  rw [Lookup.lookup_map_snd, Lookup.lookup_filter (namesResource_of_target? hname)]
  cases files.lookup name <;> rfl

theorem exists_read_eq_ok (h : a.HoldsFiles files) {e : Entry} (he : e ∈ a.entries) :
    ∃ x, a.read e = .ok x := by
  have hmem : (e.name, a.read e) ∈ a.contents := List.mem_map_of_mem he
  rw [h] at hmem
  obtain ⟨f, -, hf⟩ := List.mem_map.mp hmem
  exact ⟨f.2, (congrArg Prod.snd hf).symm⟩

/-- No body is missed because it cannot be read. -/
theorem unreadablePayload?_eq (h : a.HoldsFiles files) (ref : PayloadRef) :
    a.unreadablePayload? ref = none := by
  rw [unreadablePayload?, payloadEntry?_eq_bind]
  cases hfind : ref.target?.bind a.find? with
  | none => rfl
  | some e =>
    obtain ⟨name, -, hname⟩ := Option.bind_eq_some_iff.mp hfind
    obtain ⟨x, hx⟩ := h.exists_read_eq_ok (find?_eq_some hname).1
    simp [hx]

end HoldsFiles

/-! ## Archives that are alike -/

/-- The archives give the same events and the same bodies, and fail alike. -/
structure Alike (a a' : Archive) : Prop where
  scan_eq : a.scan = a'.scan
  payload?_eq : ∀ ref max, a.payload? ref max = a'.payload? ref max
  unreadablePayload?_eq : ∀ ref, a.unreadablePayload? ref = a'.unreadablePayload? ref

variable {a a' : Archive}

theorem Alike.addEvent_eq (h : a.Alike a') (c : Collector) (e : Event) :
    c.addEvent a e = c.addEvent a' e := by
  cases e with
  | snapshot s =>
    have hrecord : s.record? a c.limits = s.record? a' c.limits :=
      Snapshot.record?_congr fun ref ↦ h.payload?_eq ref _
    simp only [Collector.addEvent, Collector.addSnapshot, Collector.notePayloads, hrecord,
      funext h.unreadablePayload?_eq]
  | console => rfl
  | pageError => rfl

/-- A collector cannot tell the archives apart. -/
theorem Alike.addArchive_eq (h : a.Alike a') (c : Collector) : c.addArchive a = c.addArchive a' := by
  have hstep : (fun (c : Collector) e ↦ c.addEvent a e) = fun c e ↦ c.addEvent a' e := by
    funext c e
    exact h.addEvent_eq c e
  simp only [Collector.addArchive, h.scan_eq, hstep]

end Archive

/-! ## Files in another order -/

/-- The files of the second list are those of the first one, and those with events stand in the same
order. -/
structure Reordered (files files' : List (String × ByteArray)) : Prop where
  perm : files.Perm files'
  events_eq :
    (files.filter fun f ↦ namesEvents f.1) = files'.filter fun f ↦ namesEvents f.1

/-- Resources with distinct names are found wherever they stand. -/
theorem Reordered.alike {files files' : List (String × ByteArray)} {a a' : Archive}
    (h : Reordered files files') (ha : a.HoldsFiles files) (ha' : a'.HoldsFiles files')
    (hdistinct : ((files.filter fun f ↦ namesResource f.1).map Prod.fst).Nodup) : a.Alike a' := by
  constructor
  · rw [ha.scan_eq, ha'.scan_eq, Archive.eventsOfFiles, Archive.eventsOfFiles, h.events_eq]
  · intro ref max
    rw [ha.payload?_eq, ha'.payload?_eq]
    refine Option.bind_congr fun name _ ↦ ?_
    rw [Lookup.lookup_eq_of_perm (h.perm.filter _) hdistinct]
  · intro ref
    rw [ha.unreadablePayload?_eq, ha'.unreadablePayload?_eq]

/-! ## Two runs -/

namespace Extraction

variable {settings : Settings} {bytes bytes' : ByteArray} {a a' : Archive}

/-- A run cannot tell the archives apart. -/
theorem extract_holding_alike (h : Opens settings bytes a) (h' : Opens settings bytes' a')
    (halike : a.Alike a') (files : Files) (path : String) (attempt : Attempt) :
    extract (files.holding path bytes) settings attempt =
      extract (files.holding path bytes') settings attempt := by
  have hstep : Collector.addAttachment (files.holding path bytes) settings =
      Collector.addAttachment (files.holding path bytes') settings := by
    funext c t
    unfold Collector.addAttachment
    split
    · cases t.path with
      | none => rfl
      | some p =>
        dsimp only
        rw [Archive.load_holding h.size_le, Archive.load_holding h'.size_le]
        by_cases hp : p = path
        · rw [if_pos hp, if_pos hp, h.parsed, h'.parsed]
          exact halike.addArchive_eq c
        · rw [if_neg hp, if_neg hp]
    · rfl
  rw [extract, extract, hstep]

/-- A file that is too large is not opened. -/
theorem openTrace?_holding_of_lt (hsize : settings.archiveLimits.maxArchiveSize.bytes < bytes.size)
    (files : Files) (path : String) (t : Attachment) :
    openTrace? (files.holding path bytes) settings t =
      if t.path = some path then none else openTrace? files settings t := by
  rw [openTrace?, openTrace?]
  cases t.path with
  | none => rfl
  | some p =>
    by_cases hp : p = path
    · simp only [hp, Option.bind_some, if_true, Archive.load, Files.holding, if_pos hsize]
      rfl
    · rw [if_neg (hp ∘ Option.some.inj)]
      simp only [Option.bind_some, Archive.load, Files.holding, if_neg hp]

/-- Two files that are both too large give the same, which is nothing. -/
theorem diagnostics_holding_of_lt
    (hsize : settings.archiveLimits.maxArchiveSize.bytes < bytes.size)
    (hsize' : settings.archiveLimits.maxArchiveSize.bytes < bytes'.size)
    (files : Files) (path : String) (attempt : Attempt) :
    (extract (files.holding path bytes) settings attempt).diagnostics =
      (extract (files.holding path bytes') settings attempt).diagnostics := by
  have hopen : openTrace? (files.holding path bytes) settings =
      openTrace? (files.holding path bytes') settings := by
    funext t
    rw [openTrace?_holding_of_lt hsize, openTrace?_holding_of_lt hsize']
  refine diagnostics_eq_of_opened_eq ?_
  rw [opened, opened, hopen]

end Extraction

/-- An archive that was written for files holds them. -/
theorem exists_holdsFiles {files : List (String × ByteArray)} {members : List Member}
    {limits : ArchiveLimits} (hlimit : ∀ f ∈ files, f.2.size ≤ limits.maxEntrySize.bytes)
    (hpacks : List.Forall₂ Member.Packs members files)
    (hfits : Representable members ByteArray.empty) :
    ∃ a, Archive.ofBytes (writeArchive members ByteArray.empty) limits = .ok a ∧
      a.HoldsFiles files := by
  obtain ⟨a, ha, hc⟩ := exists_contents_writeArchive hfits limits
  rw [Member.map_content_of_packs hpacks (fun _ ↦ hfits.data_lt) hlimit] at hc
  exact ⟨a, ha, hc⟩

/-- **Only the files of an archive matter.**  Two archives are written for the same files, each of
them stored or compressed in any way, and in any order that keeps that of the files with events; no
file is above the limit on the size of an entry, and the resources have distinct names.  Then both
archives are read, with the same events and the same bodies; every collector comes to the same with
either; and so does every attempt some of whose attachments are the archive, provided that the limit
on the size of an archive lets both pass or neither. -/
theorem archives_of_same_files_agree {settings : Settings} {files files' : List (String × ByteArray)}
    {members members' : List Member}
    (hlimit : ∀ f ∈ files, f.2.size ≤ settings.archiveLimits.maxEntrySize.bytes)
    (hdistinct : ((files.filter fun f ↦ namesResource f.1).map Prod.fst).Nodup)
    (horder : Reordered files files')
    (hpacks : List.Forall₂ Member.Packs members files)
    (hpacks' : List.Forall₂ Member.Packs members' files')
    (hfits : Representable members ByteArray.empty)
    (hfits' : Representable members' ByteArray.empty) :
    let limits := settings.archiveLimits
    let bytes := writeArchive members ByteArray.empty
    let bytes' := writeArchive members' ByteArray.empty
    ∃ a a', Archive.ofBytes bytes limits = .ok a ∧ Archive.ofBytes bytes' limits = .ok a' ∧
      a.scan.events = a'.scan.events ∧
      (∀ ref max, a.payload? ref max = a'.payload? ref max) ∧
      (∀ c : Collector, c.addArchive a = c.addArchive a') ∧
      ((bytes.size ≤ limits.maxArchiveSize.bytes ↔ bytes'.size ≤ limits.maxArchiveSize.bytes) →
        ∀ (fileSystem : Files) path attempt,
          (extract (fileSystem.holding path bytes) settings attempt).diagnostics =
            (extract (fileSystem.holding path bytes') settings attempt).diagnostics) := by
  intro limits bytes bytes'
  have hlimit' : ∀ f ∈ files', f.2.size ≤ limits.maxEntrySize.bytes :=
    fun f hf ↦ hlimit f (horder.perm.mem_iff.mpr hf)
  obtain ⟨a, ha, hholds⟩ := exists_holdsFiles hlimit hpacks hfits
  obtain ⟨a', ha', hholds'⟩ := exists_holdsFiles hlimit' hpacks' hfits'
  have halike : a.Alike a' := horder.alike hholds hholds' hdistinct
  refine ⟨a, a', ha, ha', congrArg Scan.events halike.scan_eq, halike.payload?_eq,
    halike.addArchive_eq, fun hsize fileSystem path attempt ↦ ?_⟩
  by_cases hle : bytes.size ≤ limits.maxArchiveSize.bytes
  · rw [Extraction.extract_holding_alike ⟨ha, hle⟩ ⟨ha', hsize.mp hle⟩ halike]
  · exact Extraction.diagnostics_holding_of_lt (Nat.not_le.mp hle)
      (Nat.not_le.mp fun hle' ↦ hle (hsize.mpr hle')) fileSystem path attempt

namespace Sample

/-- The files of the sample archive, with the body of the response in front of the event. -/
def bodyFirst : List (String × ByteArray) :=
  [("resources/1", "{}".toByteArray), ("0.trace", (String.ofList event.compact).toByteArray),
    ("1.trace", ByteArray.empty)]

/-- These files as members, all of them compressed. -/
def compressed : List Member := bodyFirst.map fun f ↦ .deflated f.1 f.2

theorem packs_compressed : List.Forall₂ Member.Packs compressed bodyFirst := by
  have hsmall : ∀ f ∈ bodyFirst, f.2.size < 0xFFFFFFFF := by decide +kernel
  rw [compressed, List.forall₂_map_left_iff, List.forall₂_same]
  exact fun f hf ↦ Member.packs_deflated (hsmall f hf)

theorem reordered_bodyFirst : Reordered entries bodyFirst where
  perm := show (entries.take 2 ++ entries.drop 2).Perm (entries.drop 2 ++ entries.take 2) from
    List.perm_append_comm
  events_eq := rfl

theorem archives_of_same_files_agree_compressed :
    let bytes := writeArchive members ByteArray.empty
    let bytes' := writeArchive compressed ByteArray.empty
    (∃ a', Archive.ofBytes bytes' {} = .ok a' ∧ a'.scan.events = [.snapshot snapshot]) ∧
      (extract (noFiles.holding "trace.zip" bytes) {} attempt).diagnostics =
        (extract (noFiles.holding "trace.zip" bytes') {} attempt).diagnostics := by
  intro bytes bytes'
  have hlimit : ∀ f ∈ entries, f.2.size ≤ ({} : Settings).archiveLimits.maxEntrySize.bytes := by
    decide +kernel
  have hdistinct : ((entries.filter fun f ↦ namesResource f.1).map Prod.fst).Nodup := by
    decide +kernel
  have hfits : Representable compressed ByteArray.empty :=
    ⟨by decide, by decide +kernel, by decide +kernel, by decide, by decide +kernel,
      by decide +kernel⟩
  obtain ⟨a, a', ha, ha', hevents, -, -, hextract⟩ := archives_of_same_files_agree hlimit hdistinct
    reordered_bodyFirst packs_members packs_compressed representable_members hfits
  obtain ⟨a₀, ha₀, hsnapshot, -⟩ := exists_archive
  obtain rfl : a = a₀ := Except.ok.inj (ha.symm.trans ha₀)
  have hsize : bytes.size ≤ ({} : Settings).archiveLimits.maxArchiveSize.bytes := by
    rw [size_writeArchive]
    decide +kernel
  have hsize' : bytes'.size ≤ ({} : Settings).archiveLimits.maxArchiveSize.bytes := by
    rw [size_writeArchive]
    decide +kernel
  exact ⟨⟨a', ha', hevents.symm.trans hsnapshot⟩,
    hextract (iff_of_true hsize hsize') noFiles "trace.zip" attempt⟩

end Sample

end BrowserTrace
