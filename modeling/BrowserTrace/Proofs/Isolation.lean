import BrowserTrace.Proofs.Archive.Unreadable

/-!
# Unreadable entries are isolated

Two runs are compared, on file systems that differ in the archive at one path (`Files.holding`):
in one of them a member of the archive cannot be read, and in the other it is left out, or is as it
was.  What the two archives give is compared in `Archive.OneMoreUnreadable` and
`Archive.LosesBodies`; here the comparison goes on through the attachments of an attempt, where all
that is collected is a concatenation or a sum over the archives that open.
-/

namespace BrowserTrace

/-! ## An archive in a file system -/

/-- The file system with these bytes in the file at a path. -/
def Files.holding (files : Files) (path : String) (bytes : ByteArray) : Files where
  info p := if p = path then .ok { size := bytes.size, isFile := true } else files.info p
  read p := if p = path then .ok bytes else files.read p

theorem Archive.load_holding {files : Files} {path : String} {bytes : ByteArray}
    {limits : ArchiveLimits} (hsize : bytes.size ≤ limits.maxArchiveSize.bytes) (p : String) :
    load (files.holding path bytes) p limits =
      if p = path then ofBytes bytes limits else load files p limits := by
  by_cases hp : p = path
  · rw [if_pos hp, load_eq_ofBytes (if_pos hp) (if_pos hp) hsize]
  · simp only [load, Files.holding, if_neg hp]

namespace Extraction

/-- The bytes are an archive that is read under these settings. -/
structure Opens (settings : Settings) (bytes : ByteArray) (a : Archive) : Prop where
  parsed : Archive.ofBytes bytes settings.archiveLimits = .ok a
  size_le : bytes.size ≤ settings.archiveLimits.maxArchiveSize.bytes

/-- The number of attachments that are traces at a path. -/
def countAt (settings : Settings) (path : String) (attachments : List Attachment) : Nat :=
  (traces settings attachments).countP fun t ↦ t.path = some path

/-- The network records of attachments, where an attachment at a path has these. -/
def networkWith (files : Files) (settings : Settings) (path : String)
    (attachments : List Attachment) (here : List NetworkRecord) : List NetworkRecord :=
  (traces settings attachments).flatMap fun t ↦
    if t.path = some path then here
    else (openTrace? files settings t).toList.flatMap (·.network settings.recordLimits)

section Holding

variable {files : Files} {settings : Settings} {path : String} {bytes bytes' : ByteArray}
  {a a' : Archive} {attachments : List Attachment}

theorem openTrace?_holding (h : Opens settings bytes a) (t : Attachment) :
    openTrace? (files.holding path bytes) settings t =
      if t.path = some path then some a else openTrace? files settings t := by
  rw [openTrace?, openTrace?]
  cases t.path with
  | none => rfl
  | some p =>
    rw [Option.bind_some, Archive.load_holding h.size_le]
    by_cases hp : p = path
    · rw [if_pos hp, if_pos (congrArg some hp), h.parsed]
      rfl
    · rw [if_neg hp, if_neg (hp ∘ Option.some.inj), Option.bind_some]

/-- What is concatenated over the archives that open. -/
theorem flatMap_opened_holding {β : Type} (h : Opens settings bytes a) (f : Archive → List β) :
    (opened (files.holding path bytes) settings attachments).flatMap f =
      (traces settings attachments).flatMap fun t ↦
        if t.path = some path then f a else (openTrace? files settings t).toList.flatMap f := by
  rw [opened, List.filterMap_eq_flatMap_toList, List.flatMap_assoc]
  congr 1
  funext t
  rw [openTrace?_holding h]
  split
  · exact List.flatMap_singleton f a
  · rfl

/-- What is concatenated is the same where the two archives give the same. -/
theorem flatMap_opened_congr {β : Type} (h : Opens settings bytes a) (h' : Opens settings bytes' a')
    (f : Archive → List β) (hf : f a' = f a) :
    (opened (files.holding path bytes') settings attachments).flatMap f =
      (opened (files.holding path bytes) settings attachments).flatMap f := by
  rw [flatMap_opened_holding h, flatMap_opened_holding h', hf]

/-- What is summed up grows by the difference for each attachment at the path. -/
theorem sum_opened_holding (files : Files) (path : String) (attachments : List Attachment)
    (h : Opens settings bytes a) (h' : Opens settings bytes' a') (f : Archive → Nat) {k : Nat}
    (hf : f a' = f a + k) :
    ((opened (files.holding path bytes') settings attachments).map f).sum =
      ((opened (files.holding path bytes) settings attachments).map f).sum +
        k * countAt settings path attachments := by
  rw [opened, opened, countAt]
  induction traces settings attachments with
  | nil => rfl
  | cons t ts ih =>
    rw [List.filterMap_cons, List.filterMap_cons, List.countP_cons, openTrace?_holding h,
      openTrace?_holding h']
    by_cases ht : t.path = some path
    · simp only [ht, if_true, List.map_cons, List.sum_cons, ih, hf, decide_true, Nat.mul_succ]
      omega
    · simp only [ht, if_false, decide_false, Bool.false_eq_true, Nat.add_zero]
      cases openTrace? files settings t with
      | none => exact ih
      | some b =>
        simp only [List.map_cons, List.sum_cons, ih, Nat.add_assoc]

theorem sum_opened_congr (files : Files) (path : String) (attachments : List Attachment)
    (h : Opens settings bytes a) (h' : Opens settings bytes' a') (f : Archive → Nat)
    (hf : f a' = f a) :
    ((opened (files.holding path bytes') settings attachments).map f).sum =
      ((opened (files.holding path bytes) settings attachments).map f).sum := by
  rw [sum_opened_holding files path attachments h h' f (k := 0) hf, Nat.zero_mul, Nat.add_zero]

/-- As many archives open, and as many do not. -/
theorem count_opened_holding (files : Files) (path : String) (attachments : List Attachment)
    (h : Opens settings bytes a) (h' : Opens settings bytes' a') :
    (historyOf (files.holding path bytes') settings attachments).read.length =
        (historyOf (files.holding path bytes) settings attachments).read.length ∧
      (historyOf (files.holding path bytes') settings attachments).skipped =
        (historyOf (files.holding path bytes) settings attachments).skipped := by
  have hsome (t : Attachment) :
      (openTrace? (files.holding path bytes') settings t).isSome =
        (openTrace? (files.holding path bytes) settings t).isSome := by
    rw [openTrace?_holding h, openTrace?_holding h']
    split <;> rfl
  constructor
  · change (opened _ _ _).length = (opened _ _ _).length
    rw [opened, opened, List.length_filterMap_eq_countP, List.length_filterMap_eq_countP]
    simp only [hsome]
  · change (traces _ _).countP _ = (traces _ _).countP _
    simp only [← Option.not_isSome, hsome]

end Holding

end Extraction

/-! ## Two runs -/

section Runs

open Extraction

variable {settings : Settings} {bytes bytes' : ByteArray} {a a' : Archive}

/-- Two archives with the same events and equally many records lead to the same counts, apart from
unreadable entries. -/
theorem stats_holding (h : Opens settings bytes a) (h' : Opens settings bytes' a') {k : Nat}
    (hrecognized : a'.recognized = a.recognized)
    (hnetwork : (a'.network settings.recordLimits).length =
      (a.network settings.recordLimits).length)
    (hunreadable : a'.scan.unreadable.length = a.scan.unreadable.length + k)
    (files : Files) (path : String) (attempt : Attempt) :
    (extract (files.holding path bytes') settings attempt).stats =
      { (extract (files.holding path bytes) settings attempt).stats with
        entriesSkipped := (extract (files.holding path bytes) settings attempt).stats.entriesSkipped
          + k * countAt settings path attempt.attachments } := by
  have hconsole : a'.console settings.recordLimits = a.console settings.recordLimits := by
    rw [Archive.console, Archive.console, hrecognized]
  have hevents : (recognized (files.holding path bytes') settings attempt.attachments).length =
      (recognized (files.holding path bytes) settings attempt.attachments).length := by
    rw [length_recognized, length_recognized]
    exact sum_opened_congr _ _ _ h h' _ (congrArg List.length hrecognized)
  have hnetworkOf :
      (Collector.networkOf settings.recordLimits
        (recognized (files.holding path bytes') settings attempt.attachments)).length =
      (Collector.networkOf settings.recordLimits
        (recognized (files.holding path bytes) settings attempt.attachments)).length := by
    rw [length_networkOf_recognized, length_networkOf_recognized]
    exact sum_opened_congr _ _ _ h h' _ hnetwork
  have hconsoleOf :
      Collector.consoleOf settings.recordLimits
        (recognized (files.holding path bytes') settings attempt.attachments) =
      Collector.consoleOf settings.recordLimits
        (recognized (files.holding path bytes) settings attempt.attachments) := by
    rw [consoleOf_recognized, consoleOf_recognized]
    exact flatMap_opened_congr h h' _ hconsole
  have hskippedEntries := sum_opened_holding files path attempt.attachments h h'
    (fun a ↦ a.scan.unreadable.length) hunreadable
  obtain ⟨hread, hskipped⟩ := count_opened_holding files path attempt.attachments h h'
  rw [(extract_eq_flatMap_opened _ _ _).2, (extract_eq_flatMap_opened _ _ _).2]
  refine (Stats.mk.injEq ..).mpr ⟨hread, hskipped, hskippedEntries, hevents, hnetworkOf, ?_, ?_⟩
  · exact congrArg (fun records ↦ (records.take settings.recordLimits.maxConsoleRecords).length)
      hconsoleOf
  · exact congrArg (fun records ↦ (records.drop settings.recordLimits.maxConsoleRecords).length)
      hconsoleOf

variable (files : Files) (path : String) (attempt : Attempt)

/-- One more unreadable entry changes one count, and nothing that is extracted. -/
theorem extract_holding_oneMoreUnreadable (h : Opens settings bytes a)
    (h' : Opens settings bytes' a') (hmore : a.OneMoreUnreadable a') :
    let before := extract (files.holding path bytes) settings attempt
    let after := extract (files.holding path bytes') settings attempt
    after.diagnostics = before.diagnostics ∧ after.stats = { before.stats with
      entriesSkipped :=
        before.stats.entriesSkipped + countAt settings path attempt.attachments } := by
  intro before after
  have hnetwork := hmore.network_eq settings.recordLimits
  have hconsole : a'.console settings.recordLimits = a.console settings.recordLimits := by
    rw [Archive.console, Archive.console, hmore.recognized_eq]
  constructor
  · rw [(extract_eq_flatMap_opened _ _ _).1, (extract_eq_flatMap_opened _ _ _).1,
      flatMap_opened_congr h h' (·.network _) hnetwork,
      flatMap_opened_congr h h' (·.console _) hconsole]
  · have hstats := stats_holding h h' hmore.recognized_eq (congrArg List.length hnetwork)
      hmore.unreadable_eq files path attempt
    rwa [Nat.one_mul] at hstats

/-- Bodies that are lost change nothing but the records that had them. -/
theorem extract_holding_losesBodies {name : String} (h : Opens settings bytes a)
    (h' : Opens settings bytes' a') (hloses : a.LosesBodies name a') :
    let limits := settings.recordLimits
    let before := extract (files.holding path bytes) settings attempt
    let after := extract (files.holding path bytes') settings attempt
    let networkWith := networkWith files settings path attempt.attachments
    after.stats = before.stats ∧
      after.diagnostics.consoleMessages = before.diagnostics.consoleMessages ∧
      before.diagnostics.network = networkWith (a.network limits) ∧
      after.diagnostics.network = networkWith (a.networkWithout name limits) := by
  intro limits before after networkWith
  have hconsole : a'.console limits = a.console limits := by
    rw [Archive.console, Archive.console, hloses.recognized_eq]
  have hlength : (a'.network limits).length = (a.network limits).length := by
    rw [hloses.network_eq, Archive.length_networkWithout]
  refine ⟨?_, ?_, ?_, ?_⟩
  · have hstats := stats_holding h h' (k := 0) hloses.recognized_eq hlength
      (congrArg (fun scan ↦ scan.unreadable.length) hloses.scan_eq) files path attempt
    rwa [Nat.zero_mul, Nat.add_zero] at hstats
  · rw [(extract_eq_flatMap_opened _ _ _).1, (extract_eq_flatMap_opened _ _ _).1,
      flatMap_opened_congr h h' (·.console _) hconsole]
  · rw [(extract_eq_flatMap_opened _ _ _).1]
    exact flatMap_opened_holding h _
  · rw [(extract_eq_flatMap_opened _ _ _).1, ← hloses.network_eq]
    exact flatMap_opened_holding h' _

end Runs

/-- **Unreadable entries are isolated.**  A member is replaced by one of the same name that cannot
be read, for whatever reason; the archive is still read.  If the member was one with events, the
archive gives what it would give without the member, and has one unreadable entry more.  If it was a
resource, and the only entry of its name, the archive gives what it gave before, apart from the
bodies that stood in the resource.  So it is with the diagnostics and the counts of every attempt
some of whose attachments are the archive, as long as the archive is within the limit on its
size. -/
theorem unreadable_member_isolated {settings : Settings} {members : List Member} {i : Nat}
    (hi : i < members.length) {bad : Member} (hname : bad.name = members[i].name)
    (hmembers : Representable members ByteArray.empty)
    (hbad : Representable (members.set i bad) ByteArray.empty)
    (hunreadable : bad.Unreadable settings.archiveLimits) :
    let limits := settings.archiveLimits
    let name := members[i].name
    let whole := writeArchive members ByteArray.empty
    let rest := writeArchive (members.eraseIdx i) ByteArray.empty
    let spoiled := writeArchive (members.set i bad) ByteArray.empty
    ∃ a', Archive.ofBytes spoiled limits = .ok a' ∧
      (¬ resourcePrefix.toList <+: name.toList → name.toList.getLast? ≠ some '/' →
        ∃ a, Archive.ofBytes rest limits = .ok a ∧ a.OneMoreUnreadable a' ∧
          (spoiled.size ≤ limits.maxArchiveSize.bytes → ∀ (files : Files) path attempt,
            let before := extract (files.holding path rest) settings attempt
            let after := extract (files.holding path spoiled) settings attempt
            after.diagnostics = before.diagnostics ∧ after.stats = { before.stats with
              entriesSkipped := before.stats.entriesSkipped +
                Extraction.countAt settings path attempt.attachments })) ∧
      (resourcePrefix.toList <+: name.toList →
        (∀ j (hj : j < members.length), members[j].name = name → j = i) →
        ∃ a, Archive.ofBytes whole limits = .ok a ∧ a.LosesBodies name a' ∧
          (spoiled.size ≤ limits.maxArchiveSize.bytes →
            whole.size ≤ limits.maxArchiveSize.bytes → ∀ (files : Files) path attempt,
            let before := extract (files.holding path whole) settings attempt
            let after := extract (files.holding path spoiled) settings attempt
            let networkWith := Extraction.networkWith files settings path attempt.attachments
            after.stats = before.stats ∧
              after.diagnostics.consoleMessages = before.diagnostics.consoleMessages ∧
              before.diagnostics.network = networkWith (a.network settings.recordLimits) ∧
              after.diagnostics.network =
                networkWith (a.networkWithout name settings.recordLimits))) := by
  intro limits name whole rest spoiled
  obtain ⟨a', error, ha', hc'⟩ := exists_contents_set hi hbad hunreadable
  rw [hname] at hc'
  refine ⟨a', ha', fun hresource hdirectory ↦ ?_, fun hresource hunique ↦ ?_⟩
  · obtain ⟨a, ha, hc⟩ := exists_contents_eraseIdx (i := i) hmembers limits
    have hmore : a.OneMoreUnreadable a' :=
      Archive.oneMoreUnreadable_of_contents (namesEvents_iff.mpr ⟨hresource, hdirectory⟩) hc hc'
    refine ⟨a, ha, hmore, fun hsize files path attempt ↦ ?_⟩
    have hrest : rest.size ≤ spoiled.size := by
      refine size_writeArchive_le_of_sublist ?_ _
      rw [← List.eraseIdx_set_eq (a := bad)]
      exact List.eraseIdx_sublist _ i
    exact extract_holding_oneMoreUnreadable files path attempt ⟨ha, Nat.le_trans hrest hsize⟩
      ⟨ha', hsize⟩ hmore
  · obtain ⟨a, ha, hc⟩ := exists_contents_getElem hi hmembers limits
    have hxs : ∀ c ∈ (members.take i).map (Member.content limits), c.1 ≠ name := by
      intro c hmem heq
      obtain ⟨m, hm, rfl⟩ := List.mem_map.mp hmem
      obtain ⟨j, hj, rfl⟩ := List.mem_take_iff_getElem.mp hm
      have hji := hunique j (by omega) heq
      omega
    have hn : ¬ namesEvents name := fun h ↦ (namesEvents_iff.mp h).1 hresource
    have hloses : a.LosesBodies name a' := Archive.losesBodies_of_contents hn hxs hc hc'
    refine ⟨a, ha, hloses, fun hsize hwhole files path attempt ↦ ?_⟩
    exact extract_holding_losesBodies files path attempt ⟨ha, hwhole⟩ ⟨ha', hsize⟩ hloses

namespace Sample

/-- A member with events whose data are said to be encrypted. -/
def encrypted : Member := { Member.stored "1.trace" ByteArray.empty with flags := 1 }

/-- The body of the response, with a method that nobody knows. -/
def unknownMethod : Member := { Member.stored "resources/1" "{}".toByteArray with method := 9 }

/-- A file system without any files. -/
def noFiles : Files where
  info _ := .error .noSuchFile
  read _ := .error .noSuchFile

/-- An encrypted member with events counts as one more unreadable entry; a body that cannot be
decompressed is missing in its record. -/
theorem unreadable_member_isolated_sample :
    (let rest := writeArchive (members.eraseIdx 1) ByteArray.empty
      let spoiled := writeArchive (members.set 1 encrypted) ByteArray.empty
      let before := extract (noFiles.holding "trace.zip" rest) {} attempt
      let after := extract (noFiles.holding "trace.zip" spoiled) {} attempt
      after.diagnostics = before.diagnostics ∧
        after.stats = { before.stats with
          entriesSkipped := before.stats.entriesSkipped + 1 }) ∧
      ∃ a, Archive.ofBytes (writeArchive (members.set 2 unknownMethod) ByteArray.empty) {} = .ok a ∧
        a.scan.events = [.snapshot snapshot] ∧
        snapshot.record? a {} = some { record with responseBody := none } := by
  have hset₁ : Representable (members.set 1 encrypted) ByteArray.empty :=
    ⟨by decide, by decide +kernel, by decide +kernel, by decide, by decide +kernel,
      by decide +kernel⟩
  have hset₂ : Representable (members.set 2 unknownMethod) ByteArray.empty :=
    ⟨by decide, by decide +kernel, by decide +kernel, by decide, by decide +kernel,
      by decide +kernel⟩
  have hi₁ : 1 < members.length := by decide
  have hevent : ¬ resourcePrefix.toList <+: members[1].name.toList := by decide +revert
  have hfile : members[1].name.toList.getLast? ≠ some '/' := by decide +revert
  have hi₂ : 2 < members.length := by decide
  have hbody : resourcePrefix.toList <+: members[2].name.toList := by decide +revert
  have honly : ∀ j (hj : j < members.length), members[j].name = members[2].name → j = 2 := by
    decide +revert
  have hname₁ : encrypted.name = members[1].name := rfl
  have hname₂ : unknownMethod.name = members[2].name := rfl
  have hencrypted : encrypted.Unreadable ({} : Settings).archiveLimits := .encrypted rfl
  have hunknown : unknownMethod.Unreadable ({} : Settings).archiveLimits :=
    .unsupported (by decide) (by decide)
  constructor
  · obtain ⟨a', -, hevents, -⟩ :=
      unreadable_member_isolated hi₁ hname₁ representable_members hset₁ hencrypted
    obtain ⟨a, -, -, hextract⟩ := hevents hevent hfile
    have hsize : (writeArchive (members.set 1 encrypted) ByteArray.empty).size ≤
        ({} : Settings).archiveLimits.maxArchiveSize.bytes := by
      rw [size_writeArchive]
      decide +kernel
    obtain ⟨hdiagnostics, hstats⟩ := hextract hsize noFiles "trace.zip" attempt
    have hcount : Extraction.countAt {} "trace.zip" attempt.attachments = 1 := by decide
    rw [hcount] at hstats
    exact ⟨hdiagnostics, hstats⟩
  · obtain ⟨a', ha', -, hresource⟩ :=
      unreadable_member_isolated hi₂ hname₂ representable_members hset₂ hunknown
    obtain ⟨a, ha, hloses, -⟩ := hresource hbody honly
    obtain ⟨a₀, ha₀, hevents, hrecord⟩ := exists_archive
    obtain rfl : a = a₀ := Except.ok.inj (ha.symm.trans ha₀)
    refine ⟨a', ha', ?_, ?_⟩
    · rw [hloses.scan_eq, hevents]
    · rw [hloses.record_eq, hrecord]
      rfl

end Sample

end BrowserTrace
