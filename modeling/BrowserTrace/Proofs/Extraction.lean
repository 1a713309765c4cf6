import BrowserTrace.Extraction
import BrowserTrace.Proofs.Collector

/-!
# Extraction is a filter, a concatenation and a cut

Extraction threads one collector through the attachments of an attempt, the entries of each archive
and the lines of each entry.  This file says what comes of it without a state: the attachments of
the right type (`traces`), the archives of those that open (`opened`), the events of all of these in
order (`recognized`), and the records of the events, of which the console records are cut at their
limit. The history of a collector after some attachments is computed from the attachments alone
(`historyOf`), and each attachment takes it to the history of one more (`Tells.addAttachment`).
-/

namespace BrowserTrace

/-! ## Archives -/

namespace Archive

/-- The entries that are neither resources nor directories. -/
def eventFiles (a : Archive) : List Entry :=
  a.entries.filter fun e ↦ !e.isResource && !e.isDirectory

/-- The events of the entries that can be read, in the order of the entries and of their lines. -/
def recognized (a : Archive) : List Event :=
  a.eventFiles.flatMap fun e ↦
    match a.readText e with
    | .ok text => Event.ofText text.toList
    | .error _ => []

/-- The entries that should hold events but cannot be read. -/
def unreadableFiles (a : Archive) : List Entry :=
  a.eventFiles.filter fun e ↦ !(a.readText e).isOk

theorem eventEntries_eq (a : Archive) : a.eventEntries = a.eventFiles := rfl

theorem scan_events (a : Archive) : a.scan.events = a.recognized := by
  simp only [scan, recognized, List.flatMap_map]
  congr 1
  funext e
  cases hr : a.readText e with
  | ok text => simp [eventsOf, hr, Except.map, Except.toOption]
  | error error => simp [eventsOf, hr, Except.map, Except.toOption]

theorem length_scan_unreadable (a : Archive) :
    a.scan.unreadable.length = a.unreadableFiles.length := by
  simp only [scan, unreadableFiles, eventEntries_eq]
  induction a.eventFiles with
  | nil => rfl
  | cons e es ih =>
    cases hr : a.readText e with
    | ok text => simpa [eventsOf, hr, Except.map, Except.isOk, Except.toBool] using ih
    | error error => simpa [eventsOf, hr, Except.map, Except.isOk, Except.toBool] using ih

/-- A file that is not too large is read as it is. -/
theorem load_eq_ofBytes {files : Files} {path : String} {limits : ArchiveLimits} {info : FileInfo}
    {data : ByteArray} (hinfo : files.info path = .ok info) (hread : files.read path = .ok data)
    (hsize : info.size ≤ limits.maxArchiveSize.bytes) :
    load files path limits = ofBytes data limits := by
  simp only [load, hinfo, hread, if_neg (Nat.not_lt.mpr hsize)]

/-- The network records of the events of an archive. -/
def network (a : Archive) (limits : RecordLimits) : List NetworkRecord :=
  a.recognized.filterMap fun e ↦ e.networkRecord? a limits

/-- The console records of the events of an archive. -/
def console (a : Archive) (limits : RecordLimits) : List ConsoleRecord :=
  a.recognized.filterMap fun e ↦ e.consoleRecord? limits

end Archive

/-! ## Attachments -/

namespace Extraction

section Attachments

variable (files : Files) (settings : Settings) (attachments : List Attachment)

/-- The attachments that are trace archives by their content type. -/
def traces : List Attachment :=
  attachments.filter fun t ↦ t.contentType == settings.archiveContentType

/-- The archive of an attachment, if it has a path and the file there opens. -/
def openTrace? (t : Attachment) : Option Archive :=
  t.path.bind fun path ↦ (Archive.load files path settings.archiveLimits).toOption

/-- The archives that are read. -/
def opened : List Archive := (traces settings attachments).filterMap (openTrace? files settings)

/-- The events of all archives, each with its archive. -/
def recognized : List (Archive × Event) :=
  (opened files settings attachments).flatMap fun a ↦ a.recognized.map (a, ·)

/-- The history that attachments lead to. -/
def historyOf : Collector.History where
  read := opened files settings attachments
  skipped := (traces settings attachments).countP fun t ↦ (openTrace? files settings t).isNone
  events := recognized files settings attachments

theorem openTrace?_eq_some {t : Attachment} {path : String} {a : Archive}
    (hpath : t.path = some path) (h : Archive.load files path settings.archiveLimits = .ok a) :
    openTrace? files settings t = some a := by
  rw [openTrace?, hpath, Option.bind_some, h]
  rfl

/-- Every trace archive is either read or passed over. -/
theorem length_opened_add_countP :
    (opened files settings attachments).length +
      (traces settings attachments).countP (fun t ↦ (openTrace? files settings t).isNone) =
    (traces settings attachments).length := by
  rw [opened]
  induction traces settings attachments with
  | nil => rfl
  | cons t ts ih =>
    rw [List.countP_cons, List.length_cons, ← ih]
    cases ho : openTrace? files settings t with
    | none =>
      rw [List.filterMap_cons_none ho]
      rfl
    | some a =>
      rw [List.filterMap_cons_some ho, List.length_cons]
      exact Nat.succ_add_eq_add_succ ..

variable {files settings attachments}

/-! One more attachment: of another type, one that opens, or one that does not. -/

theorem historyOf_concat_other {t : Attachment}
    (ht : (t.contentType == settings.archiveContentType) = false) :
    historyOf files settings (attachments ++ [t]) = historyOf files settings attachments := by
  have htraces : traces settings (attachments ++ [t]) = traces settings attachments := by
    simp [traces, List.filter_append, ht]
  simp only [historyOf, recognized, opened, htraces]

theorem historyOf_concat_opened {t : Attachment} {a : Archive}
    (ht : (t.contentType == settings.archiveContentType) = true)
    (ho : openTrace? files settings t = some a) :
    historyOf files settings (attachments ++ [t]) =
      { historyOf files settings attachments with
        read := (historyOf files settings attachments).read ++ [a]
        events := (historyOf files settings attachments).events ++ a.recognized.map (a, ·) } := by
  have htraces : traces settings (attachments ++ [t]) = traces settings attachments ++ [t] := by
    simp [traces, List.filter_append, ht]
  simp [historyOf, recognized, opened, htraces, ho]

theorem historyOf_concat_skipped {t : Attachment}
    (ht : (t.contentType == settings.archiveContentType) = true)
    (ho : openTrace? files settings t = none) :
    historyOf files settings (attachments ++ [t]) =
      { historyOf files settings attachments with
        skipped := (historyOf files settings attachments).skipped + 1 } := by
  have htraces : traces settings (attachments ++ [t]) = traces settings attachments ++ [t] := by
    simp [traces, List.filter_append, ht]
  simp [historyOf, recognized, opened, htraces, ho]

end Attachments

end Extraction

/-! ## The collector -/

namespace Collector

open Extraction

variable {files : Files} {settings : Settings} {c : Collector} {attachments : List Attachment}

/-- One more attachment leads to the history of one more attachment. -/
theorem Tells.addAttachment
    (hc : Tells settings.recordLimits c (historyOf files settings attachments)) (t : Attachment) :
    Tells settings.recordLimits (c.addAttachment files settings t)
      (historyOf files settings (attachments ++ [t])) := by
  unfold Collector.addAttachment
  split
  · next ht =>
    split
    · next hp =>
      rw [historyOf_concat_skipped ht (by rw [openTrace?, hp]; rfl)]
      exact hc.skipArchive _
    · next path hp =>
      split
      · next a hl =>
        rw [historyOf_concat_opened ht (a := a) (by simp [openTrace?, hp, hl, Except.toOption]),
          ← a.scan_events]
        exact hc.addArchive a
      · next error hl =>
        rw [historyOf_concat_skipped ht (by simp [openTrace?, hp, hl, Except.toOption])]
        exact hc.skipArchive _
  · next ht =>
    rw [historyOf_concat_other (by simpa [Attachment.isArchive] using ht)]
    exact hc

/-- A run of attachments. -/
theorem Tells.addAttachments
    (hc : Tells settings.recordLimits c (historyOf files settings attachments))
    (more : List Attachment) :
    Tells settings.recordLimits (more.foldl (Collector.addAttachment files settings) c)
      (historyOf files settings (attachments ++ more)) := by
  induction more generalizing c attachments with
  | nil =>
    rw [List.append_nil]
    exact hc
  | cons t ts ih =>
    have hrest := ih (hc.addAttachment t)
    rw [List.append_assoc] at hrest
    exact hrest

end Collector

/-! ## The result -/

theorem Extraction.historyOf_nil (files : Files) (settings : Settings) :
    historyOf files settings [] = {} := rfl

/-- The collector of an attempt is in the state that the history of its attachments leads to. -/
theorem Collector.tells_attempt (files : Files) (settings : Settings) (attempt : Attempt) :
    Tells settings.recordLimits
      (attempt.attachments.foldl (Collector.addAttachment files settings)
        (.empty settings.recordLimits)).finish
      (Extraction.historyOf files settings attempt.attachments) := by
  have hstart := tells_empty settings.recordLimits
  rw [← Extraction.historyOf_nil files settings] at hstart
  exact (hstart.addAttachments attempt.attachments).finish

/-! ## Lists and counts, archive by archive -/

namespace Extraction

section Collected

variable (files : Files) (settings : Settings) (attachments : List Attachment)

theorem networkOf_recognized (limits : RecordLimits) :
    Collector.networkOf limits (recognized files settings attachments) =
      (opened files settings attachments).flatMap (·.network limits) := by
  rw [Collector.networkOf, recognized, List.filterMap_flatMap]
  congr 1
  funext a
  exact List.filterMap_map

theorem consoleOf_recognized (limits : RecordLimits) :
    Collector.consoleOf limits (recognized files settings attachments) =
      (opened files settings attachments).flatMap (·.console limits) := by
  rw [Collector.consoleOf, recognized, List.filterMap_flatMap]
  congr 1
  funext a
  exact List.filterMap_map

theorem length_recognized :
    (recognized files settings attachments).length =
      ((opened files settings attachments).map fun a ↦ a.recognized.length).sum := by
  rw [recognized, List.length_flatMap]
  simp only [List.length_map]

theorem length_networkOf_recognized (limits : RecordLimits) :
    (Collector.networkOf limits (recognized files settings attachments)).length =
      ((opened files settings attachments).map fun a ↦ (a.network limits).length).sum := by
  rw [networkOf_recognized, List.length_flatMap]

end Collected

end Extraction

/-- What an attempt comes to. -/
theorem extract_eq_flatMap_opened (files : Files) (settings : Settings) (attempt : Attempt) :
    let limits := settings.recordLimits
    let archives := Extraction.opened files settings attempt.attachments
    (extract files settings attempt).diagnostics =
        { network := archives.flatMap (·.network limits)
          consoleMessages :=
            (archives.flatMap (·.console limits)).take limits.maxConsoleRecords } ∧
      (extract files settings attempt).stats =
        (Extraction.historyOf files settings attempt.attachments).stats limits := by
  intro limits archives
  have htells := Collector.tells_attempt files settings attempt
  constructor
  · rw [← Extraction.networkOf_recognized, ← Extraction.consoleOf_recognized]
    exact congrArg₂ Diagnostics.mk htells.network_eq htells.console_eq
  · exact htells.stats_eq

/-- The diagnostics depend on the archives that open, and on nothing else. -/
theorem diagnostics_eq_of_opened_eq {files files' : Files} {settings : Settings}
    {attempt attempt' : Attempt}
    (h : Extraction.opened files settings attempt.attachments =
      Extraction.opened files' settings attempt'.attachments) :
    (extract files settings attempt).diagnostics =
      (extract files' settings attempt').diagnostics := by
  rw [(extract_eq_flatMap_opened _ _ _).1, (extract_eq_flatMap_opened _ _ _).1, h]

/-- Extraction in closed form.  The network records are those of all recognized events, without a
limit and each with the bodies from its own archive; the console records are the first of all that
there are; and the counts are the lengths of the lists that they count. -/
theorem extract_eq_filter_concat_take (files : Files) (settings : Settings) (attempt : Attempt) :
    let limits := settings.recordLimits
    let traces := Extraction.traces settings attempt.attachments
    let archives := Extraction.opened files settings attempt.attachments
    let events := Extraction.recognized files settings attempt.attachments
    let networkRecords := events.filterMap fun (a, e) ↦ e.networkRecord? a limits
    let consoleRecords := events.filterMap fun (_, e) ↦ e.consoleRecord? limits
    let result := extract files settings attempt
    result.diagnostics.network = networkRecords ∧
      result.diagnostics.consoleMessages = consoleRecords.take limits.maxConsoleRecords ∧
      result.stats.archivesRead = archives.length ∧
      result.stats.archivesRead + result.stats.archivesSkipped = traces.length ∧
      result.stats.entriesSkipped = (archives.map fun a ↦ a.unreadableFiles.length).sum ∧
      result.stats.eventsRecognized = events.length ∧
      result.stats.networkRecords = result.diagnostics.network.length ∧
      result.stats.consoleRecords = result.diagnostics.consoleMessages.length ∧
      result.stats.consoleRecords + result.stats.consoleRecordsDropped =
        consoleRecords.length := by
  intro limits traces archives events networkRecords consoleRecords result
  have htells := Collector.tells_attempt files settings attempt
  have hnetwork : result.diagnostics.network = networkRecords := htells.network_eq
  have hconsole : result.diagnostics.consoleMessages =
      consoleRecords.take limits.maxConsoleRecords := htells.console_eq
  have hstats : result.stats =
      (Extraction.historyOf files settings attempt.attachments).stats limits := htells.stats_eq
  have hunreadable : (archives.map fun a ↦ a.scan.unreadable.length) =
      archives.map fun a ↦ a.unreadableFiles.length := by
    congr 1
    funext a
    exact a.length_scan_unreadable
  refine ⟨hnetwork, hconsole, ?_⟩
  rw [hstats, hnetwork, hconsole]
  refine ⟨rfl, ?_, ?_, rfl, rfl, rfl, ?_⟩
  · exact Extraction.length_opened_add_countP files settings attempt.attachments
  · exact congrArg List.sum hunreadable
  · change (consoleRecords.take _).length + (consoleRecords.drop _).length = consoleRecords.length
    rw [← List.length_append, List.take_append_drop]

end BrowserTrace
