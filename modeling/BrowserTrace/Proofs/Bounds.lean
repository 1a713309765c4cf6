import BrowserTrace.Proofs.Archive.Contents
import BrowserTrace.Proofs.Extraction
import BrowserTrace.Proofs.Record
import BrowserTrace.Proofs.Settings

/-!
# Diagnostics are bounded

Whatever settings were loaded and whatever the archives hold, the diagnostics of an attempt stay
within the limits of the settings, and nothing in them is made up: a text that must not be empty is
not, and a body begins the contents of an entry of the archive whose event it belongs to.
-/

namespace BrowserTrace

namespace Extraction

variable {files : Files} {settings : Settings} {attachments : List Attachment}

/-- Every recognized event stands in an archive that was read. -/
theorem mem_recognized_iff {a : Archive} {e : Event} :
    (a, e) ∈ recognized files settings attachments ↔
      a ∈ opened files settings attachments ∧ e ∈ a.recognized := by
  rw [recognized, List.mem_flatMap]
  constructor
  · rintro ⟨a', ha', he⟩
    obtain ⟨e', he', heq⟩ := List.mem_map.mp he
    obtain ⟨rfl, rfl⟩ := Prod.mk.inj heq
    exact ⟨ha', he'⟩
  · rintro ⟨ha, he⟩
    exact ⟨a, ha, List.mem_map.mpr ⟨e, he, rfl⟩⟩

/-- A network record comes from a snapshot in an archive that was read. -/
theorem exists_snapshot_of_mem_networkOf {limits : RecordLimits} {r : NetworkRecord}
    (h : r ∈ Collector.networkOf limits (recognized files settings attachments)) :
    ∃ a ∈ opened files settings attachments, ∃ s, .snapshot s ∈ a.recognized ∧
      s.record? a limits = some r := by
  obtain ⟨⟨a, e⟩, hmem, hr⟩ := List.mem_filterMap.mp h
  obtain ⟨ha, he⟩ := mem_recognized_iff.mp hmem
  cases e with
  | snapshot s => exact ⟨a, ha, s, he, hr⟩
  | console => contradiction
  | pageError => contradiction

end Extraction

/-- **Diagnostics are bounded.**  Under settings that were loaded, from a file or as defaults, the
diagnostics of an attempt have no more console records than the limit; the text of each is not empty
and not longer than its limit.  Each network record is that of a snapshot in an archive that was
read; its method and URL are not empty, and each of its bodies is not longer than the limit and
begins the contents of an entry of that archive, under `resources/` and the hash of a pointer of the
snapshot. -/
theorem extract_bounded {files traces : Files} {path : Option String} {settings : Settings}
    (h : (Settings.load files path).result = .ok settings) (attempt : Attempt) :
    let limits := settings.recordLimits
    let diagnostics := (extract traces settings attempt).diagnostics
    diagnostics.consoleMessages.length ≤ limits.maxConsoleRecords ∧
      (∀ r ∈ diagnostics.consoleMessages, r.text ≠ "" ∧ r.text.length ≤ limits.maxTextChars) ∧
      ∀ r ∈ diagnostics.network, r.method ≠ "" ∧ r.url ≠ "" ∧
        ∃ a ∈ Extraction.opened traces settings attempt.attachments,
          ∃ s, .snapshot s ∈ a.recognized ∧ s.record? a limits = some r ∧
            ∀ body, r.requestBody = some body ∨ r.responseBody = some body →
              ∃ ref ∈ s.payloadRefs, a.BodyOf ref limits.maxBodyChars body := by
  intro limits diagnostics
  have htells := Collector.tells_attempt traces settings attempt
  have hconsole : diagnostics.consoleMessages = _ := htells.console_eq
  have hnetwork : diagnostics.network = _ := htells.network_eq
  refine ⟨?_, fun r hr ↦ ?_, fun r hr ↦ ?_⟩
  · rw [hconsole]
    exact List.length_take_le _ _
  · rw [hconsole] at hr
    obtain ⟨⟨a, e⟩, -, he⟩ := List.mem_filterMap.mp (List.mem_of_mem_take hr)
    exact Event.consoleRecord?_text (Settings.load_limited h).textChars_pos he
  · rw [hnetwork] at hr
    obtain ⟨a, ha, s, hs, hrecord⟩ := Extraction.exists_snapshot_of_mem_networkOf hr
    obtain ⟨hmethod, hurl, -⟩ := Snapshot.record?_eq_some hrecord
    exact ⟨hmethod, hurl, a, ha, s, hs, hrecord, fun body ↦ Snapshot.record?_body hrecord⟩

namespace Sample

/-- A file system in which every file is the archive. -/
def files : Files where
  info _ := .ok { size := (writeArchive members ByteArray.empty).size, isFile := true }
  read _ := .ok (writeArchive members ByteArray.empty)

/-- The archive is the only one that is opened for the sample attempt, and gives one record. -/
theorem network_extract : (extract files {} attempt).diagnostics.network = [record] := by
  obtain ⟨a, ha, hevents, hrecord⟩ := exists_archive
  have hsize : (writeArchive members ByteArray.empty).size ≤
      ({} : Settings).archiveLimits.maxArchiveSize.bytes := by
    rw [size_writeArchive]
    decide +kernel
  have hopen : Archive.load files "trace.zip" ({} : Settings).archiveLimits = .ok a :=
    (Archive.load_eq_ofBytes rfl rfl hsize).trans ha
  have htraces : Extraction.traces {} attempt.attachments = attempt.attachments := by decide
  have htrace := Extraction.openTrace?_eq_some files {}
    (t := .trace "application/zip" "trace.zip") rfl hopen
  have hopened : Extraction.opened files {} attempt.attachments = [a] := by
    rw [Extraction.opened, htraces, attempt, List.filterMap_cons_some htrace, List.filterMap_nil]
  rw [(extract_eq_flatMap_opened _ _ _).1, hopened]
  simp [Archive.network, ← Archive.scan_events, hevents, Event.networkRecord?, hrecord]

/-- With the default settings, the record of the sample has a body that begins the contents of an
entry. -/
theorem extract_bounded_sample :
    (Settings.load files none).result = .ok {} ∧
      (extract files {} attempt).diagnostics.network = [record] ∧
      ∃ a ∈ Extraction.opened files {} attempt.attachments, ∃ s,
        .snapshot s ∈ a.recognized ∧ ∃ ref ∈ s.payloadRefs, a.BodyOf ref 2048 "{}" := by
  have hload := Settings.load_none files
  have hmem : record ∈ (extract files {} attempt).diagnostics.network := by
    rw [network_extract]
    exact List.mem_singleton_self record
  refine ⟨hload, network_extract, ?_⟩
  obtain ⟨-, -, hbounded⟩ := @extract_bounded files files none {} hload attempt
  obtain ⟨-, -, a, ha, s, hs, -, hbodies⟩ := hbounded record hmem
  exact ⟨a, ha, s, hs, hbodies "{}" (.inr rfl)⟩

end Sample

end BrowserTrace
