import BrowserTrace.Attachment
import BrowserTrace.Collector
import BrowserTrace.Settings.Basic

/-! # Extraction

The diagnostics of an attempt are the records of those of its attachments that are trace archives,
in order. Extraction never fails: an archive that cannot be read gives no records, and the next one
is read all the same.
-/

namespace BrowserTrace

/-- What came of one attempt. -/
structure Extraction where
  diagnostics : Diagnostics
  stats : Stats
  notes : List Note
deriving DecidableEq, Repr

namespace Collector

/-- Adds what an attachment gives. -/
def addAttachment (files : Files) (settings : Settings) (c : Collector) (a : Attachment) :
    Collector :=
  if a.isArchive settings.archiveContentType then
    match a.path with
    | none => c.skipArchive (.attachmentWithoutPath a.name)
    | some path =>
      match Archive.load files path settings.archiveLimits with
      | .ok archive => c.addArchive archive
      | .error error => c.skipArchive (.unreadableArchive path error)
  else
    c

/-- What a collector came to. -/
def toExtraction (c : Collector) : Extraction :=
  { diagnostics := c.diagnostics, stats := c.stats, notes := c.notes.toList }

end Collector

/-- Extracts the diagnostics of an attempt. -/
def extract (files : Files) (settings : Settings) (attempt : Attempt) : Extraction :=
  (attempt.attachments.foldl (Collector.addAttachment files settings)
    (.empty settings.recordLimits)).finish.toExtraction

/-- Extracts the diagnostics of each attempt. -/
def extractAll (files : Files) (settings : Settings) (attempts : List Attempt) :
    List Diagnostics :=
  attempts.map fun attempt => (extract files settings attempt).diagnostics

end BrowserTrace
