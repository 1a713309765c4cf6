import BrowserTrace.Archive.Basic
import BrowserTrace.Record

/-! # Settings

What a user can set: which attachments are trace archives, and the limits on reading archives and on
extracting records.
-/

namespace BrowserTrace

/-- The settings of a run. -/
structure Settings where
  /-- The exact content type of attachments that are trace archives. -/
  archiveContentType : String := "application/zip"
  recordLimits : RecordLimits := {}
  archiveLimits : ArchiveLimits := {}
deriving DecidableEq, Repr

end BrowserTrace
