import BrowserTrace.Log.Basic
import BrowserTrace.Record

/-! # Collecting the records of an attempt

A collector takes the events of one attempt, archive by archive. Network records are all kept; of
console records only the first ones are, up to a limit that holds across the archives, and no later
record takes the place of an earlier one. The collector counts what it saw and notes what it passed
over.
-/

namespace BrowserTrace

/-- What happened while the records of an attempt were collected. -/
structure Stats where
  archivesRead : Nat := 0
  archivesSkipped : Nat := 0
  entriesSkipped : Nat := 0
  eventsRecognized : Nat := 0
  networkRecords : Nat := 0
  consoleRecords : Nat := 0
  consoleRecordsDropped : Nat := 0
deriving DecidableEq, Repr

/-! ## Notes -/

/-- What was passed over, and what came of it. -/
inductive Note where
  | attachmentWithoutPath (name : String)
  | unreadableArchive (path : String) (error : ArchiveError)
  | unreadableEntry (error : EntryError)
  | unreadablePayload (name : String) (error : EntryError)
  | consoleRecordsDropped (count limit : Nat)
  | extracted (networkRecords consoleRecords : Nat)
deriving DecidableEq, Repr

namespace Note

/-- The text of a note. -/
def text : Note → String
  | attachmentWithoutPath name => s!"skipping trace attachment `{name}` with no path"
  | unreadableArchive path error =>
    s!"skipping unreadable trace archive `{path}`: {error.message}"
  | unreadableEntry error => s!"skipping unreadable trace entry: {error.message}"
  | unreadablePayload name error => s!"skipping unreadable resource `{name}`: {error.message}"
  | consoleRecordsDropped count limit =>
    s!"dropped {count} console records over the limit of {limit}"
  | extracted networkRecords consoleRecords =>
    s!"extracted {networkRecords} network records and {consoleRecords} console records"

/-- The topic of a note. -/
def topic : Note → String
  | unreadableEntry _ => "tracediag_extractor::events"
  | unreadablePayload .. => "tracediag_extractor::resources"
  | attachmentWithoutPath _ | unreadableArchive .. | consoleRecordsDropped .. | extracted .. =>
    "tracediag_extractor::aggregator"

/-- The names of the values that come with a note. -/
def extraFields : Note → List String
  | extracted .. => ["archives_read", "archives_skipped", "entries_skipped", "events_recognized"]
  | _ => []

/-- A note as a message of the log. -/
def toMessage (n : Note) : Log.Message :=
  { level := .debug, topic := n.topic, text := n.text, extraFields := n.extraFields }

end Note

/-! ## The collector -/

/-- The records of an attempt so far. -/
structure Collector where
  limits : RecordLimits
  network : Array NetworkRecord := #[]
  consoleMessages : Array ConsoleRecord := #[]
  stats : Stats := {}
  notes : Array Note := #[]

namespace Collector

/-- A collector without any records. -/
def empty (limits : RecordLimits) : Collector := { limits }

/-- The records so far. -/
def diagnostics (c : Collector) : Diagnostics :=
  { network := c.network.toList, consoleMessages := c.consoleMessages.toList }

/-- Adds a note. -/
def addNote (c : Collector) (n : Note) : Collector := { c with notes := c.notes.push n }

/-- Notes the bodies of a snapshot that are in the archive but cannot be read. -/
def notePayloads (c : Collector) (a : Archive) (s : Snapshot) : Collector :=
  (s.payloadRefs.filterMap a.unreadablePayload?).foldl
    (fun c (entry, error) => c.addNote (.unreadablePayload entry.name error)) c

/-- Adds the network record of a snapshot, if it has one. -/
def addSnapshot (c : Collector) (a : Archive) (s : Snapshot) : Collector :=
  match s.record? a c.limits with
  | some record =>
    let c := c.notePayloads a s
    { c with
      network := c.network.push record
      stats := { c.stats with networkRecords := c.stats.networkRecords + 1 } }
  | none => c

/-- Adds a console record, unless the limit is reached. -/
def addConsole (c : Collector) (record : ConsoleRecord) : Collector :=
  if c.consoleMessages.size < c.limits.maxConsoleRecords then
    { c with
      consoleMessages := c.consoleMessages.push record
      stats := { c.stats with consoleRecords := c.stats.consoleRecords + 1 } }
  else
    { c with
      stats := { c.stats with consoleRecordsDropped := c.stats.consoleRecordsDropped + 1 } }

/-- Adds the record of an event that was read from an archive. -/
def addEvent (c : Collector) (a : Archive) (e : Event) : Collector :=
  let c := { c with stats := { c.stats with eventsRecognized := c.stats.eventsRecognized + 1 } }
  match e with
  | .snapshot s => c.addSnapshot a s
  | .console .. | .pageError _ =>
    match e.consoleRecord? c.limits with
    | some record => c.addConsole record
    | none => c

/-- Adds the records of all events of an archive. -/
def addArchive (c : Collector) (a : Archive) : Collector :=
  let scan := a.scan
  let c := scan.unreadable.foldl (fun c error => c.addNote (.unreadableEntry error)) c
  let c := { c with
    stats := { c.stats with
      archivesRead := c.stats.archivesRead + 1
      entriesSkipped := c.stats.entriesSkipped + scan.unreadable.length } }
  scan.events.foldl (fun c e => c.addEvent a e) c

/-- Passes over an archive. -/
def skipArchive (c : Collector) (n : Note) : Collector :=
  let c := c.addNote n
  { c with stats := { c.stats with archivesSkipped := c.stats.archivesSkipped + 1 } }

/-- Notes what came of the attempt. -/
def finish (c : Collector) : Collector :=
  let c :=
    if c.stats.consoleRecordsDropped = 0 then c
    else c.addNote (.consoleRecordsDropped c.stats.consoleRecordsDropped
      c.limits.maxConsoleRecords)
  c.addNote (.extracted c.stats.networkRecords c.stats.consoleRecords)

end Collector

end BrowserTrace
