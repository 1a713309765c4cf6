import BrowserTrace.Diagnostics
import BrowserTrace.Payload

/-! # Records of events

A network event becomes a record when its request has a method and a URL that are not empty and its
response has a status. Bodies are taken from the archive of the event; a body that cannot be had is
left out. Warnings and errors on the console and uncaught errors of the page become console records
when they have a text.
-/

namespace BrowserTrace

/-- Limits on what is extracted for an attempt. -/
structure RecordLimits where
  /-- No more console records are kept. -/
  maxConsoleRecords : Nat := 50
  /-- Bodies are cut to this many characters. -/
  maxBodyChars : Nat := 2048
  /-- Texts of console records are cut to this many characters. -/
  maxTextChars : Nat := 2048
deriving DecidableEq, Repr

/-- The text, if there is one and it is not empty. -/
def nonempty? (text : Option String) : Option String := text.filter (· ≠ "")

namespace Snapshot

/-- The pointers to the bodies of the request and the response, in this order. -/
def payloadRefs (s : Snapshot) : List PayloadRef :=
  s.postData.toList ++ (s.response.bind (·.content)).toList

/-- The network record of a snapshot, with its bodies from an archive. -/
def record? (s : Snapshot) (a : Archive) (limits : RecordLimits) : Option NetworkRecord := do
  let method ← nonempty? s.method
  let url ← nonempty? s.url
  let response ← s.response
  let status ← response.status
  some {
    method
    url
    status
    durationMs := s.time
    resourceType := s.resourceType
    requestBody := s.postData.bind (a.payload? · limits.maxBodyChars)
    responseBody := response.content.bind (a.payload? · limits.maxBodyChars) }

end Snapshot

namespace Event

/-- Where the console record of an event comes from, and its whole text. -/
def consoleText? : Event → Option (ConsoleKind × String)
  | console "warning" text => (nonempty? text).map (.warning, ·)
  | console "error" text => (nonempty? text).map (.error, ·)
  | console _ _ => none
  | pageError text => (nonempty? text).map (.pageError, ·)
  | snapshot _ => none

/-- The console record of an event. -/
def consoleRecord? (e : Event) (limits : RecordLimits) : Option ConsoleRecord :=
  e.consoleText?.map fun (kind, text) => ⟨kind, Text.truncate limits.maxTextChars text⟩

/-- The network record of an event that was read from an archive. -/
def networkRecord? (e : Event) (a : Archive) (limits : RecordLimits) : Option NetworkRecord :=
  match e with
  | snapshot s => s.record? a limits
  | console .. | pageError _ => none

end Event

end BrowserTrace
