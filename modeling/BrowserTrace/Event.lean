import BrowserTrace.Archive.Basic
import BrowserTrace.Json.Reader
import BrowserTrace.Text.Blank

/-! # Trace events

An entry of a trace archive holds one JSON value a line. Three shapes are events: a network request
with its response, a message on the console, and an uncaught error of the page. Every other line is
passed over and never affects the lines around it. Of a request each part is read on its own: a
part of the wrong type counts as absent.
-/

namespace BrowserTrace

/-- A pointer to a payload body that lies in the archive. -/
structure PayloadRef where
  mediaType : Option String
  contentHash : Option String
deriving DecidableEq, Repr

/-- The response half of a network event. -/
structure Response where
  status : Option Int
  content : Option PayloadRef
deriving DecidableEq, Repr

/-- A network request, and its response if there was one. -/
structure Snapshot where
  time : Option Number.Binary64
  resourceType : Option String
  method : Option String
  url : Option String
  postData : Option PayloadRef
  response : Option Response
deriving DecidableEq, Repr

/-- A trace event. -/
inductive Event where
  | snapshot (s : Snapshot)
  | console (messageType : String) (text : Option String)
  | pageError (text : Option String)
deriving DecidableEq, Repr

/-! ## Reading the parts -/

/-- The text of an optional field: absent and null are no text, any other type is an error. -/
def optionalText? : Option Json → Option (Option String)
  | none | some .null => some none
  | some (.string s) => some (some s)
  | some _ => none

namespace PayloadRef

/-- Reads a pointer: an object, where the hash has two names of which one may be used, or an array
of the media type and the hash. -/
def ofJson? : Json → Option PayloadRef
  | .object members => do
    let value := Json.object members
    let mediaType ← optionalText? (value.get? "mimeType")
    match value.get? "contentHash", value.get? "_sha1" with
    | some _, some _ => none
    | hash, none | none, hash => some ⟨mediaType, ← optionalText? hash⟩
  | .array [] => some ⟨none, none⟩
  | .array [mediaType] => do some ⟨← optionalText? mediaType, none⟩
  | .array [mediaType, hash] => do some ⟨← optionalText? mediaType, ← optionalText? hash⟩
  | _ => none

end PayloadRef

/-- The status that a number is. A floating-point number must be whole and of 64 bits; `2 ^ 63` is
taken for the greatest integer, and an integer without a sign that is too large is judged by its
floating-point value. -/
def statusOf? (n : Json.Numeral) : Option Int :=
  let approximate := do
    let x ← n.toBinary64?
    let i ← x.toInt?
    if Json.minInt64 ≤ i ∧ i ≤ Json.maxInt64 + 1 then some (min i Json.maxInt64) else none
  match n with
  | .integer i => if Json.minInt64 ≤ i ∧ i ≤ Json.maxInt64 then some i else approximate
  | .float _ => approximate

namespace Response

/-- Reads a response from an object. -/
def ofJson (v : Json) : Response :=
  let status := match v.get? "status" with
    | some (.number n) => statusOf? n
    | _ => none
  { status, content := (v.get? "content").bind PayloadRef.ofJson? }

end Response

namespace Snapshot

/-- Reads a network event, which must have a request. -/
def ofJson? (v : Json) : Option Snapshot := do
  let request ← v.get? "request"
  guard request.isObject
  some {
    time := (v.get? "time").bind Json.float?
    resourceType := (v.stringAt? "_resourceType").or (v.stringAt? "resourceType")
    method := request.stringAt? "method"
    url := request.stringAt? "url"
    postData := (request.get? "postData").bind PayloadRef.ofJson?
    response := ((v.get? "response").filter Json.isObject).map Response.ofJson }

end Snapshot

/-- The text of an uncaught error: the error itself, or its message. -/
def errorText? (params : Option Json) : Option String :=
  match params.bind (·.get? "error") with
  | some (.string s) => some s
  | some (.object members) => (Json.object members).stringAt? "message"
  | _ => none

namespace Event

/-- Reads a console message, whose type must be there. -/
def consoleOfJson? (v : Json) : Option Event := do
  let messageType ← v.stringAt? "messageType"
  let text ← optionalText? (v.get? "text")
  some (.console messageType text)

/-- The event that a value is. -/
def ofJson? (v : Json) : Option Event :=
  match v.stringAt? "type" with
  | some "resource-snapshot" => ((v.get? "snapshot").bind Snapshot.ofJson?).map .snapshot
  | some "console" => consoleOfJson? v
  | some "event" =>
    if v.stringAt? "method" = some "pageError" then some (.pageError (errorText? (v.get? "params")))
    else none
  | _ => none

/-- The event that a line is. -/
def ofLine? (line : List Char) : Option Event :=
  (Json.parse? line).bind ofJson?

/-- The events of a text, in the order of its lines. Blanks around a line do not count. -/
def ofText (text : List Char) : List Event :=
  (Text.lines text).filterMap fun line => ofLine? (Text.trim line)

end Event

/-! ## Scanning an archive -/

/-- What the entries of an archive gave: the events, and why entries could not be read. -/
structure Scan where
  events : List Event
  unreadable : List EntryError
deriving DecidableEq, Repr

namespace Archive

/-- The entries that hold events, in the order of the directory. -/
def eventEntries (a : Archive) : List Entry := a.entries.filter Entry.holdsEvents

/-- The events of an entry. -/
def eventsOf (a : Archive) (e : Entry) : Except EntryError (List Event) :=
  (a.readText e).map fun text => Event.ofText text.toList

/-- Scans every entry that holds events; one that cannot be read leaves the others alone. -/
def scan (a : Archive) : Scan :=
  let results := a.eventEntries.map a.eventsOf
  { events := results.flatMap fun r => r.toOption.getD []
    unreadable := results.filterMap fun
      | .ok _ => none
      | .error e => some e }

end Archive

end BrowserTrace
