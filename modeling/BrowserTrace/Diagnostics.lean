import BrowserTrace.Json.Parser
import BrowserTrace.Json.Printer

/-! # Diagnostics of an attempt

What is extracted from the traces of one test attempt: network records and console records, in the
order of capture. Diagnostics are written as JSON, where both lists are always present and an absent
optional field is left out, and they are read back from it.
-/

namespace BrowserTrace

/-- A network request and its response. -/
structure NetworkRecord where
  method : String
  url : String
  status : Int
  durationMs : Option Number.Binary64 := none
  resourceType : Option String := none
  requestBody : Option String := none
  responseBody : Option String := none
deriving DecidableEq, Repr

/-- Where a console record comes from: a warning, an error, or an uncaught error of the page. -/
inductive ConsoleKind where
  | warning
  | error
  | pageError
deriving DecidableEq, Repr

/-- A message of the page under test. -/
structure ConsoleRecord where
  kind : ConsoleKind
  text : String
deriving DecidableEq, Repr

/-- What was extracted for one attempt. -/
structure Diagnostics where
  network : List NetworkRecord := []
  consoleMessages : List ConsoleRecord := []
deriving DecidableEq, Repr

namespace ConsoleKind

/-- What a kind is called. -/
def name : ConsoleKind → String
  | warning => "warning"
  | error => "error"
  | pageError => "pageerror"

/-- The kind with a name. -/
def ofName? : String → Option ConsoleKind
  | "warning" => some warning
  | "error" => some error
  | "pageerror" => some pageError
  | _ => none

@[simp] theorem ofName?_name (k : ConsoleKind) : ofName? k.name = some k := by
  cases k <;> rfl

end ConsoleKind

namespace Diagnostics

/-- Whether nothing was extracted. -/
def isEmpty (d : Diagnostics) : Bool := d.network.isEmpty && d.consoleMessages.isEmpty

end Diagnostics

/-! ## Writing -/

/-- A member that is left out when its value is absent. -/
def optionalMember {α : Type} (key : String) (f : α → Json) : Option α → List (String × Json)
  | some a => [(key, f a)]
  | none => []

/-- A floating-point number as JSON. -/
def floatJson (x : Number.Binary64) : Json := .number (.float x)

/-- A network record as JSON. -/
def NetworkRecord.toJson (r : NetworkRecord) : Json :=
  .object ([("method", .string r.method), ("url", .string r.url),
      ("status", .number (.integer r.status))] ++
    optionalMember "durationMs" floatJson r.durationMs ++
    optionalMember "resourceType" Json.string r.resourceType ++
    optionalMember "requestBody" Json.string r.requestBody ++
    optionalMember "responseBody" Json.string r.responseBody)

/-- A console record as JSON. -/
def ConsoleRecord.toJson (r : ConsoleRecord) : Json :=
  .object [("type", .string r.kind.name), ("text", .string r.text)]

/-- Diagnostics as JSON. -/
def Diagnostics.toJson (d : Diagnostics) : Json :=
  .object [("network", .array (d.network.map NetworkRecord.toJson)),
    ("consoleMessages", .array (d.consoleMessages.map ConsoleRecord.toJson))]

end BrowserTrace
