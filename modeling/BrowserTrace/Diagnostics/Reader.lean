import BrowserTrace.Diagnostics
import BrowserTrace.Json.Record

/-! # Reading diagnostics

Diagnostics are read from the JSON that they are written as. A list that is left out is empty, and
so is an optional field; of a network record the method, the URL and the status must be there, of a
console record both fields.
-/

namespace BrowserTrace

open Json (Parser RecordField)

namespace NetworkRecord

/-- The fields of a network record. -/
def fields : List (RecordField NetworkRecord) :=
  [.mandatory "method" Parser.text fun method r => { r with method },
    .mandatory "url" Parser.text fun url r => { r with url },
    .mandatory "status" Parser.integer fun status r => { r with status },
    .defaulted "durationMs" Parser.float.option fun durationMs r => { r with durationMs },
    .defaulted "resourceType" Parser.text.option fun resourceType r => { r with resourceType },
    .defaulted "requestBody" Parser.text.option fun requestBody r => { r with requestBody },
    .defaulted "responseBody" Parser.text.option fun responseBody r => { r with responseBody }]

/-- Reads a network record. -/
def reader : Parser NetworkRecord := .record fields { method := "", url := "", status := 0 }

end NetworkRecord

namespace ConsoleRecord

/-- The fields of a console record. -/
def fields : List (RecordField ConsoleRecord) :=
  [.mandatory "type" (Parser.choice ConsoleKind.ofName?) fun kind r => { r with kind },
    .mandatory "text" Parser.text fun text r => { r with text }]

/-- Reads a console record. -/
def reader : Parser ConsoleRecord := .record fields { kind := .warning, text := "" }

end ConsoleRecord

namespace Diagnostics

/-- The fields of diagnostics. -/
def fields : List (RecordField Diagnostics) :=
  [.defaulted "network" NetworkRecord.reader.list fun network d => { d with network },
    .defaulted "consoleMessages" ConsoleRecord.reader.list fun consoleMessages d =>
      { d with consoleMessages }]

/-- Reads diagnostics. -/
def reader : Parser Diagnostics := .record fields {}

/-- The diagnostics at the front of a text. What follows them is not looked at. -/
def ofText (text : List Char) : Except Json.ReadError Diagnostics :=
  (reader.run text).map (·.1)

end Diagnostics

end BrowserTrace
