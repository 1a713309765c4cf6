import BrowserTrace.Diagnostics
import BrowserTrace.Json.Record

/-! # Attachments of an attempt

A test runner reports the files of each test attempt as attachments, some of which are trace
archives. A list of attempts is read from JSON and can be written as JSON; a field that may be left
out and is left out counts as empty.
-/

namespace BrowserTrace

/-- A file that belongs to a test attempt. An attachment that lies nowhere on disk has no path. -/
structure Attachment where
  name : String := ""
  contentType : String := ""
  path : Option String := none
deriving DecidableEq, Repr

/-- A test attempt, with its attachments in the order in which they were reported. -/
structure Attempt where
  attachments : List Attachment := []
deriving DecidableEq, Repr

namespace Attachment

/-- Whether this is a trace archive, which the exact content type says. -/
def isArchive (a : Attachment) (contentType : String) : Bool := a.contentType == contentType

/-- An attachment for a trace archive. -/
def trace (contentType path : String) : Attachment :=
  { name := "trace", contentType, path := some path }

end Attachment

/-! ## Writing -/

/-- An attachment as JSON. -/
def Attachment.toJson (a : Attachment) : Json :=
  .object ([("name", .string a.name), ("contentType", .string a.contentType)] ++
    optionalMember "path" Json.string a.path)

/-- An attempt as JSON. -/
def Attempt.toJson (a : Attempt) : Json :=
  .object [("attachments", .array (a.attachments.map Attachment.toJson))]

/-! ## Reading -/

namespace Attachment

open Json (Parser RecordField)

/-- The fields of an attachment. -/
def fields : List (RecordField Attachment) :=
  [.defaulted "name" Parser.text fun name a => { a with name },
    .mandatory "contentType" Parser.text fun contentType a => { a with contentType },
    .defaulted "path" Parser.text.option fun path a => { a with path }]

/-- Reads an attachment. -/
def reader : Parser Attachment := .record fields {}

end Attachment

namespace Attempt

open Json (Parser RecordField)

/-- The fields of an attempt. -/
def fields : List (RecordField Attempt) :=
  [.defaulted "attachments" Attachment.reader.list fun attachments a => { a with attachments }]

/-- Reads an attempt. -/
def reader : Parser Attempt := .record fields {}

/-- Reads a list of attempts. What follows the list is not looked at. -/
def readList (text : List Char) : Except Json.ReadError (List Attempt) :=
  (reader.list.run text).map (·.1)

end Attempt

end BrowserTrace
