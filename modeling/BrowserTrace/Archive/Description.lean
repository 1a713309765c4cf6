import BrowserTrace.Archive.Basic
import BrowserTrace.Text.Visible

/-! # Describing an archive

For debugging, an archive is described on one line: its length, its entries with all their fields,
and its limits. Names are quoted, and characters that do not show are written by their number.
-/

namespace BrowserTrace

/-- How a character is written inside a quoted name. -/
def quotedChar (c : Char) : List Char :=
  if c = '"' then ['\\', '"']
  else if c = '\\' then ['\\', '\\']
  else if c = '\t' then ['\\', 't']
  else if c = '\r' then ['\\', 'r']
  else if c = '\n' then ['\\', 'n']
  else if c = '\x00' then ['\\', '0']
  else if Text.isVisible c then [c]
  else ['\\', 'u', '\x7b'] ++ Nat.toDigits 16 c.toNat ++ ['\x7d']

/-- A name in quotes. -/
def quotedName (name : String) : String :=
  String.ofList ('"' :: (name.toList.flatMap quotedChar ++ ['"']))

/-- A value with named parts. -/
def describeFields (name : String) (fields : List (String × String)) : String :=
  let texts := fields.map fun (key, text) => key ++ ": " ++ text
  name ++ " \x7b " ++ ", ".intercalate texts ++ " \x7d"

/-- A method in words. -/
def Method.describe : Method → String
  | stored => "Stored"
  | deflate => "Deflate"
  | unsupported n => s!"Unsupported({n.toNat})"

/-- A size, rounded and exact. -/
def ByteSize.describe (s : ByteSize) : String := s!"{s.display} ({s.bytes} bytes)"

/-- An entry with all its fields. -/
def Entry.describe (e : Entry) : String :=
  describeFields "ArchiveEntry" [("name", quotedName e.name), ("flags", toString e.flags.toNat),
    ("method", e.method.describe), ("compressed_size", toString e.compressedSize.toNat),
    ("uncompressed_size", toString e.uncompressedSize.toNat),
    ("local_header_offset", toString e.localOffset.toNat),
    ("data_range", s!"{e.dataStart}..{e.dataEnd}")]

/-- Limits with all their fields. -/
def ArchiveLimits.describe (l : ArchiveLimits) : String :=
  describeFields "ArchiveLimits" [("max_archive_size", l.maxArchiveSize.describe),
    ("max_entry_size", l.maxEntrySize.describe)]

/-- An archive with all its fields. -/
def Archive.describe (a : Archive) : String :=
  describeFields "Archive" [("len", toString a.data.size),
    ("entries", "[" ++ ", ".intercalate (a.entries.map Entry.describe) ++ "]"),
    ("limits", a.limits.describe)]

end BrowserTrace
