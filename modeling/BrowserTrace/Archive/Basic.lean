import BrowserTrace.Archive.Directory
import BrowserTrace.Archive.NameIndex
import BrowserTrace.Deflate.Stream

/-! # Archives

An archive is its bytes together with the entries of its central directory, read and checked as a
whole (`Archive.ofBytes`). The contents of an entry are decompressed when they are asked for
(`Archive.read`): the declared size is checked against a limit before, and against what comes out
after. Entries are found by name through an index (`Archive.find?`).
-/

namespace BrowserTrace

/-- Limits on what is read. -/
structure ArchiveLimits where
  /-- Larger archive files are not read. -/
  maxArchiveSize : ByteSize := .gibibytes 1
  /-- Entries that declare a larger size are not decompressed. -/
  maxEntrySize : ByteSize := .mebibytes 256
deriving DecidableEq, Repr

/-- A checked archive. -/
structure Archive where
  data : ByteArray
  entries : List Entry
  limits : ArchiveLimits

namespace Archive

/-- Reads the central directory of an archive. -/
def ofBytes (data : ByteArray) (limits : ArchiveLimits) : Except ArchiveError Archive :=
  match EndRecord.find? data with
  | none => .error .missingEndRecord
  | some record =>
    match record.check data.size with
    | .error e => .error e
    | .ok () =>
      match readEntries data record.directoryEnd record.entryCount.toNat record.directoryStart []
      with
      | .error e => .error e
      | .ok entries => .ok { data, entries, limits }

/-- Reads the archive at a path, unless the file is too large. -/
def load (files : Files) (path : String) (limits : ArchiveLimits) :
    Except ArchiveError Archive :=
  match files.info path with
  | .error cause => .error (.unreadable path cause)
  | .ok info =>
    if limits.maxArchiveSize.bytes < info.size then
      .error (.tooLarge path ⟨info.size⟩ limits.maxArchiveSize)
    else
      match files.read path with
      | .error cause => .error (.unreadable path cause)
      | .ok data => ofBytes data limits

/-- The index of the names of the entries. -/
def nameIndex (a : Archive) : NameIndex := .ofNames (a.entries.map (·.name))

/-- The position of the first entry with a name. -/
def entryIndex? (a : Archive) (name : String) : Option Nat := a.nameIndex.get? name

/-- The first entry with a name. -/
def find? (a : Archive) (name : String) : Option Entry :=
  (a.entryIndex? name).bind (a.entries[·]?)

/-- The data of an entry as it stands in the archive. -/
def rawData (a : Archive) (e : Entry) : ByteArray :=
  a.data.extract e.dataStart e.dataEnd

/-- The output of a deflate stream that must have exactly the claimed size. One byte more than that
is read, so that a longer stream is told from one that fits. -/
def inflateExactly (name : String) (claimed : Nat) (raw : ByteArray) :
    Except EntryError ByteArray :=
  match Deflate.inflate? (claimed + 1) raw with
  | none => .error (.corrupt name)
  | some out =>
    if out.size = claimed then .ok out else .error (.sizeMismatch name claimed out.size)

/-- The contents of an entry. -/
def read (a : Archive) (e : Entry) : Except EntryError ByteArray :=
  let claimed := e.uncompressedSize.toNat
  if e.isEncrypted then
    .error (.encrypted e.name)
  else if a.limits.maxEntrySize.bytes < claimed then
    .error (.tooLarge e.name ⟨claimed⟩ a.limits.maxEntrySize)
  else
    match e.method with
    | .stored =>
      if e.compressedSize = e.uncompressedSize then .ok (a.rawData e)
      else .error (.storedSizeMismatch e.name e.compressedSize.toNat claimed)
    | .deflate => inflateExactly e.name claimed (a.rawData e)
    | .unsupported number => .error (.unsupportedMethod e.name number)

/-- The contents of an entry as text. -/
def readText (a : Archive) (e : Entry) : Except EntryError String :=
  (a.read e).map Text.ofContents

end Archive

end BrowserTrace
