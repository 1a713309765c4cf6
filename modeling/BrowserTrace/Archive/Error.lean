import BrowserTrace.ByteSize
import BrowserTrace.Files

/-! # Why an archive or an entry cannot be read

An `ArchiveError` rejects a whole archive, an `EntryError` a single entry of a good one. Both are
causes; `message` words them.
-/

namespace BrowserTrace

/-- A part of an archive that the end of the archive or of the directory can cut off. -/
inductive ArchivePart where
  | directoryHeader
  | directoryName
  | directoryExtra
  | localHeader
deriving DecidableEq, Repr

/-- What the part is called. -/
def ArchivePart.name : ArchivePart → String
  | directoryHeader => "central directory header"
  | directoryName => "central directory file name"
  | directoryExtra => "central directory extra fields"
  | localHeader => "local file header"

/-- Why a whole archive is rejected. -/
inductive ArchiveError where
  | unreadable (path : String) (cause : FileError)
  | tooLarge (path : String) (size limit : ByteSize)
  | missingEndRecord
  | multiDisk
  | zip64
  | directoryOutOfBounds (offset size length : Nat)
  | badDirectorySignature (offset : Nat) (signature : UInt32)
  | badLocalSignature (name : String) (signature : UInt32)
  | entryOutOfBounds (name : String)
  | truncated (part : ArchivePart)
deriving DecidableEq, Repr

/-- A number as `0x` and eight hexadecimal digits. -/
def hex32 (n : UInt32) : String :=
  let digits := Nat.toDigits 16 n.toNat
  String.ofList ('0' :: 'x' :: (List.replicate (8 - digits.length) '0' ++ digits))

namespace ArchiveError

/-- The text of an error. -/
def message : ArchiveError → String
  | unreadable path _ => s!"error reading archive `{path}`"
  | tooLarge path size limit =>
    s!"archive `{path}` is {size.display}, which exceeds the limit of {limit.display}"
  | missingEndRecord => "end of central directory record not found"
  | multiDisk => "multi-disk archives are not supported"
  | zip64 => "Zip64 archives are not supported"
  | directoryOutOfBounds offset size length =>
    s!"central directory at offset {offset} with size {size} exceeds archive length {length}"
  | badDirectorySignature offset signature =>
    s!"bad central directory header signature {hex32 signature} at offset {offset}"
  | badLocalSignature name signature =>
    s!"bad local file header signature {hex32 signature} for entry `{name}`"
  | entryOutOfBounds name => s!"data for entry `{name}` exceeds archive bounds"
  | truncated part => s!"archive truncated while reading {part.name}"

/-- The error behind an error. -/
def cause? : ArchiveError → Option FileError
  | unreadable _ cause => some cause
  | _ => none

end ArchiveError

/-- Why a single entry cannot be read. -/
inductive EntryError where
  | unsupportedMethod (name : String) (method : UInt16)
  | encrypted (name : String)
  | storedSizeMismatch (name : String) (compressed uncompressed : Nat)
  | tooLarge (name : String) (size limit : ByteSize)
  | sizeMismatch (name : String) (claimed actual : Nat)
  | corrupt (name : String)
deriving DecidableEq, Repr

namespace EntryError

/-- The text of an error. -/
def message : EntryError → String
  | unsupportedMethod name method =>
    s!"entry `{name}` uses unsupported compression method {method.toNat}"
  | encrypted name => s!"entry `{name}` is encrypted"
  | storedSizeMismatch name compressed uncompressed =>
    s!"stored entry `{name}` has compressed size {compressed} but uncompressed size {uncompressed}"
  | tooLarge name size limit =>
    s!"entry `{name}` is {size.display}, which exceeds the limit of {limit.display}"
  | sizeMismatch name claimed actual =>
    s!"entry `{name}` claimed {claimed} bytes but decompressed to {actual} bytes"
  | corrupt name => s!"error decompressing entry `{name}`"

end EntryError

end BrowserTrace
