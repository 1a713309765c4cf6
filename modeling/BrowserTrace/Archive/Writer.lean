import BrowserTrace.Archive.EndRecord
import BrowserTrace.Archive.Directory
import BrowserTrace.Deflate.Writer

/-! # Writing an archive

The writer lays out, for each member, a local header and its data, then the central directory, then
the end record with a comment. Times and check sums are zero. Every count, length and offset is cut
to the width of its field.
-/

namespace BrowserTrace

open Bytes (u16Bytes u32Bytes)

/-- A member to be written: its data is already compressed as `method` says. -/
structure Member where
  name : String
  method : UInt16
  flags : UInt16
  data : ByteArray
  uncompressedSize : UInt32

namespace Member

/-- A member with its contents as they are. -/
def stored (name : String) (contents : ByteArray) : Member :=
  { name, method := 0, flags := 0, data := contents,
    uncompressedSize := UInt32.ofNat contents.size }

/-- A member with its contents as a deflate stream, which `Deflate.deflate` writes without making
them shorter. -/
def deflated (name : String) (contents : ByteArray) : Member :=
  { name, method := 8, flags := 0, data := Deflate.deflate contents,
    uncompressedSize := UInt32.ofNat contents.size }

/-- The bytes of the name. -/
def nameBytes (m : Member) : ByteArray := m.name.toByteArray

/-- What both headers of a member have in common: the version needed, flags, method, time, date,
check sum, sizes, and the lengths of the name and of the extra fields. -/
def commonFields (m : Member) : List UInt8 :=
  u16Bytes 20 ++ u16Bytes m.flags ++ u16Bytes m.method ++ u16Bytes 0 ++ u16Bytes 0 ++
    u32Bytes 0 ++ u32Bytes (UInt32.ofNat m.data.size) ++ u32Bytes m.uncompressedSize ++
    u16Bytes (UInt16.ofNat m.nameBytes.size) ++ u16Bytes 0

/-- The local header of a member, with its name, and the data. -/
def localRecord (m : Member) : ByteArray :=
  (u32Bytes LocalHeader.goodSignature ++ m.commonFields).toByteArray ++ m.nameBytes ++ m.data

/-- The directory header of a member whose local header is at `offset`, with its name. -/
def directoryRecord (m : Member) (offset : Nat) : ByteArray :=
  (u32Bytes DirectoryHeader.goodSignature ++ u16Bytes 20 ++ m.commonFields ++ u16Bytes 0 ++
    u16Bytes 0 ++ u16Bytes 0 ++ u32Bytes 0 ++ u32Bytes (UInt32.ofNat offset)).toByteArray ++
    m.nameBytes

end Member

/-- The end record of an archive with a comment. -/
def endRecordBytes (count directorySize directoryOffset : Nat) (comment : ByteArray) : ByteArray :=
  (u32Bytes EndRecord.signature ++ u16Bytes 0 ++ u16Bytes 0 ++ u16Bytes (UInt16.ofNat count) ++
    u16Bytes (UInt16.ofNat count) ++ u32Bytes (UInt32.ofNat directorySize) ++
    u32Bytes (UInt32.ofNat directoryOffset) ++
    u16Bytes (UInt16.ofNat comment.size)).toByteArray ++ comment

/-- The two growing parts of an archive: local records, and the directory. -/
structure ArchiveParts where
  records : ByteArray := ByteArray.empty
  directory : ByteArray := ByteArray.empty

/-- Adds a member to both parts. -/
def ArchiveParts.add (parts : ArchiveParts) (m : Member) : ArchiveParts :=
  { records := parts.records ++ m.localRecord
    directory := parts.directory ++ m.directoryRecord parts.records.size }

/-- The archive of the members in order. -/
def writeArchive (members : List Member) (comment : ByteArray) : ByteArray :=
  let parts := members.foldl ArchiveParts.add {}
  parts.records ++ parts.directory ++
    endRecordBytes members.length parts.directory.size parts.records.size comment

end BrowserTrace
