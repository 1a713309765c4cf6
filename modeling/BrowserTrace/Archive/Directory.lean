import BrowserTrace.Archive.EndRecord
import BrowserTrace.Archive.Entry
import BrowserTrace.Text.Utf8

/-! # The central directory

The central directory is a chain of headers, one an entry. Each gives the sizes of its entry and
the offset of the entry's local header; the local header says only where the data begins. Every
header of both kinds is checked, so that a damaged archive is rejected as a whole.
-/

namespace BrowserTrace

open Bytes (u16At? u32At?)

/-! ## Headers -/

/-- A header of the central directory, without its name. -/
structure DirectoryHeader where
  signature : UInt32
  flags : UInt16
  method : UInt16
  compressedSize : UInt32
  uncompressedSize : UInt32
  nameLength : UInt16
  extraLength : UInt16
  commentLength : UInt16
  localOffset : UInt32
deriving DecidableEq, Repr

namespace DirectoryHeader

/-- The signature of a directory header. -/
def goodSignature : UInt32 := 0x02014b50

/-- The length of a directory header up to the name. -/
def fixedLength : Nat := 46

/-- The fields of the header at a position. -/
def at? (b : ByteArray) (pos : Nat) : Option DirectoryHeader := do
  some {
    signature := ← u32At? b pos
    flags := ← u16At? b (pos + 8)
    method := ← u16At? b (pos + 10)
    compressedSize := ← u32At? b (pos + 20)
    uncompressedSize := ← u32At? b (pos + 24)
    nameLength := ← u16At? b (pos + 28)
    extraLength := ← u16At? b (pos + 30)
    commentLength := ← u16At? b (pos + 32)
    localOffset := ← u32At? b (pos + 42) }

/-- Whether a size or the offset is the value that stands for a larger one elsewhere. -/
def needsZip64 (h : DirectoryHeader) : Bool :=
  h.compressedSize == 0xFFFFFFFF || h.uncompressedSize == 0xFFFFFFFF ||
    h.localOffset == 0xFFFFFFFF

/-- The length of the header with its name, extra fields and comment. -/
def length (h : DirectoryHeader) : Nat :=
  fixedLength + h.nameLength.toNat + h.extraLength.toNat + h.commentLength.toNat

end DirectoryHeader

/-- The fields of a local header that say where the data begins. -/
structure LocalHeader where
  signature : UInt32
  nameLength : UInt16
  extraLength : UInt16
deriving DecidableEq, Repr

namespace LocalHeader

/-- The signature of a local header. -/
def goodSignature : UInt32 := 0x04034b50

/-- The length of a local header up to the name. -/
def fixedLength : Nat := 30

/-- The fields of the local header at a position, if all of it lies inside the archive. -/
def at? (b : ByteArray) (pos : Nat) : Option LocalHeader := do
  some {
    signature := ← u32At? b pos
    nameLength := ← u16At? b (pos + 26)
    extraLength := ← u16At? b (pos + 28) }

/-- The length of the header with its name and extra fields. -/
def length (h : LocalHeader) : Nat :=
  fixedLength + h.nameLength.toNat + h.extraLength.toNat

end LocalHeader

/-! ## Entries -/

/-- Where the data of an entry begins: behind its local header, whose name and extra fields may
differ in length from those in the directory. -/
def dataStart (b : ByteArray) (name : String) (localOffset compressedSize : UInt32) :
    Except ArchiveError Nat :=
  match LocalHeader.at? b localOffset.toNat with
  | none => .error (.truncated .localHeader)
  | some header =>
    if header.signature ≠ LocalHeader.goodSignature then
      .error (.badLocalSignature name header.signature)
    else
      let start := localOffset.toNat + header.length
      if start + compressedSize.toNat ≤ b.size then .ok start
      else .error (.entryOutOfBounds name)

/-- Reads the entry whose directory header is at `pos`, in a directory that ends at `stop`; also
gives where the next header is. -/
def readEntry (b : ByteArray) (stop pos : Nat) : Except ArchiveError (Entry × Nat) :=
  if stop < pos + DirectoryHeader.fixedLength then
    .error (.truncated .directoryHeader)
  else
    match DirectoryHeader.at? b pos with
    | none => .error (.truncated .directoryHeader)
    | some header =>
      let nameStart := pos + DirectoryHeader.fixedLength
      let nameEnd := nameStart + header.nameLength.toNat
      if header.signature ≠ DirectoryHeader.goodSignature then
        .error (.badDirectorySignature pos header.signature)
      else if header.needsZip64 then
        .error .zip64
      else if stop < nameEnd then
        .error (.truncated .directoryName)
      else if stop < pos + header.length then
        .error (.truncated .directoryExtra)
      else
        let name := Text.decodeLossy (b.extract nameStart nameEnd)
        match dataStart b name header.localOffset header.compressedSize with
        | .error e => .error e
        | .ok start =>
          .ok ({
            name
            flags := header.flags
            method := Method.ofNumber header.method
            compressedSize := header.compressedSize
            uncompressedSize := header.uncompressedSize
            localOffset := header.localOffset
            dataStart := start }, pos + header.length)

/-- Reads `count` entries from `pos` on, behind those in `acc`, of which the newest is first. -/
def readEntries (b : ByteArray) (stop : Nat) :
    (count pos : Nat) → (acc : List Entry) → Except ArchiveError (List Entry)
  | 0, _, acc => .ok acc.reverse
  | count + 1, pos, acc =>
    match readEntry b stop pos with
    | .error e => .error e
    | .ok (entry, next) => readEntries b stop count next (entry :: acc)

end BrowserTrace
