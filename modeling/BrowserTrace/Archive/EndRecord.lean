import BrowserTrace.Archive.Error
import BrowserTrace.Bytes

/-! # The record at the end of an archive

An archive is read from its end: a record there says where the central directory lies and how many
entries it has. The record is followed by a comment of up to 65535 bytes, so it is searched for
backwards in the last 65557 bytes. A signature whose comment would run past the end of the archive
is no record, and the search goes on.
-/

namespace BrowserTrace

/-- The record at the end of an archive. -/
structure EndRecord where
  disk : UInt16
  directoryDisk : UInt16
  entriesOnDisk : UInt16
  entryCount : UInt16
  directorySize : UInt32
  directoryOffset : UInt32
deriving DecidableEq, Repr

namespace EndRecord

open Bytes (u16At? u32At?)

/-- The signature of the record. -/
def signature : UInt32 := 0x06054b50

/-- The length of the record without its comment. -/
def fixedLength : Nat := 22

/-- The length of the record with the longest comment. -/
def maxLength : Nat := fixedLength + 65535

/-- The record at a position, if there is one: the signature, and a comment that fits. -/
def at? (b : ByteArray) (pos : Nat) : Option EndRecord := do
  let found ← u32At? b pos
  let comment ← u16At? b (pos + 20)
  if found = signature ∧ pos + fixedLength + comment.toNat ≤ b.size then
    some {
      disk := ← u16At? b (pos + 4)
      directoryDisk := ← u16At? b (pos + 6)
      entriesOnDisk := ← u16At? b (pos + 8)
      entryCount := ← u16At? b (pos + 10)
      directorySize := ← u32At? b (pos + 12)
      directoryOffset := ← u32At? b (pos + 16) }
  else
    none

/-- The last record among the `count` positions from `first`. -/
def lastFrom? (b : ByteArray) (first : Nat) : (count : Nat) → Option EndRecord
  | 0 => none
  | count + 1 =>
    match at? b (first + count) with
    | some record => some record
    | none => lastFrom? b first count

/-- The least position of a record. -/
def firstStart (b : ByteArray) : Nat := b.size - maxLength

/-- The last record of an archive within reach of its end. -/
def find? (b : ByteArray) : Option EndRecord :=
  if b.size < fixedLength then none
  else lastFrom? b (firstStart b) (b.size - fixedLength + 1 - firstStart b)

/-- Where the central directory begins. -/
def directoryStart (r : EndRecord) : Nat := r.directoryOffset.toNat

/-- Where the central directory ends. -/
def directoryEnd (r : EndRecord) : Nat := r.directoryOffset.toNat + r.directorySize.toNat

/-- Checks a record against the length of its archive: one disk, no value that stands for a larger
one elsewhere, and a directory inside the archive. -/
def check (r : EndRecord) (length : Nat) : Except ArchiveError Unit :=
  if r.disk ≠ 0 ∨ r.directoryDisk ≠ 0 ∨ r.entriesOnDisk ≠ r.entryCount then
    .error .multiDisk
  else if r.entryCount = 0xFFFF ∨ r.directorySize = 0xFFFFFFFF ∨ r.directoryOffset = 0xFFFFFFFF then
    .error .zip64
  else if length < r.directoryEnd then
    .error (.directoryOutOfBounds r.directoryOffset.toNat r.directorySize.toNat length)
  else
    .ok ()

end EndRecord

end BrowserTrace
