import BrowserTrace.Archive.Basic
import BrowserTrace.Proofs.Bytes
import Mathlib.Logic.Function.Iterate
import Mathlib.Order.Bounds.Defs

/-!
# The container grammar

`Archive.ofBytes` searches backwards for the end record, walks along the headers of the central
directory, and jumps from each of them to a local header.  This file says which byte strings it
accepts without searching, walking or jumping: every condition is about the number that stands at
some place of the string (`Bytes.numberAt`).

* `IsCandidate b p`: an end record may stand at `p`, being close enough to the end and having a
  comment that fits.  The greatest candidate is the one that counts.
* `GoodDirectory b p`: the record at `p` and the whole chain of headers it leads to are in order.
* `entriesAt b p`: the entries that this chain describes.
-/

namespace BrowserTrace

open Bytes

namespace Grammar

variable (b : ByteArray) (p stop pos : Nat)

/-! ## The end record -/

/-- An end record may stand at `p`: at most 65557 bytes before the end, with its signature, and with
a comment that does not run past the end. -/
structure IsCandidate : Prop where
  reach : b.size - 65557 ≤ p
  fits : p + 22 ≤ b.size
  signature : numberAt b p 4 = 0x06054b50
  comment_fits : p + 22 + numberAt b (p + 20) 2 ≤ b.size

/-- The number of entries that the record at `p` counts. -/
def entryCountAt : Nat := numberAt b (p + 10) 2

/-- Where the directory of the record at `p` begins. -/
def directoryStartAt : Nat := numberAt b (p + 16) 4

/-- The length of the directory of the record at `p`. -/
def directorySizeAt : Nat := numberAt b (p + 12) 4

/-- Where the directory of the record at `p` ends. -/
def directoryEndAt : Nat := directoryStartAt b p + directorySizeAt b p

/-- The record at `p` is one of a single disk, without any of the values that stand for a larger one
elsewhere, and its directory lies in the archive. -/
structure GoodRecord : Prop where
  disk : numberAt b (p + 4) 2 = 0
  directoryDisk : numberAt b (p + 6) 2 = 0
  counts : numberAt b (p + 8) 2 = entryCountAt b p
  count_ne : entryCountAt b p ≠ 0xFFFF
  size_ne : directorySizeAt b p ≠ 0xFFFFFFFF
  start_ne : directoryStartAt b p ≠ 0xFFFFFFFF
  directory_fits : directoryEndAt b p ≤ b.size

/-! ## The chain of headers -/

/-- Where the header after the one at `pos` begins: behind its name, extra fields and comment. -/
def nextHeader : Nat :=
  pos + 46 + numberAt b (pos + 28) 2 + numberAt b (pos + 30) 2 + numberAt b (pos + 32) 2

/-- Where the `i`-th header of the directory of the record at `p` begins. -/
def headerAt (i : Nat) : Nat := (nextHeader b)^[i] (directoryStartAt b p)

/-- The size of the data of the entry whose header is at `pos`. -/
def compressedSizeAt : Nat := numberAt b (pos + 20) 4

/-- The size of the contents of the entry whose header is at `pos`. -/
def uncompressedSizeAt : Nat := numberAt b (pos + 24) 4

/-- Where the local header of the entry whose header is at `pos` begins. -/
def localOffsetAt : Nat := numberAt b (pos + 42) 4

/-- Where the data of the entry whose header is at `pos` begins: the lengths of the name and of the
extra fields are those of the local header. -/
def dataStartAt : Nat :=
  localOffsetAt b pos + 30 + numberAt b (localOffsetAt b pos + 26) 2 +
    numberAt b (localOffsetAt b pos + 28) 2

/-- The header at `pos` is in order, in a directory that ends at `stop`, and so is the local header
it leads to. -/
structure GoodHeader : Prop where
  signature : numberAt b pos 4 = 0x02014b50
  fits : nextHeader b pos ≤ stop
  compressed_ne : compressedSizeAt b pos ≠ 0xFFFFFFFF
  uncompressed_ne : uncompressedSizeAt b pos ≠ 0xFFFFFFFF
  offset_ne : localOffsetAt b pos ≠ 0xFFFFFFFF
  local_fits : localOffsetAt b pos + 30 ≤ b.size
  local_signature : numberAt b (localOffsetAt b pos) 4 = 0x04034b50
  data_fits : dataStartAt b pos + compressedSizeAt b pos ≤ b.size

/-- The record at `p` is in order, and so is every header it counts. -/
structure GoodDirectory : Prop where
  record : GoodRecord b p
  headers : ∀ i < entryCountAt b p, GoodHeader b (directoryEndAt b p) (headerAt b p i)

/-! ## Entries -/

/-- The method with a number: 0 and 8 are the ones that can be read. -/
def methodOf : Nat → Method
  | 0 => .stored
  | 8 => .deflate
  | n => .unsupported (UInt16.ofNat n)

/-- The entry whose header is at `pos`. -/
def entryAt : Entry where
  name := Text.decodeLossy (b.extract (pos + 46) (pos + 46 + numberAt b (pos + 28) 2))
  flags := UInt16.ofNat (numberAt b (pos + 8) 2)
  method := methodOf (numberAt b (pos + 10) 2)
  compressedSize := UInt32.ofNat (compressedSizeAt b pos)
  uncompressedSize := UInt32.ofNat (uncompressedSizeAt b pos)
  localOffset := UInt32.ofNat (localOffsetAt b pos)
  dataStart := dataStartAt b pos

/-- The entries that the record at `p` counts. -/
def entriesAt : List Entry := (List.range (entryCountAt b p)).map fun i ↦ entryAt b (headerAt b p i)

/-- An entry says what its header at `pos` says, field by field, and its data begin and end where
the local header and the compressed size put them. -/
structure Describes (e : Entry) : Prop where
  name : e.name = Text.decodeLossy (b.extract (pos + 46) (pos + 46 + numberAt b (pos + 28) 2))
  flags : e.flags.toNat = numberAt b (pos + 8) 2
  method : e.method = methodOf (numberAt b (pos + 10) 2)
  compressedSize : e.compressedSize.toNat = compressedSizeAt b pos
  uncompressedSize : e.uncompressedSize.toNat = uncompressedSizeAt b pos
  localOffset : e.localOffset.toNat = localOffsetAt b pos
  dataStart : e.dataStart = dataStartAt b pos
  dataEnd : e.dataEnd = dataStartAt b pos + compressedSizeAt b pos

end Grammar

end BrowserTrace
