import BrowserTrace.Archive.Basic

/-! # Reading an archive in machine words

`Archive.ofBytes` computes positions with numbers of any size. A machine keeps them in words, and a
sum may be too large for one. Here the same readers are written in words: of `w` bits for positions
and lengths, and of 64 for the end that an end record claims for its directory. The directory and
each header are slices, with positions of their own.

Some sums are checked, and absent when they are too large. Any other sum that is too large stops the
run, or is cut to the width of a word: that depends on how the reader was built (`Overflow`). A byte
or a slice that is out of bounds stops the run in any case, unless it was asked for as an option.
-/

namespace BrowserTrace.Words

/-! ## Runs -/

/-- What becomes of an unchecked sum that is too large. -/
inductive Overflow where
  | stops
  | wraps
deriving DecidableEq, Repr

/-- Why a run gives nothing. -/
inductive Stop where
  | overflow
  | outOfBounds
  | rejected (error : ArchiveError)
deriving DecidableEq, Repr

/-- A run gives a value, unless it stops or the archive is rejected. -/
abbrev Run := Except Stop

/-- Rejects the archive. -/
def reject {α : Type} (error : ArchiveError) : Run α := .error (.rejected error)

/-! ## Words -/

section

variable {w : Nat}

/-- An unchecked sum. -/
def add (o : Overflow) (x y : BitVec w) : Run (BitVec w) :=
  if o = .stops ∧ x.uaddOverflow y then .error .overflow else .ok (x + y)

/-- A checked sum. -/
def checkedAdd? (x y : BitVec w) : Option (BitVec w) :=
  if x.uaddOverflow y then none else some (x + y)

/-- A checked difference. -/
def checkedSub? (x y : BitVec w) : Option (BitVec w) :=
  if x < y then none else some (x - y)

/-- A difference that is zero where it would be less. -/
def saturatingSub (x y : BitVec w) : BitVec w := (checkedSub? x y).getD 0

/-! ## Slices -/

/-- The length of an array as a word. -/
def length (w : Nat) (b : ByteArray) : BitVec w := .ofNat w b.size

/-- The bytes from `start` up to `stop`, if they are in bounds. -/
def slice? (b : ByteArray) (start stop : BitVec w) : Option ByteArray :=
  if start ≤ stop ∧ stop ≤ length w b then some (b.extract start.toNat stop.toNat) else none

/-- The bytes from `start` up to `stop`, which must be in bounds. -/
def slice (b : ByteArray) (start stop : BitVec w) : Run ByteArray :=
  match slice? b start stop with
  | some part => .ok part
  | none => .error .outOfBounds

/-- As many bytes from `start` on, if the sum that is their end is a word and they are in bounds. -/
def sliceFrom? (b : ByteArray) (start count : BitVec w) : Option ByteArray :=
  (checkedAdd? start count).bind (slice? b start)

/-- A byte, which must be in bounds. -/
def byte (b : ByteArray) (i : Nat) : Run UInt8 :=
  if h : i < b.size then .ok b[i] else .error .outOfBounds

/-! ## Fields -/

/-- The two-byte field at `pos`, or nothing when it runs past the end. -/
def u16At? (b : ByteArray) (pos : BitVec w) : Run (Option UInt16) :=
  match sliceFrom? b pos (.ofNat w 2) with
  | none => return none
  | some bytes => return some (Bytes.u16OfBytes (← byte bytes 0) (← byte bytes 1))

/-- The four-byte field at `pos`, or nothing when it runs past the end. -/
def u32At? (b : ByteArray) (pos : BitVec w) : Run (Option UInt32) :=
  match sliceFrom? b pos (.ofNat w 4) with
  | none => return none
  | some bytes =>
    return some (Bytes.u32OfBytes (← byte bytes 0) (← byte bytes 1) (← byte bytes 2)
      (← byte bytes 3))

/-- The two-byte field of a record, zero when there is none. -/
def field16 (w : Nat) (record : ByteArray) (offset : Nat) : Run UInt16 :=
  return (← u16At? record (.ofNat w offset)).getD 0

/-- The four-byte field of a record, zero when there is none. -/
def field32 (w : Nat) (record : ByteArray) (offset : Nat) : Run UInt32 :=
  return (← u32At? record (.ofNat w offset)).getD 0

/-! ## The end record -/

/-- The fields of an end record. -/
def endRecordOf (w : Nat) (bytes : ByteArray) : Run EndRecord :=
  return {
    disk := ← field16 w bytes 4
    directoryDisk := ← field16 w bytes 6
    entriesOnDisk := ← field16 w bytes 8
    entryCount := ← field16 w bytes 10
    directorySize := ← field32 w bytes 12
    directoryOffset := ← field32 w bytes 16 }

/-- The record at a position, if there is one. -/
def recordAt? (o : Overflow) (b : ByteArray) (pos : BitVec w) : Run (Option EndRecord) := do
  if (← u32At? b pos) ≠ some EndRecord.signature then
    return none
  else
    match ← u16At? b (← add o pos (.ofNat w 20)) with
    | none => return none
    | some comment =>
      let fixedEnd ← add o pos (.ofNat w EndRecord.fixedLength)
      if length w b < (← add o fixedEnd (.ofNat w comment.toNat)) then
        return none
      else
        let bytes ← slice b pos (← add o pos (.ofNat w EndRecord.fixedLength))
        return some (← endRecordOf w bytes)

/-- Checks a record against the length of its archive. The end of the directory is computed in 64
bits. -/
def checkRecord (o : Overflow) (r : EndRecord) (archiveLength : BitVec w) : Run Unit := do
  if r.disk ≠ 0 ∨ r.directoryDisk ≠ 0 ∨ r.entriesOnDisk ≠ r.entryCount then
    reject .multiDisk
  else if r.entryCount = 0xFFFF ∨ r.directorySize = 0xFFFFFFFF ∨ r.directoryOffset = 0xFFFFFFFF then
    reject .zip64
  else
    let stop ← add o (.ofNat 64 r.directoryOffset.toNat) (.ofNat 64 r.directorySize.toNat)
    if archiveLength.setWidth 64 < stop then
      reject (.directoryOutOfBounds r.directoryOffset.toNat r.directorySize.toNat
        (archiveLength.setWidth 64).toNat)
    else
      return ()

/-- The last record among the `count` positions from `first`, which must pass its check. The
positions are those of a range, so going from one to the next is no sum of the reader's. -/
def lastRecord (o : Overflow) (b : ByteArray) (first : BitVec w) : (count : Nat) → Run EndRecord
  | 0 => reject .missingEndRecord
  | count + 1 => do
    match ← recordAt? o b (.ofNat w (first.toNat + count)) with
    | none => lastRecord o b first count
    | some record =>
      checkRecord o record (length w b)
      return record

/-- The end record of an archive. -/
def findRecord (o : Overflow) (w : Nat) (b : ByteArray) : Run EndRecord :=
  match checkedSub? (length w b) (.ofNat w EndRecord.fixedLength) with
  | none => reject .missingEndRecord
  | some last =>
    let first := saturatingSub (length w b) (.ofNat w EndRecord.maxLength)
    lastRecord o b first (last.toNat + 1 - first.toNat)

/-! ## Entries -/

/-- The fields of a local header. -/
def localHeaderOf (w : Nat) (bytes : ByteArray) : Run LocalHeader :=
  return {
    signature := ← field32 w bytes 0
    nameLength := ← field16 w bytes 26
    extraLength := ← field16 w bytes 28 }

/-- Where the data of an entry begins and ends. -/
def dataRange (o : Overflow) (b : ByteArray) (name : String) (localOffset compressedSize : UInt32) :
    Run (BitVec w × BitVec w) :=
  match sliceFrom? b (.ofNat w localOffset.toNat) (.ofNat w LocalHeader.fixedLength) with
  | none => reject (.truncated .localHeader)
  | some bytes => do
    let header ← localHeaderOf w bytes
    if header.signature ≠ LocalHeader.goodSignature then
      reject (.badLocalSignature name header.signature)
    else
      let fixedEnd ← add o (.ofNat w localOffset.toNat) (.ofNat w LocalHeader.fixedLength)
      let nameEnd ← add o fixedEnd (.ofNat w header.nameLength.toNat)
      let start ← add o nameEnd (.ofNat w header.extraLength.toNat)
      match (checkedAdd? start (.ofNat w compressedSize.toNat)).filter (· ≤ length w b) with
      | none => reject (.entryOutOfBounds name)
      | some stop => return (start, stop)

/-- The fields of a directory header. -/
def headerOf (w : Nat) (bytes : ByteArray) : Run DirectoryHeader :=
  return {
    signature := ← field32 w bytes 0
    flags := ← field16 w bytes 8
    method := ← field16 w bytes 10
    compressedSize := ← field32 w bytes 20
    uncompressedSize := ← field32 w bytes 24
    nameLength := ← field16 w bytes 28
    extraLength := ← field16 w bytes 30
    commentLength := ← field16 w bytes 32
    localOffset := ← field32 w bytes 42 }

/-- The name in the header at `pos` in the directory, and where it ends. -/
def nameAt (o : Overflow) (directory : ByteArray) (pos : BitVec w) (header : DirectoryHeader) :
    Run (String × BitVec w) := do
  let nameStart ← add o pos (.ofNat w DirectoryHeader.fixedLength)
  let nameEnd ← add o nameStart (.ofNat w header.nameLength.toNat)
  match slice? directory nameStart nameEnd with
  | none => reject (.truncated .directoryName)
  | some bytes => return (Text.decodeLossy bytes, nameEnd)

/-- Where a header ends whose name ends at `nameEnd` in the directory. -/
def headerEnd (o : Overflow) (directory : ByteArray) (nameEnd : BitVec w)
    (header : DirectoryHeader) : Run (BitVec w) := do
  let extraEnd ← add o nameEnd (.ofNat w header.extraLength.toNat)
  let stop ← add o extraEnd (.ofNat w header.commentLength.toNat)
  if length w directory < stop then
    reject (.truncated .directoryExtra)
  else
    return stop

/-- Reads the entry whose header is at `pos` in the directory, which begins at `start`; also gives
where the next header is. -/
def readEntry (o : Overflow) (b directory : ByteArray) (start pos : BitVec w) :
    Run (Entry × BitVec w) := do
  match slice? directory pos (← add o pos (.ofNat w DirectoryHeader.fixedLength)) with
  | none => reject (.truncated .directoryHeader)
  | some bytes =>
    let header ← headerOf w bytes
    if header.signature ≠ DirectoryHeader.goodSignature then
      reject (.badDirectorySignature (← add o start pos).toNat header.signature)
    else if header.needsZip64 then
      reject .zip64
    else
      let (name, nameEnd) ← nameAt o directory pos header
      let next ← headerEnd o directory nameEnd header
      let (dataStart, _) ← dataRange (w := w) o b name header.localOffset header.compressedSize
      return ({
        name
        flags := header.flags
        method := Method.ofNumber header.method
        compressedSize := header.compressedSize
        uncompressedSize := header.uncompressedSize
        localOffset := header.localOffset
        dataStart := dataStart.toNat }, next)

/-- Reads `count` entries from `pos` on, behind those in `acc`, of which the newest is first. -/
def readEntries (o : Overflow) (b directory : ByteArray) (start : BitVec w) :
    (count : Nat) → (pos : BitVec w) → (acc : List Entry) → Run (List Entry)
  | 0, _, acc => return acc.reverse
  | count + 1, pos, acc => do
    let (entry, next) ← readEntry o b directory start pos
    readEntries o b directory start count next (entry :: acc)

end

/-! ## Archives -/

/-- Reads the central directory of an archive, in words of `w` bits. -/
def ofBytes (o : Overflow) (w : Nat) (b : ByteArray) (limits : ArchiveLimits) : Run Archive := do
  let record ← findRecord o w b
  let start := BitVec.ofNat w record.directoryOffset.toNat
  let directory ← slice b start (← add o start (.ofNat w record.directorySize.toNat))
  let entries ← readEntries o b directory start record.entryCount.toNat 0 []
  return { data := b, entries, limits }

end BrowserTrace.Words
