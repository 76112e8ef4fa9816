import ClassInstrument.Storage.Archive.Fault
import ClassInstrument.Storage.Checksum
import ClassInstrument.Storage.Deflate

/-!
# Entries as they stand in an archive

An entry of an archive is a header with the packed bytes of the entry behind it.  What the directory
of the archive tells about an entry counts; of the header in front of the bytes only the length is
used, which is not known before it is read.

Numbers are written with the lowest byte first, and every header and record starts with a mark of
its kind.
-/

namespace ClassInstrument

namespace Archive

/-! ## Numbers and marks -/

/-- The number that stands at an offset in so many bytes. -/
def number? (bytes : ByteArray) (offset : Nat) : Nat → Option Nat
  | 0 => some 0
  | width + 1 =>
    if h : offset < bytes.size then do
      return bytes[offset].toNat + 256 * (← number? bytes (offset + 1) width)
    else none

/-- The bytes of a range that lies within a file. -/
def range? (bytes : ByteArray) (offset length : Nat) : Option Bytes :=
  if offset + length ≤ bytes.size then some (bytes.extract offset (offset + length)).data.toList
  else none

/-- What the header of an entry starts with. -/
def headerMark : Nat := 0x04034B50

/-- What the header of an entry in the directory starts with. -/
def directoryMark : Nat := 0x02014B50

/-- What the record at the end starts with. -/
def endMark : Nat := 0x06054B50

/-- What the record for wide numbers starts with. -/
def wideMark : Nat := 0x06064B50

/-- What the record that leads to the one for wide numbers starts with. -/
def locatorMark : Nat := 0x07064B50

/-- A number of two bytes that stands for one that has no room in them. -/
def full2 : Nat := 0xFFFF

/-- A number of four bytes that stands for one that has no room in them. -/
def full4 : Nat := 0xFFFFFFFF

/-- Does a mark stand at an offset? -/
def hasMark (bytes : ByteArray) (mark offset : Nat) : Bool := number? bytes offset 4 == some mark

/-- The first offset of a mark among so many offsets from one on. -/
def firstMark? (bytes : ByteArray) (mark offset : Nat) : Nat → Option Nat
  | 0 => none
  | count + 1 =>
    if hasMark bytes mark offset then some offset else firstMark? bytes mark (offset + 1) count

/-- The offsets of a mark among so many offsets from the beginning on, the last one first. -/
def marksBackwards (bytes : ByteArray) (mark : Nat) : Nat → List Nat
  | 0 => []
  | count + 1 =>
    if hasMark bytes mark count then count :: marksBackwards bytes mark count
    else marksBackwards bytes mark count

/-! ## Headers -/

/-- No file has a byte at this offset or behind it. -/
def reach : Nat := 0x8000000000000000

/-- The length of a header without the name and the fields that are added to it. -/
def headerLength : Nat := 30

/-- Where the packed bytes of the entry start whose header stands at an offset. -/
def packedStart (bytes : ByteArray) (offset : Nat) : Except ArchiveFault Nat :=
  if reach ≤ offset then .error .outOfReach
  else if bytes.size < offset + headerLength then .error .cut
  else if !hasMark bytes headerMark offset then .error .noHeader
  else
    let nameLength := (number? bytes (offset + 26) 2).getD 0
    let extraLength := (number? bytes (offset + 28) 2).getD 0
    .ok (offset + headerLength + nameLength + extraLength)

end Archive

/-! ## Unpacking -/

/-- What the directory of an archive tells about the bytes of an entry. -/
structure StoredBytes where
  /-- Where the header in front of them stands. -/
  header : Nat
  /-- How many they are. -/
  length : Nat
  /-- The number of the way in which they are packed. -/
  method : Nat
  /-- The checksum of what they are unpacked to. -/
  checksum : Nat
  /-- Is a password needed? -/
  isEncrypted : Bool
deriving DecidableEq, Repr

/-- What stored bytes are unpacked to in an archive.  If the archive ends before them, only those
that are there count. -/
def StoredBytes.unpack (stored : StoredBytes) (archive : ByteArray) : Except ArchiveFault Bytes := do
  if stored.isEncrypted then throw .encrypted
  let start ← Archive.packedStart archive stored.header
  let packed := archive.extract start (min (start + stored.length) archive.size)
  let unpacked ←
    match stored.method with
    | 0 => pure packed
    | 8 =>
      match Deflate.unpack packed with
      | some unpacked => pure unpacked
      | none => throw .badCompression
    | _ => throw .unknownMethod
  let bytes := unpacked.data.toList
  if (Checksum.ofBytes bytes).toNat = stored.checksum then return bytes else throw .badChecksum

end ClassInstrument
