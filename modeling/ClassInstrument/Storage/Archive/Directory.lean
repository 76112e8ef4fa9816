import ClassInstrument.Storage.Archive.Header

/-!
# The directory of an archive

An archive ends with a directory of its entries, and the directory ends with a record that tells
where it starts.  If the numbers of that record have no room for what they tell, another record with
wider numbers stands before it, and a locator between the two that leads to it.

The record is looked for from the end on, since a comment may stand behind it; a record that does not
lead to a directory is taken for a part of that comment.  All offsets are counted from the first
entry, and something else may stand before it; how far the entries are shifted is seen from the place
where the directory, or the record with wide numbers, is found.
-/

namespace ClassInstrument

namespace Archive

/-- Where a directory starts, and how far all offsets are shifted. -/
structure DirectoryPlace where
  /-- The offset of the directory. -/
  start : Nat
  /-- What is added to other offsets. -/
  shift : Nat
  /-- The number of entries. -/
  count : Nat
  /-- Do the numbers that lead to the directory agree with each other? -/
  isSound : Bool

/-- The entries of the directory at a place. -/
def listing? (bytes : ByteArray) (place : DirectoryPlace) : Option (List Listed) :=
  if place.isSound then listedFrom? bytes place.shift place.count place.start else none

/-- The record at the end of an archive, without the length of the comment. -/
structure EndRecord where
  /-- The number of this part of the archive. -/
  disk : Nat
  /-- The number of the part in which the directory starts. -/
  directoryDisk : Nat
  /-- The number of entries in this part. -/
  countHere : Nat
  /-- The number of entries. -/
  count : Nat
  /-- The offset of the directory. -/
  offset : Nat

/-- Is all of the archive in the part that holds the directory? -/
def EndRecord.isWhole (record : EndRecord) : Bool := record.disk == record.directoryDisk

/-- The record that stands at an offset. -/
def endRecord (bytes : ByteArray) (offset : Nat) : Except ArchiveFault EndRecord :=
  let record : Option (EndRecord × Nat) := do
    return ({
      disk := ← number? bytes (offset + 4) 2
      directoryDisk := ← number? bytes (offset + 6) 2
      countHere := ← number? bytes (offset + 8) 2
      count := ← number? bytes (offset + 10) 2
      offset := ← number? bytes (offset + 16) 4 }, ← number? bytes (offset + 20) 2)
  match record with
  | none => .error .cut
  | some (record, commentLength) =>
    if offset + 22 + commentLength ≤ bytes.size then .ok record else .error .cutComment

/-- Where the directory starts, by a record at the end that stands at an offset. -/
def narrowPlace (bytes : ByteArray) (record : EndRecord) (offset : Nat) :
    Except ArchiveFault DirectoryPlace :=
  let place := fun (start shift : Nat) =>
    Except.ok { start, shift, count := record.countHere, isSound := record.isWhole }
  if record.count = 0 then place (max record.offset offset) (offset - record.offset)
  else if offset ≤ record.offset then .error .misplacedDirectory
  else
    match firstMark? bytes directoryMark record.offset (offset - record.offset) with
    | some start => place start (start - record.offset)
    | none => .error .noDirectory

/-! ## Wide numbers -/

/-- The record for wide numbers. -/
structure WideRecord where
  /-- The number of bytes behind this number. -/
  size : Nat
  /-- The version by which the archive was made. -/
  madeBy : Nat
  /-- The version that is needed for reading it. -/
  needed : Nat
  /-- What the record at the end tells. -/
  record : EndRecord

/-- Do the numbers of a record agree with each other? -/
def WideRecord.isSound (wide : WideRecord) : Bool :=
  decide (wide.record.countHere ≤ wide.record.count) && decide (wide.needed ≤ wide.madeBy) &&
    wide.record.isWhole

/-- The numbers of the record for wide numbers that stands at an offset. -/
def wideNumbers? (bytes : ByteArray) (offset : Nat) : Option WideRecord := do
  return {
    size := ← number? bytes (offset + 4) 8
    madeBy := ← number? bytes (offset + 12) 2
    needed := ← number? bytes (offset + 14) 2
    record := {
      disk := ← number? bytes (offset + 16) 4
      directoryDisk := ← number? bytes (offset + 20) 4
      countHere := ← number? bytes (offset + 24) 8
      count := ← number? bytes (offset + 32) 8
      offset := ← number? bytes (offset + 48) 8 } }

/-- What leads to the record for wide numbers. -/
structure Locator where
  /-- Where it stands. -/
  place : Nat
  /-- The number of the part in which the directory starts. -/
  directoryDisk : Nat
  /-- The offset of the record for wide numbers. -/
  offset : Nat
  /-- The number of parts of the archive. -/
  parts : Nat

/-- The locator that stands at an offset. -/
def locator? (bytes : ByteArray) (place : Nat) : Option Locator := do
  return {
    place
    directoryDisk := ← number? bytes (place + 4) 4
    offset := ← number? bytes (place + 8) 8
    parts := ← number? bytes (place + 16) 4 }

/-- The record for wide numbers that stands at an offset and ends at its locator. -/
def wideRecord (bytes : ByteArray) (locator : Locator) (offset : Nat) :
    Except ArchiveFault WideRecord :=
  match wideNumbers? bytes offset with
  | none => .error .cut
  | some wide =>
    if wide.size < 44 then .error .shortWideRecord
    else if locator.place - offset < wide.size + 12 then .error .longWideRecord
    else if wide.record.directoryDisk ≠ locator.directoryDisk then .error .differentParts
    else if wide.size + 12 ≠ locator.place - offset then .error .detachedWideRecord
    else if offset < wide.record.count * 46 + wide.record.offset then .error .tooManyEntries
    else .ok wide

/-- The first record for wide numbers with nothing wrong, and where it stands, among so many offsets
from one on, or what is wrong with the last one. -/
def wideRecordFrom (bytes : ByteArray) (locator : Locator) (fault : ArchiveFault) :
    Nat → Nat → Except ArchiveFault (WideRecord × Nat)
  | _, 0 => .error fault
  | offset, count + 1 =>
    if hasMark bytes wideMark offset then
      match wideRecord bytes locator offset with
      | .ok wide => .ok (wide, offset)
      | .error fault => wideRecordFrom bytes locator fault (offset + 1) count
    else wideRecordFrom bytes locator fault (offset + 1) count

/-- Where the directory starts, by the record for wide numbers to which a locator leads. -/
def widePlace (bytes : ByteArray) (locator : Locator) : Except ArchiveFault DirectoryPlace := do
  if locator.place ≤ locator.offset then throw .misplacedWideRecord
  if 1 < locator.parts then throw .severalParts
  let (wide, offset) ←
    wideRecordFrom bytes locator .noWideRecord locator.offset (locator.place - locator.offset)
  let shift := offset - locator.offset
  return {
    start := wide.record.offset + shift
    shift
    count := wide.record.count
    isSound := wide.isSound }

/-! ## The directory -/

/-- The locator in front of a record at the end that stands at an offset, if it is needed and is
there. -/
def locatorBefore? (bytes : ByteArray) (record : EndRecord) (offset : Nat) : Option Locator := do
  guard (record.count = full2 ∨ record.offset = full4)
  guard (20 ≤ offset ∧ hasMark bytes locatorMark (offset - 20))
  locator? bytes (offset - 20)

/-- Where the directory starts, by a record at the end that stands at an offset. -/
def directoryPlace (bytes : ByteArray) (record : EndRecord) (offset : Nat) :
    Except ArchiveFault DirectoryPlace :=
  match locatorBefore? bytes record offset with
  | some locator => widePlace bytes locator
  | none => narrowPlace bytes record offset

/-- The entries of an archive, by the first of the records at some offsets that leads to a directory,
or what is wrong with the records.  A record that is cut off does not count if something else is
wrong before. -/
def directoryFrom (bytes : ByteArray) :
    Option ArchiveFault → List Nat → Except ArchiveFault (List Listed)
  | fault, [] => .error (fault.getD .noEndRecord)
  | fault, offset :: rest =>
    match endRecord bytes offset with
    | .error cause => directoryFrom bytes (fault.or (some cause)) rest
    | .ok record =>
      match directoryPlace bytes record offset with
      | .error fault => directoryFrom bytes (some fault) rest
      | .ok place =>
        match listing? bytes place with
        | some entries => .ok (lastOfEach entries)
        | none => directoryFrom bytes none rest

/-- The entries that an archive lists. -/
def directory (bytes : ByteArray) : Except ArchiveFault (List Listed) :=
  directoryFrom bytes none (marksBackwards bytes endMark (bytes.size - 3))

end Archive

end ClassInstrument
