import ClassInstrument.Storage.Archive.Stored
import ClassInstrument.Text.CodePage437
import ClassInstrument.Text.Utf8

/-!
# Headers in the directory of an archive

The directory of an archive has a header for every entry.  Behind its numbers stand a name, fields
that are added to the header, and a comment.

An added field has a number for its kind and a length.  Fields are read one after the other, and each
takes the bytes that its kind asks for, even if its length is smaller.  Reading ends with the bytes,
and what has been read counts then; a field that contradicts itself or the header makes the whole
directory unreadable.
-/

namespace ClassInstrument

namespace Archive

/-- The header of an entry in the directory. -/
structure Header where
  /-- The name. -/
  name : String
  /-- The bytes of the name. -/
  nameBytes : Bytes
  /-- The comment. -/
  comment : String
  /-- The bytes of the entry. -/
  stored : StoredBytes
  /-- The number of bytes to which they are unpacked. -/
  unpackedLength : Nat

/-! ## Added fields -/

/-- Why the fields of a header are not read on. -/
inductive FieldStop where
  /-- There are no more bytes. -/
  | ended
  /-- A field contradicts itself or the header. -/
  | refused
deriving DecidableEq, Repr

/-- A header while its fields are read. -/
structure FieldState where
  /-- The header, with what has been read. -/
  header : Header
  /-- The bytes that are left. -/
  rest : Bytes

/-- Reads fields; what has been read counts even if reading stops. -/
abbrev FieldReading := ExceptT FieldStop (StateM FieldState)

namespace FieldReading

/-- Takes so many bytes. -/
def bytes (count : Nat) : FieldReading Bytes := do
  let state ← get
  if state.rest.length < count then throw .ended
  else
    set { state with rest := state.rest.drop count }
    return state.rest.take count

/-- Passes over so many bytes. -/
def skip (count : Nat) : FieldReading Unit := do
  let _ ← bytes count

/-- Takes a number of so many bytes. -/
def number (width : Nat) : FieldReading Nat := do
  return Bytes.toNat (← bytes width).reverse

/-- Goes on only if a condition holds. -/
def require (holds : Bool) : FieldReading Unit := if holds then return () else throw .refused

/-- Changes the header. -/
def change (act : Header → Header) : FieldReading Unit :=
  modify fun state => { state with header := act state.header }

/-- Takes a wide number, if all are wide or the one whose place it takes is full, and gives the number
of bytes that it takes. -/
def wide (areWide : Bool) (value : Nat) (put : Nat → Header → Header) : FieldReading Nat := do
  if areWide || value == full4 then
    change (put (← number 8))
    return 8
  else return 0

/-- A field of wide numbers, which take the place of full ones.  If there is room for all of them,
they take the place of the others too. -/
def wideNumbers (length : Nat) : FieldReading Unit := do
  let header := (← get).header
  let areWide := decide (24 ≤ length)
  let unpacked ← wide areWide header.unpackedLength fun n header =>
    { header with unpackedLength := n }
  let packed ← wide areWide header.stored.length fun n header =>
    { header with stored := { header.stored with length := n } }
  let start ← wide areWide header.stored.header fun n header =>
    { header with stored := { header.stored with header := n } }
  let used := unpacked + packed + start
  require (decide (used ≤ length))
  skip (length - used)

/-- The bytes of a text in Unicode that takes the place of a text whose bytes have the checksum that
stands before it. -/
def unicode (old : Bytes) (length : Nat) : FieldReading Bytes := do
  skip 1
  let checksum ← number 4
  require (decide (5 ≤ length))
  let text ← bytes (length - 5)
  require ((Checksum.ofBytes old).toNat == checksum)
  return text

/-- A field with the name in Unicode. -/
def unicodeName (length : Nat) : FieldReading Unit := do
  let nameBytes ← unicode (← get).header.nameBytes length
  match String.fromUTF8? ⟨nameBytes.toArray⟩ with
  | none => throw .refused
  | some name => change fun header => { header with name, nameBytes }

/-- A field with the comment in Unicode. -/
def unicodeComment (length : Nat) : FieldReading Unit := do
  let text ← unicode (← get).header.comment.toUTF8.data.toList length
  match String.fromUTF8? ⟨text.toArray⟩ with
  | none => throw .refused
  | some comment => change fun header => { header with comment }

/-- A field of up to three times in seconds, after a bit for each of them.  The bits may tell of
times that only stand in the other header, if the field has room for one time. -/
def seconds (length : Nat) : FieldReading Unit := do
  let flags ← number 1
  let count := (List.range 8).countP fun place => flags.testBit place
  require (length == 5 || length == 1 + 4 * count)
  require (decide (flags < 8))
  skip (if length = 5 then 4 else 4 * count)

/-- A field of three times in finer units. -/
def fineTimes (length : Nat) : FieldReading Unit := do
  require (length == 32)
  skip 4
  let tag ← number 2
  require (tag == 1)
  let size ← number 2
  require (size == 24)
  skip 24

/-- A field of a kind and a length. -/
def field (kind length : Nat) : FieldReading Unit :=
  match kind with
  | 0x0001 => wideNumbers length
  | 0x000A => fineTimes length
  | 0x5455 => seconds length
  | 0x6375 => unicodeComment length
  | 0x7075 => unicodeName length
  | _ => skip length

/-- So many fields. -/
def fields : Nat → FieldReading Unit
  | 0 => return ()
  | count + 1 => do
    let kind ← number 2
    let length ← number 2
    field kind length
    fields count

end FieldReading

/-- The header with the fields in some bytes added, of which there are no more than bytes. -/
def Header.withFields (header : Header) (extra : Bytes) : Option Header :=
  match (FieldReading.fields extra.length).run.run { header, rest := extra } with
  | (.error .refused, _) => none
  | (_, state) => some state.header

/-! ## Listed entries -/

/-- An entry that a directory lists: its name and what is told about its bytes. -/
abbrev Listed := String × StoredBytes

/-- No offset is as large as this. -/
def offsetBound : Nat := 0x10000000000000000

/-- The entry whose header in the directory stands at an offset, and the offset behind the header.
The entry is shifted as far as given. -/
def listed? (bytes : ByteArray) (shift offset : Nat) : Option (Listed × Nat) := do
  guard (hasMark bytes directoryMark offset)
  let flags ← number? bytes (offset + 8) 2
  let nameLength ← number? bytes (offset + 28) 2
  let extraLength ← number? bytes (offset + 30) 2
  let commentLength ← number? bytes (offset + 32) 2
  let header ← number? bytes (offset + 42) 4
  let nameBytes ← range? bytes (offset + 46) nameLength
  let extra ← range? bytes (offset + 46 + nameLength) extraLength
  let comment ← range? bytes (offset + 46 + nameLength + extraLength) commentLength
  let decode := if flags.testBit 11 then Utf8.decode else CodePage437.decode
  let plain : Header := {
    name := decode nameBytes
    nameBytes
    comment := decode comment
    stored := {
      header
      length := ← number? bytes (offset + 20) 4
      method := ← number? bytes (offset + 10) 2
      checksum := ← number? bytes (offset + 16) 4
      isEncrypted := flags.testBit 0 }
    unpackedLength := ← number? bytes (offset + 24) 4 }
  let full ← plain.withFields extra
  let start := full.stored.header + shift
  guard (start < offsetBound)
  let next := offset + 46 + nameLength + extraLength + commentLength
  return ((full.name, { full.stored with header := start }), next)

/-- So many entries of a directory, from an offset on. -/
def listedFrom? (bytes : ByteArray) (shift : Nat) : Nat → Nat → Option (List Listed)
  | 0, _ => some []
  | count + 1, offset => do
    let (entry, next) ← listed? bytes shift offset
    return entry :: (← listedFrom? bytes shift count next)

/-- The entries with one for each name: the last one, at the place of the first. -/
def lastOfEach (entries : List Listed) : List Listed :=
  let names := (entries.map Prod.fst).eraseDups
  let reversed := entries.reverse
  names.filterMap fun name => (reversed.lookup name).map (name, ·)

end Archive

end ClassInstrument
