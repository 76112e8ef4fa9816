import ClassInstrument.Storage.Archive.Directory
import ClassInstrument.Storage.Tree

/-!
# Archives as files

An archive that has been opened has members, each with a name and with bytes that are unpacked when
they are asked for.  A file that holds an archive which is known by its entries is opened without
looking at bytes at all; in any other file, the directory is looked for.  What stands in the file
then need not be there any more when a member is unpacked.

`Archive.write` gives the bytes of an archive whose entries are stored as they are, at a fixed date.
-/

namespace ClassInstrument

/-- The bytes of a member of an archive. -/
inductive Packing where
  /-- The bytes themselves, and where the header stands in front of them. -/
  | known (bytes : Bytes) (header : Nat)
  /-- Bytes that stand in the file. -/
  | stored (form : StoredBytes)
deriving DecidableEq, Repr

/-- The bytes of a member, if the stored ones are found in given bytes. -/
def Packing.unpack (packing : Packing) (source : ByteArray) : Except ArchiveFault Bytes :=
  match packing with
  | .known bytes _ => .ok bytes
  | .stored form => form.unpack source

/-- What an archive holds under a name. -/
structure ArchiveMember where
  /-- The name. -/
  name : String
  /-- The bytes. -/
  packing : Packing
deriving DecidableEq, Repr

/-- An archive that has been opened. -/
structure Archive where
  /-- What the file held then. -/
  content : FileContent
  /-- The members, in the order of the directory. -/
  members : List ArchiveMember

namespace Archive

/-- The members of an archive that is known by its entries, which stand one behind the other from an
offset on. -/
def knownMembers : Nat → List ArchiveEntry → List ArchiveMember
  | _, [] => []
  | offset, entry :: rest =>
    let next := offset + headerLength + entry.name.utf8ByteSize + entry.bytes.length
    ⟨entry.name, .known entry.bytes offset⟩ :: knownMembers next rest

/-- Opens the archive in a file. -/
def ofContent (content : FileContent) : Except ArchiveFault Archive :=
  match content with
  | .archive entries => .ok { content, members := knownMembers 0 entries }
  | .bytes bytes => do
    let listed ← directory ⟨bytes.toArray⟩
    return { content, members := listed.map fun (name, stored) => ⟨name, .stored stored⟩ }

/-- The bytes in which stored members are found. -/
def source : FileContent → ByteArray
  | .bytes bytes => ⟨bytes.toArray⟩
  | .archive _ => ByteArray.empty

/-- Are the members of an archive still there, if its file holds something else now?  What looks like
an archive has taken the place of the whole file, which can still be read, and anything else has been
written over it. -/
def isKept (archive : Archive) (now : FileContent) : Bool :=
  now.looksLikeArchive || now == archive.content

/-- The bytes of a member, if the file holds something else now. -/
def unpackNow (archive : Archive) (now : FileContent) (member : ArchiveMember) :
    Except ArchiveFault Bytes :=
  if archive.isKept now then member.packing.unpack (source archive.content)
  else
    match member.packing with
    | .known _ header => do
      let _ ← packedStart (source now) header
      throw .badCompression
    | .stored form => form.unpack (source now)

/-- The members with their bytes, up to the first one that cannot be unpacked, and what is wrong with
that one. -/
def unpackAll (source : ByteArray) : List ArchiveMember → List ArchiveEntry × Option ArchiveFault
  | [] => ([], none)
  | member :: rest =>
    match member.packing.unpack source with
    | .error fault => ([], some fault)
    | .ok bytes =>
      let (entries, fault) := unpackAll source rest
      (⟨member.name, bytes⟩ :: entries, fault)

/-- The entries of an archive, up to the first one that cannot be unpacked, and what is wrong with
that one. -/
def entries (archive : Archive) : List ArchiveEntry × Option ArchiveFault :=
  unpackAll (source archive.content) archive.members

/-! ## Writing -/

/-- A number in so many bytes, the lowest first. -/
def number (width n : Nat) : Bytes := (Bytes.ofNat width n).reverse

/-- What both headers of an entry have in common: that its name is in Unicode, that its bytes are
stored as they are, the first day of 1980, the checksum, the lengths, and that nothing else is
told. -/
def common (entry : ArchiveEntry) : Bytes :=
  number 2 20 ++ number 2 0x0800 ++ number 2 0 ++ number 2 0 ++ number 2 0x0021 ++
    number 4 (Checksum.ofBytes entry.bytes).toNat ++ number 4 entry.bytes.length ++
    number 4 entry.bytes.length ++ number 2 entry.name.utf8ByteSize ++ number 2 0

/-- The bytes of the name of an entry. -/
def nameBytes (entry : ArchiveEntry) : Bytes := entry.name.toUTF8.data.toList

/-- An entry behind its header. -/
def record (entry : ArchiveEntry) : Bytes :=
  number 4 headerMark ++ common entry ++ nameBytes entry ++ entry.bytes

/-- The kind of an entry, and who may read and write it. -/
def mode (entry : ArchiveEntry) : Nat := if entry.isDirectory then 0o40755 else 0o100644

/-- The header in the directory of an entry that stands at an offset. -/
def directoryHeader (entry : ArchiveEntry) (offset : Nat) : Bytes :=
  number 4 directoryMark ++ number 1 20 ++ number 1 3 ++ common entry ++ number 2 0 ++ number 2 0 ++ number 2 0 ++
    number 4 (mode entry <<< 16) ++ number 4 offset ++ nameBytes entry

/-- The headers of entries that stand one behind the other from an offset on. -/
def headers : Nat → List ArchiveEntry → Bytes
  | _, [] => []
  | offset, entry :: rest =>
    directoryHeader entry offset ++ headers (offset + (record entry).length) rest

/-- The bytes of an archive. -/
def write (entries : List ArchiveEntry) : Bytes :=
  let records := entries.flatMap record
  let listed := headers 0 entries
  records ++ listed ++ number 4 endMark ++ number 2 0 ++ number 2 0 ++ number 2 entries.length ++
    number 2 entries.length ++ number 4 listed.length ++ number 4 records.length ++ number 2 0

end Archive

namespace FileContent

/-- The bytes of a file. -/
def toBytes : FileContent → Bytes
  | bytes content => content
  | archive entries => Archive.write entries

/-- The contents of a file as they are shown: an archive by its entries, and any other file as it
is. -/
def shown (content : FileContent) : FileContent :=
  if content.looksLikeArchive then
    match (Archive.ofContent content).map Archive.entries with
    | .ok (entries, none) => archive entries
    | _ => content
  else content

end FileContent

end ClassInstrument
