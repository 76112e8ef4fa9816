/-!
# What can go wrong with an archive

Either the directory of an archive cannot be found, or an entry that it lists cannot be unpacked.
Nothing of an entry but what the directory tells is looked at before the entry is unpacked.
-/

namespace ClassInstrument

/-- Why an archive, or an entry of it, cannot be read. -/
inductive ArchiveFault where
  /-- There is no record at the end. -/
  | noEndRecord
  /-- The file ends inside a record or header. -/
  | cut
  /-- The comment behind the record at the end is cut off. -/
  | cutComment
  /-- The directory does not stand before the record at the end. -/
  | misplacedDirectory
  /-- There is no entry where the directory starts. -/
  | noDirectory
  /-- There is no record for the numbers that the record at the end has no room for. -/
  | noWideRecord
  /-- The record for wide numbers does not stand before its locator. -/
  | misplacedWideRecord
  /-- The archive consists of several parts. -/
  | severalParts
  /-- The record for wide numbers is shorter than its numbers. -/
  | shortWideRecord
  /-- The record for wide numbers does not end before its locator. -/
  | longWideRecord
  /-- The record for wide numbers and its locator name different parts. -/
  | differentParts
  /-- The record for wide numbers does not end where its locator stands. -/
  | detachedWideRecord
  /-- There is no room for all entries before the record for wide numbers. -/
  | tooManyEntries
  /-- An entry starts behind everything that a file can hold. -/
  | outOfReach
  /-- There is no header where an entry starts. -/
  | noHeader
  /-- An entry can only be read with a password. -/
  | encrypted
  /-- The way in which an entry is packed is not known. -/
  | unknownMethod
  /-- The compressed form of an entry is malformed. -/
  | badCompression
  /-- The bytes of an entry do not have its checksum. -/
  | badChecksum
deriving DecidableEq, Repr

/-- The text shown for an archive that cannot be read. -/
def ArchiveFault.message : ArchiveFault → String
  | noEndRecord => "invalid Zip archive: Could not find EOCD"
  | cut => "i/o error: failed to fill whole buffer"
  | cutComment => "invalid Zip archive: EOCD comment exceeds file boundary"
  | misplacedDirectory => "invalid Zip archive: Invalid CDFH offset in EOCD"
  | noDirectory => "invalid Zip archive: No CDFH found"
  | noWideRecord => "invalid Zip archive: Could not find EOCD64"
  | misplacedWideRecord => "invalid Zip archive: Invalid EOCD64 Locator CD offset"
  | severalParts => "invalid Zip archive: Multi-disk ZIP files are not supported"
  | shortWideRecord => "invalid Zip archive: Low EOCD64 record size"
  | longWideRecord => "invalid Zip archive: EOCD64 extends beyond EOCD64 locator"
  | differentParts => "invalid Zip archive: Invalid EOCD64: inconsistency with Locator data"
  | detachedWideRecord => "invalid Zip archive: Invalid EOCD64: inconsistent length"
  | tooManyEntries => "invalid Zip archive: Invalid EOCD64: inconsistent number of files"
  | outOfReach => "i/o error: os error 22"
  | noHeader => "invalid Zip archive: Invalid local file header"
  | encrypted => "unsupported Zip archive: Password required to decrypt file"
  | unknownMethod => "unsupported Zip archive: Compression method not supported"
  | badCompression => "corrupt deflate stream"
  | badChecksum => "Invalid checksum"

end ClassInstrument
