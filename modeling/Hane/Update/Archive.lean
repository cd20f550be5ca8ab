import Hane.Foundations.Checked
import Hane.Foundations.LittleEndian
import Hane.Update.Paths
import Hane.Update.Catalog
import Mathlib.Data.List.Sort

/-! The strict reader of ZIP archives that runs before anything is extracted. -/

namespace Hane.Update.Archive

open Foundations

def sigEocd : Nat := 0x06054b50
def sigCentral : Nat := 0x02014b50
def sigLocal : Nat := 0x04034b50
def eocdLen : Nat := 22
def localHeaderLen : Nat := 30
def allowedFlags : Nat := 0x0806 ||| 0x0008
def flagEncrypted : Nat := 0x0001 ||| 0x0040 ||| 0x2000
def flagDataDescriptor : Nat := 0x0008
def dosAttrDirectory : Nat := 0x10
def dosAttrReparse : Nat := 0x400
def hostUnix : Nat := 3
def maxCentralDirectoryBytes : Nat := 16 <<< 20
def maxCompressionRatio : Nat := 500
def ratioCheckMinBytes : Nat := 1 <<< 20
/-- The largest 16-bit and 32-bit values, which ZIP64 archives store as escapes. -/
def u16Max : Nat := 2 ^ 16 - 1
def u32Max : Nat := 2 ^ 32 - 1

def reject (detail : String) : UpdateError := ⟨.archiveRejected, detail⟩

def limitExceeded (detail : String) : UpdateError := ⟨.limitExceeded, detail⟩

inductive Method where
  | stored
  | deflate
  deriving DecidableEq, Repr

structure ArchiveLimits where
  maxArchiveBytes : UInt64
  maxEntries : UInt64
  maxEntryBytes : UInt64
  maxTotalBytes : UInt64
  deriving DecidableEq, Repr

structure EntryInfo where
  path : String
  isDir : Bool
  size : Nat
  compressedSize : Nat
  method : Method
  crc32 : Nat
  executable : Bool
  sha256 : String
  dataOffset : Nat
  deriving DecidableEq, Repr

structure CentralEntry where
  name : String
  nameBytes : List UInt8
  flags : Nat
  method : Method
  crc32 : Nat
  compressedSize : Nat
  size : Nat
  localOffset : Nat
  isDir : Bool
  executable : Bool
  deriving DecidableEq, Repr

-- Reading bytes

def le16 (data : List UInt8) (offset : Nat) : Nat := leField 2 data offset

def le32 (data : List UInt8) (offset : Nat) : Nat := leField 4 data offset

/-- Reads that consume the bytes of a structure from its front. -/
abbrev Cursor (α : Type) := StateT (List UInt8) (Except UpdateError) α

namespace Cursor

def take (n : Nat) : Cursor (List UInt8) := fun data =>
  if n > data.length then .error (reject "truncated ZIP structure")
  else .ok (data.take n, data.drop n)

def u16 : Cursor Nat := do return fromLeBytes (← take 2)

def u32 : Cursor Nat := do return fromLeBytes (← take 4)

end Cursor

def readExact (bytes : List UInt8) (offset n : Nat) : Except UpdateError (List UInt8) :=
  if offset + n ≤ bytes.length then .ok ((bytes.drop offset).take n)
  else .error (reject "archive read failed: failed to fill whole buffer")

def fromUtf8 (bytes : List UInt8) : Option String := String.fromUTF8? ⟨bytes.toArray⟩

def trimEndSlashes (name : String) : String := String.ofList (name.toList.rdropWhile (· = '/'))

def endsWithSlash (name : String) : Bool := name.toList.getLast? = some '/'

/-- The walk along a chain of extra fields; every field takes at least four bytes, so a chain
has no more fields than bytes.
-/
def checkFields : Nat → Cursor Unit
  | 0 => pure ()
  | fields + 1 => do
    if (← get).length = 0 then return ()
    let id ← .u16
    let length ← .u16
    let _ ← .take length
    if id = 0x0001 then throw (reject "ZIP64 extra field is not supported")
    if id = 0x9901 then throw (reject "AES-encrypted entry")
    checkFields fields

/-- Rejects ZIP64 and AES extra fields and a chain that is not exact. -/
def checkExtra (extra : List UInt8) : Except UpdateError Unit := do
  let _ ← (checkFields extra.length).run extra

-- The central directory

/-- The fixed fields of a central record that are used, and its variable parts. -/
structure CentralRecord where
  madeBy : Nat
  flags : Nat
  method : Nat
  crc32 : Nat
  compressed : Nat
  size : Nat
  disk : Nat
  attributes : Nat
  localOffset : Nat
  nameBytes : List UInt8
  extra : List UInt8

def readCentralRecord : Cursor CentralRecord := do
  if (← .u32) ≠ sigCentral then throw (reject "bad central directory record")
  let madeBy ← .u16
  let _needed ← .u16
  let flags ← .u16
  let method ← .u16
  let _time ← .u16
  let _date ← .u16
  let crc32 ← .u32
  let compressed ← .u32
  let size ← .u32
  let nameLen ← .u16
  let extraLen ← .u16
  let commentLen ← .u16
  let disk ← .u16
  let _internal ← .u16
  let attributes ← .u32
  let localOffset ← .u32
  let nameBytes ← .take nameLen
  let extra ← .take extraLen
  let _comment ← .take commentLen
  return ⟨madeBy, flags, method, crc32, compressed, size, disk, attributes, localOffset,
    nameBytes, extra⟩

def parseMethod (method : Nat) : Except UpdateError Method :=
  match method with
  | 0 => .ok .stored
  | 8 => .ok .deflate
  | other => .error (reject s!"unsupported compression method {other}")

def CentralRecord.isUnix (record : CentralRecord) : Bool := record.madeBy / 2 ^ 8 == hostUnix

def CentralRecord.mode (record : CentralRecord) : Nat := record.attributes / 2 ^ 16

/-- The file type of a Unix mode must agree with the entry's name. -/
def CentralRecord.checkMode (record : CentralRecord) (isDir : Bool) : Except UpdateError Unit :=
  if record.isUnix then
    match record.mode &&& 0o170000 with
    | 0 => .ok ()
    | 0o100000 =>
      if isDir then .error (reject "regular-file mode on a directory name") else .ok ()
    | 0o040000 =>
      if isDir then .ok () else .error (reject "directory mode on a file name")
    | 0o120000 => .error (reject "symbolic link entry")
    | _ => .error (reject "special file entry")
  else .ok ()

def checkName (nameBytes : List UInt8) : Except UpdateError String := do
  let some name := fromUtf8 nameBytes | throw (reject "entry name is not UTF-8")
  if name = "" then throw (reject "empty entry name")
  validateRelPath (trimEndSlashes name)
  if name.toList.reverse.take 2 = ['/', '/'] then throw (reject "empty path component")
  return name

def checkSizes (limits : ArchiveLimits) (method : Method) (isDir : Bool) (size compressed : Nat)
    : Except UpdateError Unit := do
  if size > limits.maxEntryBytes.toNat then
    throw (limitExceeded "entry exceeds the per-entry size limit")
  if method = .stored ∧ compressed ≠ size then
    throw (reject "stored entry with differing sizes")
  if isDir = true ∧ (size ≠ 0 ∨ compressed > 2) then
    throw (reject "directory entry with data")
  if size ≥ ratioCheckMinBytes ∧ (compressed = 0 ∨ size / compressed > maxCompressionRatio) then
    throw (reject "compression ratio looks like a decompression bomb")

def checkCentralRecord (limits : ArchiveLimits) (record : CentralRecord)
    : Except UpdateError CentralEntry := do
  if record.flags &&& flagEncrypted ≠ 0 then throw (reject "encrypted entry")
  if record.flags &&& (u16Max ^^^ allowedFlags) ≠ 0 then
    throw (reject "unsupported general-purpose flags")
  let method ← parseMethod record.method
  if record.disk ≠ 0 then throw (reject "entry on another volume")
  if record.compressed = u32Max ∨ record.size = u32Max ∨ record.localOffset = u32Max then
    throw (reject "ZIP64 entry")
  checkExtra record.extra
  let name ← checkName record.nameBytes
  let isDir := endsWithSlash name
  if record.attributes &&& dosAttrReparse ≠ 0 then throw (reject "reparse point entry")
  if record.attributes &&& dosAttrDirectory ≠ 0 ∧ isDir = false then
    throw (reject "directory attribute on a file name")
  record.checkMode isDir
  -- Setuid, setgid and sticky are never restored; only owner-execute is.
  let executable := record.isUnix && !isDir && record.mode &&& 0o100 != 0
  checkSizes limits method isDir record.size record.compressed
  return ⟨name, record.nameBytes, record.flags, method, record.crc32, record.compressed,
    record.size, record.localOffset, isDir, executable⟩

def readCentralEntry (limits : ArchiveLimits) : Cursor CentralEntry := do
  let record ← readCentralRecord
  checkCentralRecord limits record

def readEntries (limits : ArchiveLimits) : Nat → Cursor (List CentralEntry)
  | 0 => return []
  | entries + 1 => do
    let entry ← readCentralEntry limits
    return entry :: (← readEntries limits entries)

-- Names and declared totals

/-- The collision keys of the entries seen so far and the sum of their sizes. -/
structure NameTable where
  keys : List String
  fileKeys : List String
  dirKeys : List String
  total : Nat

namespace NameTable

def empty : NameTable := ⟨[], [], [], 0⟩

/-- Every ancestor becomes a directory and must not be a file already. -/
def addAncestors (path : String) (fileKeys : List String)
    : List String → List String → Except UpdateError (List String)
  | [], dirKeys => .ok dirKeys
  | ancestor :: rest, dirKeys =>
    let quoted := debugText path
    let ancestorKey := collisionKey ancestor
    if ancestorKey ∈ fileKeys then .error (reject s!"{quoted} lies below a file")
    else addAncestors path fileKeys rest (ancestorKey :: dirKeys)

def add (limits : ArchiveLimits) (table : NameTable) (entry : CentralEntry)
    : Except UpdateError NameTable := do
  let path := trimEndSlashes entry.name
  let quoted := debugText path
  let key := collisionKey path
  if key ∈ table.keys then throw (reject s!"duplicate or colliding entry {quoted}")
  let dirKeys ← addAncestors path table.fileKeys (ancestors path) table.dirKeys
  if entry.isDir = false ∧ key ∈ dirKeys then
    throw (reject s!"file {quoted} collides with a directory")
  let total := table.total + entry.size
  if total ≥ 2 ^ 64 ∨ total > limits.maxTotalBytes.toNat then
    throw (limitExceeded "declared unpacked size too large")
  return {
    keys := key :: table.keys
    fileKeys := if entry.isDir then table.fileKeys else key :: table.fileKeys
    dirKeys := if entry.isDir then key :: dirKeys else dirKeys
    total := total }

def addAll (limits : ArchiveLimits) : List CentralEntry → NameTable → Except UpdateError NameTable
  | [], table => .ok table
  | entry :: rest, table => do addAll limits rest (← table.add limits entry)

end NameTable

/-- Duplicate, case and file-versus-directory collisions, and the declared totals. -/
def checkNamesAndTotals (entries : List CentralEntry) (limits : ArchiveLimits)
    : Except UpdateError Unit := do
  let _ ← NameTable.addAll limits entries .empty

-- Local headers

def Method.code : Method → Nat
  | stored => 0
  | deflate => 8

/-- The agreement of the fixed part of a local header with its central record. -/
def checkLocalFields (header : List UInt8) (raw : CentralEntry) : Except UpdateError Unit := do
  if le32 header 0 ≠ sigLocal then throw (reject "bad local header")
  if le16 header 6 ≠ raw.flags then throw (reject "local and central flags differ")
  if le16 header 8 ≠ raw.method.code then throw (reject "local and central compression differ")
  if raw.flags &&& flagDataDescriptor = 0 ∧ (le32 header 14 ≠ raw.crc32
      ∨ le32 header 18 ≠ raw.compressedSize ∨ le32 header 22 ≠ raw.size) then
    throw (reject "local and central sizes differ")
  if le16 header 26 ≠ raw.nameBytes.length then throw (reject "local and central names differ")

/-- The agreement of the variable part: the same name and an exact chain of extra fields. -/
def checkLocalName (rest : List UInt8) (nameLen : Nat) (raw : CentralEntry)
    : Except UpdateError Unit := do
  if rest.take nameLen ≠ raw.nameBytes then throw (reject "local and central names differ")
  checkExtra (rest.drop nameLen)

/-- Checks a local header against the central record and yields where the data starts. -/
def verifyLocalHeader (bytes : List UInt8) (raw : CentralEntry) (cdOffset : Nat)
    : Checked UpdateError Nat := do
  let headerEnd ← addWord raw.localOffset localHeaderLen
  if headerEnd > cdOffset then
    throw (.refused (reject "local header lies outside the data area"))
  let header ← refusing (readExact bytes raw.localOffset localHeaderLen)
  refusing (checkLocalFields header raw)
  let nameLen := le16 header 26
  let variableLen ← addWord nameLen (le16 header 28)
  let rest ← refusing (readExact bytes (raw.localOffset + localHeaderLen) variableLen)
  refusing (checkLocalName rest nameLen raw)
  let dataOffset ← addWord headerEnd variableLen
  let dataEnd ← addWord dataOffset raw.compressedSize
  if dataEnd > cdOffset then
    throw (.refused (reject "entry data overlaps the central directory"))
  return dataOffset

/-- An entry and the range of bytes from its local header to the end of its data. -/
structure Located where
  info : EntryInfo
  range : Nat × Nat

def locateEntry (bytes : List UInt8) (cdOffset : Nat) (raw : CentralEntry)
    : Checked UpdateError Located := do
  let dataOffset ← verifyLocalHeader bytes raw cdOffset
  let dataEnd ← addWord dataOffset raw.compressedSize
  return {
    info := {
      path := trimEndSlashes raw.name
      isDir := raw.isDir
      size := raw.size
      compressedSize := raw.compressedSize
      method := raw.method
      crc32 := raw.crc32
      executable := raw.executable
      sha256 := ""
      dataOffset := dataOffset }
    range := (raw.localOffset, dataEnd) }

def locateEntries (bytes : List UInt8) (cdOffset : Nat)
    : List CentralEntry → Checked UpdateError (List Located)
  | [] => return []
  | raw :: rest => do
    let located ← locateEntry bytes cdOffset raw
    return located :: (← locateEntries bytes cdOffset rest)

/-- The order of pairs of numbers. -/
def rangeLe (left right : Nat × Nat) : Prop := left.1 < right.1 ∨ left.1 = right.1 ∧ left.2 ≤ right.2

instance : DecidableRel rangeLe := fun left right =>
  inferInstanceAs (Decidable (left.1 < right.1 ∨ left.1 = right.1 ∧ left.2 ≤ right.2))

/-- No range starts before the previous one ends. -/
def checkRanges : List (Nat × Nat) → Except UpdateError Unit
  | first :: second :: rest =>
    if second.1 < first.2 then .error (reject "overlapping entry data")
    else checkRanges (second :: rest)
  | _ => .ok ()

-- The end record and the scan

/-- Whether an end record with a comment up to the end of the archive starts here. -/
def isEndRecord (tail : List UInt8) (pos : Nat) : Checked UpdateError Bool :=
  if le32 tail pos = sigEocd then do
    let fixedEnd ← addWord pos eocdLen
    let recordEnd ← addWord fixedEnd (le16 tail (pos + 20))
    return recordEnd == tail.length
  else return false

/-- The last position at or before the given one where an end record starts. -/
def findEocd (tail : List UInt8) : Nat → Checked UpdateError (Option Nat)
  | 0 => do return if ← isEndRecord tail 0 then some 0 else none
  | pos + 1 => do
    if ← isEndRecord tail (pos + 1) then return some (pos + 1)
    findEocd tail pos

/-- What the scan uses of the end record. -/
structure EndRecord where
  totalEntries : Nat
  cdSize : Nat
  cdOffset : Nat

/-- The checks of the fields of an end record. -/
def checkEndRecord (eocd : List UInt8) (limits : ArchiveLimits) : Except UpdateError EndRecord := do
  let totalEntries := le16 eocd 10
  let cdSize := le32 eocd 12
  let cdOffset := le32 eocd 16
  if le16 eocd 4 ≠ 0 ∨ le16 eocd 6 ≠ 0 ∨ le16 eocd 8 ≠ totalEntries then
    throw (reject "multi-volume archive")
  if totalEntries = u16Max ∨ cdSize = u32Max ∨ cdOffset = u32Max then
    throw (reject "ZIP64 archive")
  if totalEntries = 0 then throw (reject "empty archive")
  if totalEntries > limits.maxEntries.toNat then
    throw (limitExceeded "too many archive entries")
  return ⟨totalEntries, cdSize, cdOffset⟩

def readEndRecord (bytes : List UInt8) (limits : ArchiveLimits)
    : Checked UpdateError EndRecord := do
  let length := bytes.length
  if length > limits.maxArchiveBytes.toNat then
    throw (.refused (limitExceeded "archive exceeds the size limit"))
  if length < eocdLen then throw (.refused (reject "not a ZIP archive"))
  let tailLen := min length (eocdLen + u16Max)
  let tailStart ← subWord length tailLen
  let tail ← refusing (readExact bytes tailStart tailLen)
  let lastPos ← subWord tail.length eocdLen
  let some eocdPos ← findEocd tail lastPos
    | throw (.refused (reject "end of central directory not found"))
  let found ← refusing (checkEndRecord (tail.drop eocdPos) limits)
  let eocdAbs ← addWord tailStart eocdPos
  let cdEnd ← addWord found.cdOffset found.cdSize
  if cdEnd ≠ eocdAbs then
    throw (.refused (reject "central directory is not contiguous with the end record"))
  if found.cdSize > maxCentralDirectoryBytes then
    throw (.refused (limitExceeded "central directory too large"))
  return found

/-- Reads the whole directory and checks its names and totals. -/
def readDirectory (bytes : List UInt8) (limits : ArchiveLimits) (found : EndRecord)
    : Except UpdateError (List CentralEntry) := do
  let directory ← readExact bytes found.cdOffset found.cdSize
  let (central, rest) ← (readEntries limits found.totalEntries).run directory
  if rest ≠ [] then throw (reject "trailing bytes in the central directory")
  checkNamesAndTotals central limits
  return central

/-- Parses and validates the container structure without reading entry data. -/
def scanArchive (bytes : List UInt8) (limits : ArchiveLimits)
    : Checked UpdateError (List EntryInfo) := do
  let found ← readEndRecord bytes limits
  let central ← refusing (readDirectory bytes limits found)
  let located ← locateEntries bytes found.cdOffset central
  refusing (checkRanges ((located.map Located.range).insertionSort rangeLe))
  return located.map Located.info

end Hane.Update.Archive
