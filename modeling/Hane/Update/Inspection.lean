import Hane.Foundations.SortedMaps
import Hane.Update.Archive
import Hane.Update.Inventory
import Mathlib.Data.List.Dedup

/-! Inspection of a whole archive against a verified candidate: its layout, the contents of its
entries and its signed inventory.
-/

namespace Hane.Update.Archive

open Foundations

-- The layout of a target

def windowsRootFiles : List String :=
  ["hane.exe", "hane-updater.exe", "hane-install.json", "hane-install.json.sig",
    "Hane.ShellIntegration.msix", "Hane.ShellIntegration.cer",
    "Trust-HaneShellCertificate.ps1", "README.md", "LICENSE"]

def windowsRequired : List String :=
  ["hane.exe", "hane-updater.exe", "hane-install.json", "hane-install.json.sig"]

def macosRoot : String := "hane-macos-arm64"
def macosApp : String := "hane-macos-arm64/Hane.app"
def macosAppPrefix : String := "hane-macos-arm64/Hane.app/"
def macosSidecarDir : String := "Hane.app.update"
def macosLegacyInventoryRel : String := "Contents/Resources/hane-install.json"
def macosLegacyInventorySignatureRel : String := "Contents/Resources/hane-install.json.sig"

def macosRequired : List String :=
  ["hane-macos-arm64/Hane.app/Contents/Info.plist",
    "hane-macos-arm64/Hane.app/Contents/MacOS/hane",
    "hane-macos-arm64/Hane.app/Contents/Helpers/hane-updater",
    "hane-macos-arm64/Hane.app/Contents/_CodeSignature/CodeResources"]

def startsWith (text start : String) : Bool := start.toList.isPrefixOf text.toList

def stripPrefix (text start : String) : Option String :=
  if startsWith text start then some (String.ofList (text.toList.drop start.toList.length))
  else none

/-- The texts before and after the first occurrence of a character. -/
def splitOnce (text : String) (at_ : Char) : Option (String × String) :=
  match text.toList.dropWhile (· ≠ at_) with
  | [] => none
  | _ :: rest => some (String.ofList (text.toList.takeWhile (· ≠ at_)), String.ofList rest)

/-- The texts before and after the last occurrence of a character. -/
def rsplitOnce (text : String) (at_ : Char) : Option (String × String) :=
  match text.toList.reverse.dropWhile (· ≠ at_) with
  | [] => none
  | _ :: before =>
    some (String.ofList before.reverse, String.ofList (text.toList.rtakeWhile (· ≠ at_)))

/-- Name of one sidecar generation: the release it describes. -/
def macosGeneration (version sourceSha : String) : String := version ++ "-" ++ sourceSha

def parseMacosGeneration (name : String) : Option (String × String) := do
  let (version, sourceSha) ← rsplitOnce name '-'
  guard (version ≠ "" ∧ (version.toList.all fun ch =>
    ch.isAlphanum || ch == '.' || ch == '+' || ch == '-') = true)
  guard (isLowerHex sourceSha 40 = true)
  return (version, sourceSha)

def macosSidecarRoot : String := macosRoot ++ "/" ++ macosSidecarDir

def macosSidecarPath (generation file : String) : String :=
  macosSidecarRoot ++ "/" ++ generation ++ "/" ++ file

/-- Whether a path is the root of the sidecar tree or one generation directory. -/
def macosSidecarDirAllowed (path : String) : Bool :=
  path == macosSidecarRoot
    || (stripPrefix path (macosSidecarRoot ++ "/")).any fun generation =>
      (parseMacosGeneration generation).isSome

/-- The generation named by a path that is exactly an inventory or a signature of one. -/
def macosSidecarFileGeneration (path : String) : Option String := do
  let rest ← stripPrefix path (macosSidecarRoot ++ "/")
  let (generation, file) ← splitOnce rest '/'
  let _ ← parseMacosGeneration generation
  guard (file = inventoryFileName ∨ file = inventorySignatureFileName)
  return generation

def windowsFileAllowed (path : String) : Bool :=
  windowsRootFiles.contains path
    || match components path with
      | [folder, _, file] => folder == "shell-integration" && file == "hane_shell_extension.dll"
      | _ => false

def windowsDirAllowed (path : String) : Bool :=
  match components path with
  | [folder] | [folder, _] => folder == "shell-integration"
  | _ => false

def checkWindowsEntries : List EntryInfo → Except UpdateError Unit
  | [] => .ok ()
  | entry :: rest => do
    let quoted := debugText entry.path
    let allowed :=
      if entry.isDir then windowsDirAllowed entry.path else windowsFileAllowed entry.path
    if allowed = false then throw (reject s!"unexpected entry {quoted}")
    checkWindowsEntries rest

def checkMacosEntry (entry : EntryInfo) : Except UpdateError Unit := do
  let path := entry.path
  let quoted := debugText path
  let inApp := path == macosApp || startsWith path "hane-macos-arm64/Hane.app/"
  let allowed :=
    if entry.isDir then path == macosRoot || inApp || macosSidecarDirAllowed path
    else inApp || path == "hane-macos-arm64/README.md" || path == "hane-macos-arm64/LICENSE"
      || (macosSidecarFileGeneration path).isSome
  if allowed = false then throw (reject s!"unexpected entry {quoted}")
  if entry.isDir = false ∧ (path = macosAppPrefix ++ macosLegacyInventoryRel
      ∨ path = macosAppPrefix ++ macosLegacyInventorySignatureRel) then
    throw (reject s!"{quoted}: the inventory must be outside Hane.app")
  if entry.executable = true
      ∧ startsWith path "hane-macos-arm64/Hane.app/Contents/MacOS/" = false
      ∧ startsWith path "hane-macos-arm64/Hane.app/Contents/Helpers/" = false then
    throw (reject s!"unexpected executable {quoted}")

def checkMacosEntries : List EntryInfo → Except UpdateError Unit
  | [] => .ok ()
  | entry :: rest => do
    checkMacosEntry entry
    checkMacosEntries rest

def checkRequired (files : List String) : List String → Except UpdateError Unit
  | [] => .ok ()
  | required :: rest => do
    let quoted := debugText required
    if required ∉ files then throw (reject s!"missing required file {quoted}")
    checkRequired files rest

/-- Only the documented layout for the target is accepted. -/
def checkLayout (target : Target) (entries : List EntryInfo) : Except UpdateError Unit := do
  let present := entries.filter fun entry => !entry.isDir
  let files := present.map EntryInfo.path
  match target with
  | .windowsX64 =>
    checkWindowsEntries entries
    checkRequired files windowsRequired
  | .macosArm64 =>
    checkMacosEntries entries
    checkRequired files macosRequired
    match (files.filterMap macosSidecarFileGeneration).dedup with
    | [generation] =>
      checkRequired files [macosSidecarPath generation inventoryFileName,
        macosSidecarPath generation inventorySignatureFileName]
    | _ => throw (reject "the archive must carry exactly one sidecar inventory")

-- Contents

section Inspection

variable {Json : Type} (crates : ArchiveCrates Json)

/-- What the decompression of an entry's data yields when at most so many bytes are read. -/
def decodeData (bytes : List UInt8) (entry : EntryInfo) (limit : Nat)
    : Except String (List UInt8) :=
  let raw := (bytes.drop entry.dataOffset).take entry.compressedSize
  match entry.method with
  | .stored => .ok (raw.take limit)
  | .deflate => crates.inflate raw limit

/-- The declared size and checksum against the content. -/
def checkContent (entry : EntryInfo) (content : List UInt8) : Except UpdateError Unit := do
  let quoted := debugText entry.path
  if content.length > entry.size then
    throw (reject s!"entry {quoted} is larger than its declared size")
  if content.length ≠ entry.size then
    throw (reject s!"entry {quoted} is smaller than its declared size")
  if crates.crc32 content ≠ entry.crc32 then
    throw (reject s!"CRC mismatch in {quoted}")

/-- Reads an entry through decompression with a byte cap; yields the bytes handed to the sink
and their SHA-256.
-/
def streamEntry (bytes : List UInt8) (entry : EntryInfo)
    : Checked UpdateError (List UInt8 × String) := do
  let quoted := debugText entry.path
  -- One byte beyond the declared size distinguishes "exactly" from "more".
  let limit ← addWord entry.size 1
  let content ← refusing ((decodeData crates bytes entry limit).mapError fun err =>
    reject s!"corrupt entry {quoted}: {err}")
  refusing (checkContent crates entry content)
  return (content, sha256Hex crates.toCrates content)

def readEntry (bytes : List UInt8) (entry : EntryInfo) (limit : Nat)
    : Checked UpdateError (List UInt8) := do
  let quoted := debugText entry.path
  if entry.size > limit then
    throw (.refused (limitExceeded s!"{quoted} exceeds {limit} bytes"))
  let (content, _) ← streamEntry crates bytes entry
  return content

def addSizes : List EntryInfo → Nat → Checked UpdateError Nat
  | [], total => return total
  | entry :: rest, total => do addSizes rest (← addWord total entry.size)

/-- Every file with the hash of its decompressed content. -/
def hashEntries (bytes : List UInt8) : List EntryInfo → Checked UpdateError (List EntryInfo)
  | [] => return []
  | entry :: rest => do
    if entry.isDir then
      return entry :: (← hashEntries bytes rest)
    else
      let (_, sha256) ← streamEntry crates bytes entry
      return { entry with sha256 := sha256 } :: (← hashEntries bytes rest)

/-- Where a target keeps its signed inventory; listed paths are relative to the prefix. -/
structure InventoryLocation where
  ownedPrefix : String
  inventory : String
  signature : String

def presentFiles (location : InventoryLocation) (entries : List EntryInfo)
    : List (String × EntryInfo) :=
  (entries.filter fun entry =>
      !entry.isDir && entry.path != location.inventory && entry.path != location.signature).filterMap
    fun entry => (stripPrefix entry.path location.ownedPrefix).map (·, entry)

/-- Every listed file against the entry present under its path. -/
def checkListed (present : List (String × EntryInfo))
    : List (String × Nat × String) → Except UpdateError Unit
  | [] => .ok ()
  | (path, size, sha256) :: rest => do
    let quoted := debugText path
    -- The keys were compared before, so the lookup does not miss.
    let some entry := present.lookup path
      | throw (reject "archive files differ from the signed inventory")
    if entry.size ≠ size then
      throw ⟨.sizeMismatch, s!"{quoted} size differs from the signed inventory"⟩
    if entry.sha256 ≠ sha256 then
      throw ⟨.hashMismatch, s!"{quoted} content differs from the signed inventory"⟩
    checkListed present rest

/-- The files of the archive against those of the signed inventory. -/
def checkOwned (location : InventoryLocation) (entries : List EntryInfo)
    (files : List InventoryFile) : Except UpdateError Unit := do
  let listed := SortedMaps.collect (files.map fun file => (file.path, file.size, file.sha256))
  let present := SortedMaps.collect (presentFiles location entries)
  if listed.length ≠ present.length
      ∨ (listed.all fun file => (present.lookup file.1).isSome) = false then
    throw (reject "archive files differ from the signed inventory")
  checkListed present listed

def findFile (entries : List EntryInfo) (name : String) : Option EntryInfo :=
  entries.find? fun entry => !entry.isDir && entry.path == name

def verifyInventory (bytes : List UInt8) (entries : List EntryInfo)
    (candidate : VerifiedCandidate) (policy : TrustPolicy) (location : InventoryLocation)
    : Checked UpdateError SignedInventory := do
  let some inventoryEntry := findFile entries location.inventory
    | throw (.refused (reject "archive has no signed inventory"))
  let some signatureEntry := findFile entries location.signature
    | throw (.refused (reject "archive has no inventory signature"))
  let raw ← readEntry crates bytes inventoryEntry maxInventoryBytes
  let signature ← readEntry crates bytes signatureEntry maxSignatureBytes
  let signed ← refusing (SignedInventory.verify crates raw signature policy)
  refusing (signed.checkCandidate crates candidate)
  refusing (checkOwned location entries signed.inventory.files)
  return signed

/-- Where the inventory of the candidate's release lies. -/
def inventoryLocation (candidate : VerifiedCandidate) : InventoryLocation :=
  match candidate.target with
  | .windowsX64 => ⟨"", inventoryFileName, inventorySignatureFileName⟩
  | .macosArm64 =>
    let generation :=
      macosGeneration (crates.displayVersion candidate.version) candidate.catalog.sourceSha
    ⟨macosAppPrefix, macosSidecarPath generation inventoryFileName,
      macosSidecarPath generation inventorySignatureFileName⟩

structure InspectedArchive where
  entries : List EntryInfo
  totalUnpacked : Nat
  inventory : Option SignedInventory

/-- Inspects the whole archive against the verified candidate; nothing is written. -/
def inspectArchive (bytes : List UInt8) (candidate : VerifiedCandidate) (policy : TrustPolicy)
    (limits : ArchiveLimits) : Checked UpdateError InspectedArchive := do
  let scanned ← scanArchive bytes limits
  refusing (checkLayout candidate.target scanned)
  let totalUnpacked ← addSizes scanned 0
  let expected := candidate.entry.unpackedSize
  if totalUnpacked ≠ expected then
    throw (.refused ⟨.sizeMismatch,
      s!"archive unpacks to {totalUnpacked} bytes, catalog says {expected}"⟩)
  let entries ← hashEntries crates bytes scanned
  let inventory ←
    verifyInventory crates bytes entries candidate policy (inventoryLocation crates candidate)
  return ⟨entries, totalUnpacked, some inventory⟩

end Inspection

end Hane.Update.Archive
