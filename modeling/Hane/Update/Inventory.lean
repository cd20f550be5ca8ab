import Hane.Update.Paths
import Hane.Update.Journal

/-! The signed inventory of the files a release owns. -/

namespace Hane.Update

def inventorySchema : Nat := 1
def maxInventoryBytes : Nat := 1 <<< 20
def maxEntryBytes : Nat := 512 <<< 20
def inventoryFileName : String := "hane-install.json"
def inventorySignatureFileName : String := "hane-install.json.sig"
def inventoryDomain : List UInt8 := asBytes "hane-install-v1\x00"

structure InventoryFile where
  path : String
  size : Nat
  sha256 : String
  deriving DecidableEq, Repr

structure Inventory where
  schema : Nat
  version : String
  target : String
  sourceSha : String
  updaterProtocol : Nat
  layoutRevision : Nat
  files : List InventoryFile
  deriving DecidableEq, Repr

/-- The linked crates with what archives and inventories need: the parse of an inventory, what
inflating yields when at most so many bytes are read, and CRC-32.
-/
structure ArchiveCrates (Json : Type) extends Crates Json where
  inventoryOf : Json → Except String Inventory
  inflate : List UInt8 → Nat → Except String (List UInt8)
  crc32 : List UInt8 → Nat

def InventoryFile.validate (file : InventoryFile) : Except UpdateError Unit := do
  validateRelPath file.path
  if file.path = inventoryFileName ∨ file.path = inventorySignatureFileName then
    throw (malformed "inventory must not list its own files")
  if isSha256Hex file.sha256 = false ∨ file.size > maxEntryBytes then
    throw (malformed "inventory entry has an invalid size or hash")

def validateFiles : List InventoryFile → List String → Except UpdateError Unit
  | [], _ => .ok ()
  | file :: rest, keys => do
    file.validate
    if collisionKey file.path ∈ keys then throw (malformed "inventory lists colliding paths")
    validateFiles rest (collisionKey file.path :: keys)

section Verification

variable {Json : Type} (crates : ArchiveCrates Json)

def Inventory.validate (inventory : Inventory) : Except UpdateError Unit := do
  let _ ← Target.parse inventory.target
  let _ ← parseStableVersion crates.toCrates inventory.version
  if isLowerHex inventory.sourceSha 40 = false then
    throw (malformed "inventory source_sha must be 40 hex digits")
  if inventory.files.isEmpty = true ∨ inventory.files.length > maxEntries then
    throw (malformed "inventory file count out of range")
  validateFiles inventory.files []

def FileIdentity.of (bytes : List UInt8) : FileIdentity :=
  ⟨bytes.length, sha256Hex crates.toCrates bytes⟩

/-- An inventory whose signature verified. -/
structure SignedInventory where
  inventory : Inventory
  raw : FileIdentity
  signature : FileIdentity
  rawSha256 : String
  deriving DecidableEq, Repr

namespace SignedInventory

def verify (raw signatureFile : List UInt8) (policy : TrustPolicy)
    : Except UpdateError SignedInventory := do
  if raw.length > maxInventoryBytes then
    throw ⟨.limitExceeded, "inventory exceeds the size limit"⟩
  let _ ← verifySignature crates.toCrates policy inventoryDomain raw signatureFile
  let probe ← parseStrictValue crates.toCrates raw
  if crates.schemaOf probe ≠ some inventorySchema then
    throw ⟨.schemaUnsupported, "unknown inventory schema"⟩
  let value ← parseStrictValue crates.toCrates raw
  let inventory ← (crates.inventoryOf value).mapError fun err =>
    malformed s!"invalid document: {err}"
  inventory.validate crates
  return ⟨inventory, .of crates raw, .of crates signatureFile, sha256Hex crates.toCrates raw⟩

def mismatch (what : String) : UpdateError :=
  ⟨.identityMismatch, s!"inventory {what} differs from the signed catalog"⟩

/-- The inventory must describe exactly the release the catalog announced. -/
def checkCandidate (signed : SignedInventory) (candidate : VerifiedCandidate)
    : Except UpdateError Unit := do
  let inv := signed.inventory
  if inv.version ≠ crates.displayVersion candidate.version then throw (mismatch "version")
  if inv.target ≠ candidate.target.triple then throw (mismatch "target")
  if inv.sourceSha ≠ candidate.catalog.sourceSha then throw (mismatch "source_sha")
  if inv.updaterProtocol ≠ updaterProtocol then
    throw ⟨.protocolUnsupported, "inventory updater protocol is not supported"⟩
  if inv.layoutRevision ≠ candidate.target.layoutRevision then
    throw (mismatch "layout revision")
  if candidate.entry.inventorySha256 ≠ some signed.rawSha256 then
    throw ⟨.hashMismatch, "inventory hash differs from the signed catalog"⟩

end SignedInventory

end Verification

end Hane.Update
