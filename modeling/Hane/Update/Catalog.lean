import Hane.Update.Errors
import Mathlib.Algebra.Ring.Int.Defs

/-! Catalog verification: the only way to a verified candidate. Parsing, hashing and signature
checks of the crates the updater links are parameters.
-/

namespace Hane.Update

open Hane.Foundations

-- Documents

structure Version where
  major : Nat
  minor : Nat
  patch : Nat
  pre : String
  build : String
  deriving DecidableEq, Repr

structure TargetEntry where
  assetName : String
  archiveSize : Nat
  archiveSha256 : String
  unpackedSize : Nat
  layoutRevision : Nat
  inventorySha256 : Option String
  bundleId : Option String
  teamId : Option String
  bundleVersion : Option String
  deriving DecidableEq, Repr

structure CatalogDocument where
  schema : Nat
  channel : String
  repository : String
  version : String
  tag : String
  sourceSha : String
  catalogSequence : Nat
  publishedAt : String
  expiresAt : String
  updaterProtocol : Nat
  minUpdaterProtocol : Nat
  stateCompatibility : String
  targets : List (String × TargetEntry)
  deriving DecidableEq, Repr

structure SignatureEntry where
  keyId : String
  signatureBase64 : String
  deriving DecidableEq, Repr

structure SignatureFile where
  schema : Nat
  signatures : List SignatureEntry
  deriving DecidableEq, Repr

structure TrustedKey where
  keyId : String
  publicKey : List UInt8
  deriving DecidableEq, Repr

structure TrustPolicy where
  keys : List TrustedKey
  deriving DecidableEq, Repr

inductive Target where
  | macosArm64
  | windowsX64
  deriving DecidableEq, Repr

namespace Target

def triple : Target → String
  | macosArm64 => "aarch64-apple-darwin"
  | windowsX64 => "x86_64-pc-windows-msvc"

def assetName : Target → String
  | macosArm64 => "hane-macos-arm64.zip"
  | windowsX64 => "hane-windows-x64.zip"

def layoutRevision : Target → Nat
  | macosArm64 => 2
  | windowsX64 => 2

end Target

/-- What the linked crates compute: SHA-256, Ed25519, base64, JSON and SemVer. -/
structure Crates (Json : Type) where
  digest : List UInt8 → List UInt8
  verifies : (publicKey message signature : List UInt8) → Bool
  decodeBase64 : String → Option (List UInt8)
  hasUniqueKeys : List UInt8 → Except String Unit
  fromSlice : List UInt8 → Except String Json
  schemaOf : Json → Option Nat
  catalogOf : Json → Except String CatalogDocument
  signaturesOf : Json → Except String SignatureFile
  parseVersion : String → Except String Version
  displayVersion : Version → String

def maxCatalogBytes : Nat := 256 <<< 10
def maxSignatureBytes : Nat := 16 <<< 10
def maxArchiveBytes : Nat := 256 <<< 20
def maxUnpackedBytes : Nat := 1 <<< 30
def maxSignatures : Nat := 8
def maxCatalogValiditySecs : Int := 180 * 24 * 60 * 60
def maxFutureSkewSecs : Int := 24 * 60 * 60
def catalogSchema : Nat := 1
def signatureSchema : Nat := 1
def updaterProtocol : Nat := 1
def channelStable : String := "stable"
def repositoryName : String := "hide212131/hane"
def stateCompatibilityV1 : String := "backward-compatible-v1"
def macosBundleId : String := "io.github.hide212131.hane"
def catalogDomain : List UInt8 := asBytes "hane-update-catalog-v1\x00"

-- Signatures and time

section Verification

variable {Json : Type} (crates : Crates Json)

def sha256Hex (bytes : List UInt8) : String := hexEncode (crates.digest bytes)

def parseStrictValue (bytes : List UInt8) : Except UpdateError Json :=
  match crates.hasUniqueKeys bytes with
  | .error err => .error (malformed s!"invalid JSON: {err}")
  | .ok () =>
    match crates.fromSlice bytes with
    | .error err => .error (malformed s!"invalid JSON: {err}")
    | .ok value => .ok value

def TrustPolicy.isConfigured (policy : TrustPolicy) : Bool := !policy.keys.isEmpty

def TrustPolicy.key (policy : TrustPolicy) (keyId : String) : Option TrustedKey :=
  policy.keys.find? fun key => key.keyId == keyId

/-- The scan over the signatures of a file: the first valid one of a trusted key, or whether
any trusted key was named at all.
-/
def firstValid (policy : TrustPolicy) (message : List UInt8)
    : List SignatureEntry → Bool → Except Bool String
  | [], sawKnownKey => .error sawKnownKey
  | entry :: rest, sawKnownKey =>
    match policy.key entry.keyId with
    | none => firstValid policy message rest sawKnownKey
    | some key =>
      match crates.decodeBase64 entry.signatureBase64 with
      | none => firstValid policy message rest true
      | some signature =>
        if signature.length = 64 ∧ crates.verifies key.publicKey message signature = true then
          .ok key.keyId
        else firstValid policy message rest true

/-- Verifies that a trusted key signed the domain followed by the payload. -/
def verifySignature (policy : TrustPolicy) (domain payload signatureFile : List UInt8)
    : Except UpdateError String := do
  if policy.isConfigured = false then
    throw ⟨.trustUnconfigured, "no trusted update key is embedded in this build"⟩
  if signatureFile.length > maxSignatureBytes then
    throw ⟨.limitExceeded, "signature file exceeds the size limit"⟩
  let probe ← parseStrictValue crates signatureFile
  if crates.schemaOf probe ≠ some signatureSchema then
    throw ⟨.schemaUnsupported, "unknown signature file schema"⟩
  let value ← parseStrictValue crates signatureFile
  let file ← (crates.signaturesOf value).mapError fun err =>
    malformed s!"invalid document: {err}"
  if file.signatures.isEmpty = true ∨ file.signatures.length > maxSignatures then
    throw ⟨.signatureInvalid, "signature count out of range"⟩
  match firstValid crates policy (domain ++ payload) file.signatures false with
  | .ok keyId => return keyId
  | .error true => throw ⟨.signatureInvalid, "no valid signature from a trusted key"⟩
  | .error false => throw ⟨.signatureInvalid, "signature key is not trusted"⟩

def isLeap (year : Int) : Bool := (year % 4 == 0 && year % 100 != 0) || year % 400 == 0

def daysInMonth (year month : Int) : Int :=
  if month ∈ [1, 3, 5, 7, 8, 10, 12] then 31
  else if month ∈ [4, 6, 9, 11] then 30
  else if isLeap year then 29
  else 28

/-- Days since 1970-01-01 of a proleptic Gregorian date. -/
def daysFromCivil (year month day : Int) : Int :=
  let y := if month ≤ 2 then year - 1 else year
  let era := (if 0 ≤ y then y else y - 399).tdiv 400
  let yoe := y - era * 400
  let mp := (month + 9) % 12
  let doy := (153 * mp + 2) / 5 + day - 1
  let doe := yoe * 365 + yoe / 4 - yoe / 100 + doy
  era * 146097 + doe - 719468

def decimal (digits : List UInt8) : Option Int :=
  if digits.all fun b => 48 ≤ b && b ≤ 57 then
    some (digits.foldl (fun value b => value * 10 + (b.toNat - 48 : Int)) 0)
  else none

/-- Parses `YYYY-MM-DDTHH:MM:SSZ` into Unix seconds. -/
def parseRfc3339Utc (text : String) : Option Int := do
  let bytes := asBytes text
  let field := fun first stop => decimal ((bytes.take stop).drop first)
  guard (bytes.length = 20 ∧ bytes[4]? = some 45 ∧ bytes[7]? = some 45 ∧ bytes[10]? = some 84
    ∧ bytes[13]? = some 58 ∧ bytes[16]? = some 58 ∧ bytes[19]? = some 90)
  let year ← field 0 4
  let month ← field 5 7
  let day ← field 8 10
  let hour ← field 11 13
  let minute ← field 14 16
  let second ← field 17 19
  guard (1 ≤ month ∧ month ≤ 12 ∧ hour ≤ 23 ∧ minute ≤ 59 ∧ second ≤ 59)
  guard (1 ≤ day ∧ day ≤ daysInMonth year month)
  return daysFromCivil year month day * 86400 + hour * 3600 + minute * 60 + second

def checkTimeWindow (catalog : CatalogDocument) (nowUnix : Int) : Except UpdateError Unit := do
  let some published := parseRfc3339Utc catalog.publishedAt
    | throw (malformed "published_at is not UTC RFC 3339")
  let some expires := parseRfc3339Utc catalog.expiresAt
    | throw (malformed "expires_at is not UTC RFC 3339")
  if expires ≤ published ∨ expires - published > maxCatalogValiditySecs then
    throw (malformed "catalog validity window is out of range")
  -- The sum saturates at the largest 64-bit value.
  if published > min (nowUnix + maxFutureSkewSecs) (2 ^ 63 - 1) then
    throw ⟨.clockInvalid, "catalog was published in the future; check the system clock"⟩
  if nowUnix ≥ expires then
    throw ⟨.catalogExpired, "catalog has expired"⟩

-- Versions and target entries

/-- A version without pre-release or build metadata. -/
def Version.isPlain (version : Version) : Bool := version.pre == "" && version.build == ""

def parseStableVersion (text : String) : Except UpdateError Version :=
  let quoted := debugText text
  match crates.parseVersion text with
  | .error err => .error ⟨.notStable, s!"invalid version {quoted}: {err}"⟩
  | .ok version =>
    if version.isPlain then .ok version
    else .error ⟨.notStable, s!"version {quoted} is not a plain stable version"⟩

def parseReleaseTag (tag : String) : Except UpdateError Version :=
  let quoted := debugText tag
  match tag.toList with
  | 'v' :: rest => parseStableVersion crates (String.ofList rest)
  | _ => .error ⟨.notStable, s!"tag {quoted} lacks the v prefix"⟩

def parseCurrentVersion (text : String) : Except UpdateError Version :=
  let quoted := debugText text
  match crates.parseVersion text with
  | .error err => .error ⟨.unsupportedInstall, s!"current version {quoted} is invalid: {err}"⟩
  | .ok version =>
    if version.isPlain then .ok version
    else .error ⟨.unsupportedInstall, s!"current version {quoted} is a development build"⟩

inductive VersionRelation where
  | newer
  | same
  | older
  deriving DecidableEq, Repr

/-- Relation of the candidate to the current version; both are plain versions, which SemVer
orders by their three numbers.
-/
def relation (current candidate : Version) : VersionRelation :=
  match compareOfLessAndEq
      [candidate.major, candidate.minor, candidate.patch]
      [current.major, current.minor, current.patch] with
  | .gt => .newer
  | .eq => .same
  | .lt => .older

def checkTargetEntry (entry : TargetEntry) (target : Target) (version : Version)
    : Except UpdateError Unit := do
  if entry.assetName ≠ target.assetName then
    throw ⟨.assetMismatch, "catalog asset name does not match the target"⟩
  if entry.archiveSize = 0 ∨ entry.archiveSize > maxArchiveBytes then
    throw ⟨.limitExceeded, "archive_size is out of range"⟩
  if entry.unpackedSize = 0 ∨ entry.unpackedSize > maxUnpackedBytes then
    throw ⟨.limitExceeded, "unpacked_size is out of range"⟩
  if isSha256Hex entry.archiveSha256 = false then
    throw (malformed "archive_sha256 must be 64 lowercase hex digits")
  if entry.layoutRevision ≠ target.layoutRevision then
    throw ⟨.protocolUnsupported, "unsupported archive layout revision"⟩
  match target with
  | .windowsX64 =>
    if (entry.inventorySha256.any isSha256Hex) = false then
      throw (malformed "Windows target needs a valid inventory_sha256")
    if entry.bundleId.isSome ∨ entry.teamId.isSome ∨ entry.bundleVersion.isSome then
      throw (malformed "Windows target must not carry macOS identity")
  | .macosArm64 =>
    if (entry.inventorySha256.any isSha256Hex) = false then
      throw (malformed "macOS target needs a valid inventory_sha256")
    if entry.bundleId ≠ some macosBundleId then
      throw ⟨.identityMismatch, "bundle id differs from the pinned Hane bundle id"⟩
    if entry.teamId.isSome then
      throw (malformed "macOS target must not carry a Team ID")
    if entry.bundleVersion ≠ some (crates.displayVersion version) then
      throw ⟨.identityMismatch, "bundle version differs from the catalog version"⟩

-- The sequence floor and verification

/-- Highest catalog sequence already verified for this installation. -/
structure SeenCatalog where
  schema : Nat
  sequence : Nat
  catalogSha256 : String
  deriving DecidableEq, Repr

namespace SeenCatalog

def new (sequence : Nat) (catalogSha256 : String) : SeenCatalog := ⟨1, sequence, catalogSha256⟩

def validate (seen : SeenCatalog) : Except UpdateError Unit :=
  if seen.schema ≠ 1 ∨ isSha256Hex seen.catalogSha256 = false then
    .error ⟨.receiptUnwritable, "stored catalog receipt is invalid"⟩
  else .ok ()

end SeenCatalog

structure VerifyContext where
  policy : TrustPolicy
  nowUnix : Int
  currentVersion : String
  target : Target
  seen : Option SeenCatalog
  expectedTag : Option String

/-- A catalog all of whose checks passed against one context. -/
structure VerifiedCandidate where
  catalog : CatalogDocument
  entry : TargetEntry
  target : Target
  version : Version
  relation : VersionRelation
  catalogSha256 : String
  candidateId : String
  signingKeyId : String
  deriving DecidableEq, Repr

def VerifiedCandidate.sequence (candidate : VerifiedCandidate) : Nat :=
  candidate.catalog.catalogSequence

/-- The comparison with the floor that verification was given. -/
def checkSeen (catalog : CatalogDocument) (catalogSha256 : String) (seen : SeenCatalog)
    : Except UpdateError Unit := do
  seen.validate
  let offered := catalog.catalogSequence
  let stored := seen.sequence
  if offered < stored then
    throw ⟨.sequenceRegression, s!"catalog sequence {offered} is below the stored {stored}"⟩
  if offered = stored ∧ catalogSha256 ≠ seen.catalogSha256 then
    throw ⟨.sequenceConflict, "same catalog sequence with different bytes"⟩

def verifyCatalog (catalogBytes signatureBytes : List UInt8) (ctx : VerifyContext)
    : Except UpdateError VerifiedCandidate := do
  let current ← parseCurrentVersion crates ctx.currentVersion
  if catalogBytes.length > maxCatalogBytes then
    throw ⟨.limitExceeded, "catalog exceeds the size limit"⟩
  let signingKeyId ←
    verifySignature crates ctx.policy catalogDomain catalogBytes signatureBytes
  let value ← parseStrictValue crates catalogBytes
  if crates.schemaOf value ≠ some catalogSchema then
    throw ⟨.schemaUnsupported, "unknown catalog schema"⟩
  let catalog ← (crates.catalogOf value).mapError fun err => malformed s!"invalid catalog: {err}"
  if catalog.channel ≠ channelStable ∨ catalog.repository ≠ repositoryName then
    throw (malformed "catalog channel or repository is not accepted")
  let version ← parseStableVersion crates catalog.version
  let tagVersion ← parseReleaseTag crates catalog.tag
  if tagVersion ≠ version then
    throw (malformed "catalog tag does not match its version")
  if ctx.expectedTag.any (· != catalog.tag) = true then
    throw ⟨.assetMismatch, "catalog tag differs from the fetched release tag"⟩
  if isLowerHex catalog.sourceSha 40 = false then
    throw (malformed "source_sha must be 40 lowercase hex digits")
  let least := catalog.minUpdaterProtocol
  let most := catalog.updaterProtocol
  if least > updaterProtocol ∨ most < updaterProtocol ∨ least > most then
    throw ⟨.protocolUnsupported,
      s!"release requires updater protocol {least}..={most}, this build speaks {updaterProtocol}"⟩
  if catalog.stateCompatibility ≠ stateCompatibilityV1 then
    throw ⟨.stateIncompatible, "release is not backward-compatible with saved state"⟩
  checkTimeWindow catalog ctx.nowUnix
  let triple := ctx.target.triple
  let some entry := catalog.targets.lookup triple
    | throw ⟨.targetUnsupported, s!"catalog has no entry for {triple}"⟩
  checkTargetEntry crates entry ctx.target version
  let catalogSha256 := sha256Hex crates catalogBytes
  if let some seen := ctx.seen then
    checkSeen catalog catalogSha256 seen
  let candidateId :=
    sha256Hex crates (asBytes s!"hane-candidate-v1\x00{catalogSha256}\x00{triple}")
  return ⟨catalog, entry, ctx.target, version, relation current version, catalogSha256,
    candidateId, signingKeyId⟩

end Verification

-- A signed catalog of one release

/-- A catalog of one Windows release, as its document. -/
def sampleCatalog : CatalogDocument where
  schema := 1
  channel := "stable"
  repository := "hide212131/hane"
  version := "0.30.0"
  tag := "v0.30.0"
  sourceSha := "0123456789abcdef0123456789abcdef01234567"
  catalogSequence := 10
  publishedAt := "2026-01-01T00:00:00Z"
  expiresAt := "2026-06-01T00:00:00Z"
  updaterProtocol := 1
  minUpdaterProtocol := 1
  stateCompatibility := "backward-compatible-v1"
  targets := [("x86_64-pc-windows-msvc", {
    assetName := "hane-windows-x64.zip"
    archiveSize := 1000
    archiveSha256 := "0eb3e36bfb24dcd9bb1d1bece1531216b59539a8fde17ee80224af0653c92aa3"
    unpackedSize := 2000
    layoutRevision := 2
    inventorySha256 := some "b11a85b296a90afc460430434a504e7acb04b064575b7277724688af0e59d189"
    bundleId := none
    teamId := none
    bundleVersion := none })]

def sampleCatalogBytes : List UInt8 :=
  asBytes ("\x7b\"schema\":1,\"channel\":\"stable\",\"repository\":\"hide212131/hane\",\"version"
    ++ "\":\"0.30.0\",\"tag\":\"v0.30.0\",\"source_sha\":\"0123456789abcdef0123456789abcdef01234"
    ++ "567\",\"catalog_sequence\":10,\"published_at\":\"2026-01-01T00:00:00Z\",\"expires_at"
    ++ "\":\"2026-06-01T00:00:00Z\",\"updater_protocol\":1,\"min_updater_protocol\":1,\"state_co"
    ++ "mpatibility\":\"backward-compatible-v1\",\"targets\":\x7b\"x86_64-pc-windows-msvc"
    ++ "\":\x7b\"asset_name\":\"hane-windows-x64.zip\",\"archive_size\":1000,\"archive_sha256"
    ++ "\":\"0eb3e36bfb24dcd9bb1d1bece1531216b59539a8fde17ee80224af0653c92aa3\",\"unpacked_size"
    ++ "\":2000,\"layout_revision\":2,\"inventory_sha256\":\"b11a85b296a90afc460430434a504e7acb0"
    ++ "4b064575b7277724688af0e59d189\"\x7d\x7d\x7d")

def sampleSignatureBytes : List UInt8 :=
  asBytes ("\x7b\"schema\":1,\"signatures\":[\x7b\"key_id\":\"hane-2026\",\"signature_base64\":\"Mz4"
    ++ "2rSw9v5CDWI5Z6oMR5WeqLmm3ALvZehDxE9zRX3daS1IGyexCgD9BdJPMI7uLKWWbM8EZzcIdw9o6CczkCg=="
    ++ "\"\x7d]\x7d")

def samplePublicKey : List UInt8 :=
  [234, 74, 108, 99, 226, 156, 82, 10, 190, 245, 80, 123, 19, 46, 197, 249, 149, 71, 118,
    174, 190, 190, 123, 146, 66, 30, 234, 105, 20, 70, 210, 44]

def sampleSignature : List UInt8 :=
  [51, 62, 54, 173, 44, 61, 191, 144, 131, 88, 142, 89, 234, 131, 17, 229, 103, 170, 46,
    105, 183, 0, 187, 217, 122, 16, 241, 19, 220, 209, 95, 119, 90, 75, 82, 6, 201, 236, 66,
    128, 63, 65, 116, 147, 204, 35, 187, 139, 41, 101, 155, 51, 193, 25, 205, 194, 29, 195,
    218, 58, 9, 204, 228, 10]

def sampleCandidateBytes : List UInt8 :=
  asBytes ("hane-candidate-v1\x00"
    ++ "a7282abf2de489fa74c973bdff5ed998607c58690e7c95868672037468a69e39"
    ++ "\x00x86_64-pc-windows-msvc")

def sampleSignatureText : String :=
  "Mz42rSw9v5CDWI5Z6oMR5WeqLmm3ALvZehDxE9zRX3da"
    ++ "S1IGyexCgD9BdJPMI7uLKWWbM8EZzcIdw9o6CczkCg=="

def sampleSignatureFile : SignatureFile := ⟨1, [⟨"hane-2026", sampleSignatureText⟩]⟩

def sampleContext : VerifyContext where
  policy := ⟨[⟨"hane-2026", samplePublicKey⟩]⟩
  nowUnix := 1769904000
  currentVersion := "0.29.0"
  target := .windowsX64
  seen := none
  expectedTag := some "v0.30.0"

/-- The linked crates on the sample documents: the real SHA-256 digests, base64 form, Ed25519
verdict and parses of these bytes.
-/
def sampleCrates : Crates (CatalogDocument ⊕ SignatureFile) where
  digest := fun bytes =>
    if bytes = sampleCatalogBytes then
      [167, 40, 42, 191, 45, 228, 137, 250, 116, 201, 115, 189, 255, 94, 217, 152, 96, 124, 88,
        105, 14, 124, 149, 134, 134, 114, 3, 116, 104, 166, 158, 57]
    else if bytes = sampleCandidateBytes then
      [120, 86, 22, 99, 120, 188, 93, 188, 68, 206, 169, 28, 203, 79, 80, 159, 244, 36, 224,
        129, 214, 244, 129, 95, 50, 80, 160, 199, 39, 49, 133, 184]
    else bytes
  verifies := fun publicKey message signature =>
    publicKey = samplePublicKey && message = catalogDomain ++ sampleCatalogBytes
      && signature = sampleSignature
  decodeBase64 := fun text =>
    if text = sampleSignatureText then some sampleSignature else none
  hasUniqueKeys := fun bytes =>
    if bytes = sampleCatalogBytes ∨ bytes = sampleSignatureBytes then .ok ()
    else .error "expected value at line 1 column 1"
  fromSlice := fun bytes =>
    if bytes = sampleCatalogBytes then .ok (.inl sampleCatalog)
    else if bytes = sampleSignatureBytes then .ok (.inr sampleSignatureFile)
    else .error "expected value at line 1 column 1"
  schemaOf := fun
    | .inl catalog => some catalog.schema
    | .inr file => some file.schema
  catalogOf := fun
    | .inl catalog => .ok catalog
    | .inr _ => .error "unknown field signatures"
  signaturesOf := fun
    | .inl _ => .error "unknown field channel"
    | .inr file => .ok file
  parseVersion := fun text =>
    if text = "0.30.0" then .ok ⟨0, 30, 0, "", ""⟩
    else if text = "0.29.0" then .ok ⟨0, 29, 0, "", ""⟩
    else .error "unexpected character"
  displayVersion := fun version => toString version.major ++ "." ++ toString version.minor ++ "."
    ++ toString version.patch

/-- What verification makes of the sample catalog. -/
def sampleCandidate : VerifiedCandidate where
  catalog := sampleCatalog
  entry := {
    assetName := "hane-windows-x64.zip"
    archiveSize := 1000
    archiveSha256 := "0eb3e36bfb24dcd9bb1d1bece1531216b59539a8fde17ee80224af0653c92aa3"
    unpackedSize := 2000
    layoutRevision := 2
    inventorySha256 := some "b11a85b296a90afc460430434a504e7acb04b064575b7277724688af0e59d189"
    bundleId := none
    teamId := none
    bundleVersion := none }
  target := .windowsX64
  version := ⟨0, 30, 0, "", ""⟩
  relation := .newer
  catalogSha256 := "a7282abf2de489fa74c973bdff5ed998607c58690e7c95868672037468a69e39"
  candidateId := "7856166378bc5dbc44cea91ccb4f509ff424e081d6f4815f3250a0c7273185b8"
  signingKeyId := "hane-2026"

end Hane.Update
