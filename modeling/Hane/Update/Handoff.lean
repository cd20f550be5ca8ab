import Hane.Foundations.Programs
import Hane.Foundations.SortedMaps
import Hane.Update.Paths
import Hane.Update.ProxyValues
import Hane.Update.Startup
import Mathlib.Data.String.Basic

/-! The environment handed to the child of an update: a record in the transaction directory, and
the userinfo of its proxy values as temporary secrets of the operating system.
-/

namespace Hane.Update.StateRoot

open Hane.Foundations

-- The outside

/-- The calls of a handoff: to the secret store, and on the path of the record. -/
inductive HandoffCall where
  | put (reference secret : String)
  | take (reference : String)
  | delete (reference : String)
  | removeFile
  | durableWrite (bytes : List UInt8)
  | secureNew
  | verify
  | symlinkMetadata
  | openFile
  | readToEnd (limit : Nat)
deriving DecidableEq

/-- The answers; reading gives at most the bytes asked for. -/
def HandoffCall.Answer : HandoffCall → Type
  | put _ _ | delete _ | secureNew | verify => Except UpdateError Unit
  | take _ => Except UpdateError (Option String)
  | removeFile | durableWrite _ | symlinkMetadata | openFile => Except IoError Unit
  | readToEnd _ => Except IoError (List UInt8)

abbrev Handing (α : Type) : Type := ExceptT UpdateError (Program HandoffCall.Answer) α

def IsNotFound (err : IoError) : Prop := err.kind = .other "NotFound"

instance (err : IoError) : Decidable (IsNotFound err) := inferInstanceAs (Decidable (_ = _))

-- The record

def bindingSchema : Nat := 1
def environmentLimit : Nat := 16 * 1024
def maxEnvValueBytes : Nat := 1024
def maxPathEnvValueBytes : Nat := 8 * 1024
def maxSecretRefs : Nat := 8

def childEnvAllowlist : List String :=
  ["HOME", "USER", "LOGNAME", "LANG", "LC_ALL", "LC_CTYPE", "TMPDIR", "XDG_CONFIG_HOME",
    "XDG_DATA_HOME", "XDG_STATE_HOME", "XDG_CACHE_HOME", "HANE_STATE_DIR", "SystemRoot",
    "LOCALAPPDATA", "APPDATA", "USERPROFILE", "USERNAME", "USERDOMAIN", "HOMEDRIVE", "HOMEPATH",
    "TEMP", "TMP", "XDG_RUNTIME_DIR", "__CF_USER_TEXT_ENCODING", "PATH", "PATHEXT", "COMSPEC",
    "WINDIR", "PROCESSOR_ARCHITECTURE", "ProgramFiles", "ProgramFiles(x86)", "ALL_PROXY",
    "HTTP_PROXY", "HTTPS_PROXY", "NO_PROXY", "CURL_CA_BUNDLE", "REQUESTS_CA_BUNDLE",
    "SSL_CERT_DIR", "SSL_CERT_FILE"]

def proxyUrlVars : List String := ["ALL_PROXY", "HTTP_PROXY", "HTTPS_PROXY"]

def eqIgnoreAsciiCase (left right : String) : Bool :=
  toAsciiLowercase left == toAsciiLowercase right

def isProxyUrlVar (name : String) : Bool := proxyUrlVars.any (eqIgnoreAsciiCase name)

def envNameAllowed (name : String) : Bool := childEnvAllowlist.any (eqIgnoreAsciiCase name)

def envValueLimit (name : String) : Nat :=
  if eqIgnoreAsciiCase name "PATH" then maxPathEnvValueBytes else maxEnvValueBytes

/-- `char::is_control`: the characters of category Cc. -/
def isControl (c : Char) : Bool := c.toNat < 32 || (127 ≤ c.toNat && c.toNat < 160)

def envValueOk (name value : String) : Bool :=
  value ≠ "" && value.utf8ByteSize ≤ envValueLimit name && !value.toList.any isControl

structure ChildEnvironment where
  schema : Nat
  installId : String
  transactionId : String
  vars : SortedMap String String
  secretRefs : SortedMap String String
deriving DecidableEq

/-- The JSON form of a record: `serde_json::to_vec` and the strict parser. -/
structure Codec where
  toVec : ChildEnvironment → Except String (List UInt8)
  parseStrict : List UInt8 → Except UpdateError ChildEnvironment

/-- What is written is read back. -/
def Codec.RoundTrips (codec : Codec) : Prop :=
  ∀ document bytes, codec.toVec document = .ok bytes → codec.parseStrict bytes = .ok document

def secretRef (transaction : String) (index : Nat) : String := transaction ++ "." ++ toString index

def secretRefOk (transaction reference : String) : Bool :=
  match transaction.toList.isPrefixOf? reference.toList with
  | some ('.' :: index) =>
    index ≠ [] && (String.ofList index).utf8ByteSize ≤ 4 && index.all Char.isDigit
  | _ => false

def secretStoreUnavailable : UpdateError :=
  ⟨.io, "the proxy credential for the restart cannot be handed over safely"⟩

-- Calls with their errors

def verify : Handing Unit := .mk (Program.request HandoffCall.verify)

def secureNew : Handing Unit := .mk (Program.request HandoffCall.secureNew)

def durableWrite (bytes : List UInt8) : Handing Unit :=
  .mk do
    let answer : Except IoError Unit ← Program.request (HandoffCall.durableWrite bytes)
    return answer.mapError ioUpdateError

/-- `discard_environment`: a failure is ignored. -/
def discardEnvironment : Program HandoffCall.Answer Unit := do
  let _answer : Except IoError Unit ← Program.request HandoffCall.removeFile
  return ()

/-- Deletes every reference, also after a failure, and says whether any failed. -/
def deleteEach : List String → Bool → Program HandoffCall.Answer Bool
  | [], failed => return failed
  | reference :: rest, failed => do
    let deleted : Except UpdateError Unit ← Program.request (HandoffCall.delete reference)
    deleteEach rest (failed || !deleted.isOk)

/-- What reading the open file gives, within a limit. -/
def readOpened (environmentPath : String) (limit : Nat) : Handing (Option (List UInt8)) :=
  .mk do
    let answer : Except IoError (List UInt8) ← Program.request (HandoffCall.readToEnd (limit + 1))
    return match answer with
      | .error err => .error (ioUpdateError err)
      | .ok data =>
        if data.length > limit then
          .error ⟨.limitExceeded, s!"{environmentPath} exceeds {limit} bytes"⟩
        else .ok (some data)

/-- Reads at most `limit` bytes; a larger file is an error and a missing one is `none`. -/
def readLimited (environmentPath : String) (limit : Nat) : Handing (Option (List UInt8)) :=
  .mk do
    let answer : Except IoError Unit ← Program.request HandoffCall.openFile
    match answer with
    | .ok () => readOpened environmentPath limit
    | .error err => return if IsNotFound err then .ok none else .error (ioUpdateError err)

-- Publishing

/-- What the loop of `collect_environment` makes of one variable before it stores anything. -/
inductive Recording where
  | leftOut
  | refused (err : UpdateError)
  | recorded (name value : String) (userinfo : Option String)
deriving DecidableEq

def recordingOf (name value : OsText) : Recording :=
  match name.intoString with
  | none => .leftOut
  | some name =>
    if envNameAllowed name = false then .leftOut
    else match value.intoString with
      | none => .leftOut
      | some value =>
        match if isProxyUrlVar name then splitUserinfo value else .ok (value, none) with
        | .error err => .refused err
        | .ok (value, userinfo) =>
          if envValueOk name value = false then .leftOut
          else .recorded name value (userinfo.filter (· ≠ ""))

/-- The variables and references of the record, and the references stored so far. -/
structure Collected where
  vars : SortedMap String String
  secretRefs : SortedMap String String
  stored : List String

namespace Collected

def empty : Collected := ⟨.empty, .empty, []⟩

def record (held : Collected) (name value : String) : Collected :=
  { held with vars := held.vars.insert name value }

def store (held : Collected) (name reference : String) : Collected :=
  { held with
    secretRefs := held.secretRefs.insert name reference
    stored := held.stored ++ [reference] }

end Collected

section Publishing

variable (codec : Codec) (coordination : Coordination) (transaction : String)

/-- The loop, with what is collected so far; it says how it ends and what it has collected. -/
def collectEnvironment
    : List (OsText × OsText) → Collected
      → Program HandoffCall.Answer (Except UpdateError Unit × Collected)
  | [], held => return (.ok (), held)
  | (name, value) :: rest, held =>
    match recordingOf name value with
    | .leftOut => collectEnvironment rest held
    | .refused err => return (.error err, held)
    | .recorded name value none => collectEnvironment rest (held.record name value)
    | .recorded name value (some userinfo) =>
      if held.stored.length ≥ maxSecretRefs then
        return (.error ⟨.limitExceeded, "too many proxy credentials for the restart"⟩, held)
      else do
        let reference := secretRef transaction held.stored.length
        let answer : Except UpdateError Unit ← Program.request (HandoffCall.put reference userinfo)
        match answer with
        | .error err => return (.error err, held)
        | .ok () => collectEnvironment rest ((held.store name reference).record name value)

/-- Closes the record to others; a record that cannot be closed is removed. -/
def secureRecord : Handing Unit :=
  .mk do
    let secured : Except UpdateError Unit ← (do secureNew; verify : Handing Unit).run
    match secured with
    | .ok () => return .ok ()
    | .error err => do
      discardEnvironment
      return .error err

def writeEnvironment (vars secretRefs : SortedMap String String) : Handing Unit := do
  let document : ChildEnvironment :=
    ⟨bindingSchema, coordination.installId, transaction, vars, secretRefs⟩
  let bytes ← Program.settled ((codec.toVec document).mapError fun why => ⟨.io, why⟩)
  .mk (Except.ok <$> discardEnvironment)
  if bytes.length > environmentLimit then
    Program.settled (.error ⟨.limitExceeded, "the child environment is too large"⟩)
  else do
    durableWrite bytes
    secureRecord

/-- Writes the record when everything was collected. -/
def writeCollected (collected : Except UpdateError Unit × Collected)
    : Program HandoffCall.Answer (Except UpdateError Unit) :=
  match collected.1 with
  | .ok () => writeEnvironment codec coordination transaction collected.2.vars collected.2.secretRefs
  | .error err => return .error err

/-- After a failure every stored secret is deleted again; how that goes does not matter. -/
def undoFailed (stored : List String) (result : Except UpdateError Unit)
    : Program HandoffCall.Answer (Except UpdateError Unit) :=
  match result with
  | .ok () => return .ok ()
  | .error err => do
    let _failed ← deleteEach stored false
    return .error err

def publishEnvironmentWithSecrets (ambient : List (OsText × OsText))
    : Program HandoffCall.Answer (Except UpdateError Unit) := do
  let collected ← collectEnvironment transaction ambient .empty
  let result ← writeCollected codec coordination transaction collected
  undoFailed collected.2.stored result

end Publishing

-- Reading

/-- A recorded variable is allowed, valid and, for a proxy, free of credentials. -/
def checkVar (name value : String) : Except UpdateError Unit :=
  if envNameAllowed name = false ∨ envValueOk name value = false then
    .error (mismatch "the child environment names a variable that is not allowed")
  else if isProxyUrlVar name = true ∧ (splitUserinfo value).toOption.map Prod.snd ≠ some none then
    .error (mismatch "the child environment holds proxy credentials")
  else .ok ()

def checkVars : List (String × String) → Except UpdateError Unit
  | [] => .ok ()
  | (name, value) :: rest => do
    checkVar name value
    checkVars rest

def restoreUserinfo (name userinfo : String) : List (String × String) → List (String × String)
  | [] => []
  | (key, value) :: rest =>
    if key = name then (key, joinUserinfo value userinfo) :: rest
    else (key, value) :: restoreUserinfo name userinfo rest

section Reading

variable (codec : Codec) (coordination : Coordination) (transaction environmentPath : String)

def checkRefs (vars : List (String × String)) : List (String × String) → Except UpdateError Unit
  | [] => .ok ()
  | (name, reference) :: rest => do
    let known := vars.any fun pair => pair.1 == name
    if known = false ∨ isProxyUrlVar name = false ∨ secretRefOk transaction reference = false then
      throw (mismatch "the child environment has an invalid secret reference")
    checkRefs vars rest

def checkDocument (document : ChildEnvironment)
    : Except UpdateError (List (String × String) × SortedMap String String) := do
  if document.schema ≠ bindingSchema then
    throw ⟨.schemaUnsupported, "unsupported child environment"⟩
  if document.installId ≠ coordination.installId ∨ document.transactionId ≠ transaction then
    throw (mismatch "the child environment is for another installation or transaction")
  checkVars document.vars.entries
  checkRefs transaction document.vars.entries document.secretRefs.entries
  return (document.vars.entries, document.secretRefs)

def readPrivate : Handing (List UInt8) := do
  verify
  let found ← readLimited environmentPath environmentLimit
  Program.settled (match found with
    | some bytes => .ok bytes
    | none => .error ⟨.notFound, "the child environment is missing"⟩)

def loadRecorded : Handing (List (String × String) × SortedMap String String) := do
  let bytes ← readPrivate environmentPath
  let document ← Program.settled (codec.parseStrict bytes)
  Program.settled (checkDocument coordination transaction document)

def loadEnvironment : Handing (List (String × String) × SortedMap String String) :=
  .mk do
    let found : Except IoError Unit ← Program.request HandoffCall.symlinkMetadata
    match found with
    | .ok () => loadRecorded codec coordination transaction environmentPath
    | .error err =>
      return if IsNotFound err then .ok ([], .empty) else .error (ioUpdateError err)

/-- Takes every referenced secret once, also after a missing one. -/
def claimSecrets
    : List (String × String) → List (String × String) → Bool
      → Program HandoffCall.Answer (List (String × String) × Bool)
  | [], vars, failed => return (vars, failed)
  | (name, reference) :: rest, vars, failed => do
    let taken : Except UpdateError (Option String) ← Program.request (HandoffCall.take reference)
    match taken with
    | .ok (some userinfo) => claimSecrets rest (restoreUserinfo name userinfo vars) failed
    | .ok none => claimSecrets rest vars true
    | .error _ => claimSecrets rest vars true

/-- The loaded variables with their userinfo. -/
def restoreAll (loaded : List (String × String) × SortedMap String String)
    : Handing (List (String × String)) :=
  .mk do
    let (vars, failed) ← claimSecrets loaded.2.entries loaded.1 false
    return if failed = true then .error secretStoreUnavailable else .ok vars

def readEnvironmentWithSecrets : Handing (List (String × String)) := do
  let loaded ← loadEnvironment codec coordination transaction environmentPath
  restoreAll loaded

-- Releasing

/-- The references to delete, or `none` when a complete record of this transaction names no
secret.
-/
def sweptReferences (found : Except UpdateError (Option (List UInt8))) : Option (List String) :=
  let bounded := (List.range maxSecretRefs).map (secretRef transaction)
  match found with
  | .ok (some bytes) =>
    match codec.parseStrict bytes with
    | .ok document =>
      if document.transactionId = transaction ∧ document.secretRefs.entries = [] then none
      else
        let named := (document.secretRefs.entries.map Prod.snd).filter (secretRefOk transaction)
        some (SortedMaps.sortedSet (bounded ++ named))
    | .error _ => some (SortedMaps.sortedSet bounded)
  | _ => some (SortedMaps.sortedSet bounded)

/-- Deletes the references and, when all are gone, the record. -/
def sweep (references : List String) : Program HandoffCall.Answer (Except UpdateError Unit) := do
  let failed ← deleteEach references false
  if failed = true then
    return .error ⟨.io, "the temporary proxy credential could not be removed yet"⟩
  else do
    discardEnvironment
    return .ok ()

def releaseRecorded (found : Except UpdateError (Option (List UInt8)))
    : Program HandoffCall.Answer (Except UpdateError Unit) :=
  match sweptReferences codec transaction found with
  | none => do
    discardEnvironment
    return .ok ()
  | some references => sweep references

def releaseEnvironmentSecrets : Program HandoffCall.Answer (Except UpdateError Unit) := do
  let found ← (readLimited environmentPath environmentLimit).run
  releaseRecorded codec transaction found

end Reading

end Hane.Update.StateRoot
