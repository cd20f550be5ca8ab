import Hane.Foundations.Programs

/-! The AI settings, which name a secret but never hold one, and how they are stored. -/

namespace Hane.Ai

open Hane.Foundations

/-- The identifier of a stored secret, given out before the secret is written. -/
structure CredentialRef where
  id : String
deriving DecidableEq

inductive ActiveConnection where
  | chatGpt
  | custom
deriving DecidableEq

structure ChatGptConnectionSettings where
  modelId : Option String
deriving DecidableEq

structure CustomConnectionSettings where
  id : String
  name : String
  baseUrl : String
  modelId : String
  credentialRef : Option CredentialRef
deriving DecidableEq

structure AiSettings where
  schemaVersion : Nat
  revision : Nat
  settingsGeneration : Nat
  activeConnection : ActiveConnection
  chatgpt : ChatGptConnectionSettings
  custom : Option CustomConnectionSettings
deriving DecidableEq

def aiSettingsSchemaVersion : Nat := 1

namespace AiSettings

def default : AiSettings where
  schemaVersion := aiSettingsSchemaVersion
  revision := 0
  settingsGeneration := 0
  activeConnection := .chatGpt
  chatgpt := ⟨none⟩
  custom := none

/-- The credential reference of the custom connection, if there is one. -/
def credentialRef (settings : AiSettings) : Option CredentialRef :=
  settings.custom.bind (·.credentialRef)

/-- A change of anything the running server was started with; a display name is not. -/
def isRuntimeAffectingChangeFrom (settings previous : AiSettings) : Bool :=
  if settings.activeConnection ≠ previous.activeConnection then
    true
  else if settings.chatgpt.modelId ≠ previous.chatgpt.modelId then
    true
  else
    match settings.custom, previous.custom with
    | none, none => false
    | some _, none | none, some _ => true
    | some next, some prev =>
        next.baseUrl ≠ prev.baseUrl ∨ next.modelId ≠ prev.modelId
          ∨ next.credentialRef ≠ prev.credentialRef

end AiSettings

-- Errors

abbrev IoError := String

/-- `notPersisted` leaves the file as it was; `renameSucceededSyncFailed` has replaced it, but
the replacement may not survive a loss of power.
-/
inductive AtomicWriteError where
  | notPersisted (error : IoError)
  | renameSucceededSyncFailed (error : IoError)
deriving DecidableEq

inductive SaveError where
  | io (error : IoError)
  | busy
  | revisionConflict (current : AiSettings)
  | pendingCredentialJournal
  | credentialRefMutationRequiresJournal
  | ownerLockMismatch
  | settingsLockMismatch
  | persistedDurabilityUnconfirmed (error : IoError)
deriving DecidableEq

inductive CredentialStoreError where
  | unavailable (reason : String)
  | backend (reason : String)
deriving DecidableEq

-- What is asked of the stores

inductive JournalOperationKind where
  | update
  | delete
deriving DecidableEq

inductive JournalOperationState where
  | pendingNew
  | settingsSwapped
deriving DecidableEq

/-- An entry of the credential journal. -/
structure CredentialOperation where
  kind : JournalOperationKind
  state : JournalOperationState
  newCredentialRef : Option CredentialRef
  oldCredentialRef : Option CredentialRef
  settingsGenerationBefore : Nat
deriving DecidableEq

/-- Everything asked of the outside: the settings lock, the settings file, the journal file, the
secret store and the source of new references.
-/
inductive CredentialCall where
  | tryAcquireExclusive
  | readSettings
  | replaceSettings (settings : AiSettings)
  | readJournal
  | replaceJournal (operations : List CredentialOperation)
  | generate
  | set (credentialRef : CredentialRef) (secret : String)
  | delete (credentialRef : CredentialRef)
deriving DecidableEq

abbrev CredentialCall.Answer : CredentialCall → Type
  | tryAcquireExclusive => Except IoError Bool
  | readSettings => Except IoError (Option AiSettings)
  | replaceSettings _ => Except AtomicWriteError Unit
  | readJournal => Except IoError (List CredentialOperation)
  | replaceJournal _ => Except AtomicWriteError Unit
  | generate => CredentialRef
  | set _ _ => Except CredentialStoreError Unit
  | delete _ => Except CredentialStoreError Unit

abbrev ask (call : CredentialCall) : Program CredentialCall.Answer call.Answer :=
  Program.request call

/-- A program over the stores that may fail. -/
abbrev Asking (ε α : Type) : Type := ExceptT ε (Program CredentialCall.Answer) α

/-- A program whose failure is a value to look at, not the caller's failure. -/
def caught {ε ε' α : Type} (program : Asking ε α) : Asking ε' (Except ε α) :=
  .mk (Except.ok <$> program.run)

/-- `result.is_ok()`. -/
def succeeds {ε ε' α : Type} (program : Asking ε α) : Asking ε' Bool :=
  .mk ((fun outcome => .ok outcome.isOk) <$> program.run)

-- The settings store

/-- A settings store, by the paths of the two locks that guard it. -/
structure AiSettingsStore where
  lockPath : String
  ownerLockPath : String
deriving DecidableEq

/-- A held lock, by its path. -/
structure LockGuard where
  path : String
deriving DecidableEq

namespace AiSettingsStore

def checkOwner (store : AiSettingsStore) (owner : LockGuard) : Except SaveError Unit :=
  if owner.path ≠ store.ownerLockPath then .error .ownerLockMismatch else .ok ()

def load : Asking IoError AiSettings := do
  let contents : Option AiSettings ← ExceptT.mk (ask .readSettings)
  match contents with
  | none => return .default
  | some settings =>
      if settings.schemaVersion > aiSettingsSchemaVersion then
        throw ("AI settings file has schema_version " ++ toString settings.schemaVersion
          ++ ", which is newer than the highest version " ++ toString aiSettingsSchemaVersion
          ++ " this build supports")
      else
        return settings

/-- The settings as they are written over the current ones. -/
def stamped (current newSettings : AiSettings) : AiSettings :=
  { newSettings with
    schemaVersion := aiSettingsSchemaVersion
    revision := current.revision + 1
    settingsGeneration :=
      if newSettings.isRuntimeAffectingChangeFrom current then
        current.settingsGeneration + 1
      else
        current.settingsGeneration }

def replaced (settings : AiSettings) : Except AtomicWriteError Unit → Except SaveError AiSettings
  | .ok () => .ok settings
  | .error (.notPersisted error) => .error (.io error)
  | .error (.renameSucceededSyncFailed error) => .error (.persistedDurabilityUnconfirmed error)

def writeWhileLocked (store : AiSettingsStore) (owner guard : LockGuard) (expectedRevision : Nat)
    (newSettings : AiSettings)
    : Asking SaveError AiSettings := do
  if owner.path ≠ store.ownerLockPath then
    throw .ownerLockMismatch
  else if guard.path ≠ store.lockPath then
    throw .settingsLockMismatch
  else do
    let current ← ExceptT.adapt SaveError.io load
    if current.revision ≠ expectedRevision then
      throw (.revisionConflict current)
    else do
      let settings := stamped current newSettings
      ExceptT.mk (replaced settings <$> ask (.replaceSettings settings))

def tryAcquireExclusive (store : AiSettingsStore) : Asking IoError (Option LockGuard) := do
  let acquired : Bool ← ExceptT.mk (ask .tryAcquireExclusive)
  return if acquired then some ⟨store.lockPath⟩ else none

/-- A save outside any credential operation. -/
def save (store : AiSettingsStore) (owner : LockGuard) (expectedRevision : Nat)
    (newSettings : AiSettings) (journalIsEmpty : Asking IoError Bool)
    : Asking SaveError AiSettings := do
  Program.settled (store.checkOwner owner)
  match ← ExceptT.adapt SaveError.io store.tryAcquireExclusive with
  | none => throw .busy
  | some guard =>
      if (← ExceptT.adapt SaveError.io journalIsEmpty) = false then
        throw .pendingCredentialJournal
      else do
        let current ← ExceptT.adapt SaveError.io load
        if current.revision ≠ expectedRevision then
          throw (.revisionConflict current)
        else if current.credentialRef ≠ newSettings.credentialRef then
          throw .credentialRefMutationRequiresJournal
        else
          store.writeWhileLocked owner guard expectedRevision newSettings

end AiSettingsStore

end Hane.Ai
