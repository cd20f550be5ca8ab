import Hane.Ai.CredentialJournal

/-! The journaled change and removal of the custom connection's credential, and the recovery of
either at startup.
-/

namespace Hane.Ai

open Hane.Foundations

inductive ConnectError where
  | save (error : SaveError)
  | io (error : IoError)
  | credentialStore (error : CredentialStoreError)
  | settingsBusy
  | credentialRefMismatch (current : AiSettings)
  | invalidNewSettings
deriving DecidableEq

/-- What the caller takes the current settings to be. -/
structure ExpectedCredentialState where
  revision : Nat
  credentialRef : Option CredentialRef
deriving DecidableEq

/-- `notCommitted` means the settings were not replaced. `committed` carries the new settings also
where the cleanup is left to recovery.
-/
inductive SaveOutcome where
  | notCommitted (error : ConnectError)
  | committed (settings : AiSettings) (cleanupPending : Bool)
  | durabilityUnconfirmed (observed : Option AiSettings) (error : ConnectError)
deriving DecidableEq

/-- A program that may end early with an outcome. -/
abbrev Saving (α : Type) : Type := Asking SaveOutcome α

/-- Ends early, not committed, when the program fails. -/
def orNotCommitted {ε α : Type} (error : ε → ConnectError) (program : Asking ε α) : Saving α :=
  ExceptT.adapt (fun failure => .notCommitted (error failure)) program

def outcomeOf (program : Saving SaveOutcome) : Program CredentialCall.Answer SaveOutcome :=
  (fun
    | .ok outcome | .error outcome => outcome) <$> program.run

def acquireExclusive (store : AiSettingsStore) : Asking ConnectError LockGuard := do
  match ← ExceptT.adapt ConnectError.io store.tryAcquireExclusive with
  | none => throw .settingsBusy
  | some guard => return guard

def rejectIfJournalPending : Asking ConnectError Unit := do
  let isEmpty : Bool ← ExceptT.adapt ConnectError.io CredentialJournal.isEmpty
  if isEmpty = false then throw (.save .pendingCredentialJournal) else return ()

/-- The owner, the lock, the empty journal and the expected current settings, checked before
anything is changed.
-/
def checkedCurrent (store : AiSettingsStore) (owner : LockGuard) (expectedRevision : Nat)
    (expectedRef : Option CredentialRef)
    : Saving (LockGuard × AiSettings) := do
  orNotCommitted .save (Program.settled (store.checkOwner owner))
  let guard ← orNotCommitted id (acquireExclusive store)
  orNotCommitted id rejectIfJournalPending
  let current ← orNotCommitted .io AiSettingsStore.load
  if current.revision ≠ expectedRevision then
    throw (.notCommitted (.save (.revisionConflict current)))
  else if current.credentialRef ≠ expectedRef then
    throw (.notCommitted (.credentialRefMismatch current))
  else
    return (guard, current)

/-- What is observed of the settings after a replacement that may not survive. -/
def unconfirmed (error : IoError) : Saving SaveOutcome := do
  let observed : Except IoError AiSettings ← caught AiSettingsStore.load
  return .durabilityUnconfirmed observed.toOption (.save (.persistedDurabilityUnconfirmed error))

/-- Deletes the secret that is no longer referenced, if any, and only then completes the entry;
says whether that is still pending.
-/
def cleanUp (newRef oldRef : Option CredentialRef) : Saving Bool := do
  let deleted : Bool ← isDeleted oldRef
  if deleted then do
    let completed : Bool ← succeeds (CredentialJournal.complete newRef oldRef)
    return !completed
  else
    return true

/-- Creates or rotates the credential as one journaled transaction. -/
def updateCustomCredentialDetailed (store : AiSettingsStore) (owner : LockGuard)
    (expected : ExpectedCredentialState) (newSecret : String)
    (buildNewSettings : CredentialRef → AiSettings)
    : Program CredentialCall.Answer SaveOutcome :=
  outcomeOf do
    let (guard, current) ←
      checkedCurrent store owner expected.revision expected.credentialRef
    let newRef : CredentialRef ← ExceptT.mk (Except.ok <$> ask .generate)
    let newSettings := buildNewSettings newRef
    if newSettings.credentialRef ≠ some newRef then
      throw (.notCommitted .invalidNewSettings)
    else do
      orNotCommitted .io <| CredentialJournal.begin
        { kind := .update
          state := .pendingNew
          newCredentialRef := some newRef
          oldCredentialRef := expected.credentialRef
          settingsGenerationBefore := current.settingsGeneration }
      orNotCommitted .credentialStore (setSecret newRef newSecret)
      match ← caught (store.writeWhileLocked owner guard expected.revision newSettings) with
      | .error (.persistedDurabilityUnconfirmed error) => unconfirmed error
      | .error error => do
          let _ ← succeeds (deleteSecret newRef)
          return .notCommitted (.save error)
      | .ok saved => do
          if ← succeeds (CredentialJournal.markUpdateSettingsSwapped newRef) then
            return .committed saved (← cleanUp (some newRef) expected.credentialRef)
          else
            return .committed saved true

/-- Removes the credential as one journaled transaction. -/
def deleteCustomCredentialDetailed (store : AiSettingsStore) (owner : LockGuard)
    (expectedRevision : Nat) (oldCredentialRef : CredentialRef)
    (newSettingsWithoutCredential : AiSettings)
    : Program CredentialCall.Answer SaveOutcome :=
  outcomeOf do
    let (guard, current) ←
      checkedCurrent store owner expectedRevision (some oldCredentialRef)
    if newSettingsWithoutCredential.credentialRef ≠ none then
      throw (.notCommitted .invalidNewSettings)
    else do
      orNotCommitted .io <| CredentialJournal.begin
        { kind := .delete
          state := .pendingNew
          newCredentialRef := none
          oldCredentialRef := some oldCredentialRef
          settingsGenerationBefore := current.settingsGeneration }
      match ← caught
          (store.writeWhileLocked owner guard expectedRevision newSettingsWithoutCredential) with
      | .error (.persistedDurabilityUnconfirmed error) => unconfirmed error
      | .error error => return .notCommitted (.save error)
      | .ok saved => do
          if ← succeeds (CredentialJournal.markDeleteSettingsSwapped oldCredentialRef) then
            return .committed saved (← cleanUp none (some oldCredentialRef))
          else
            return .committed saved true

def AiSettings.withoutCredential (settings : AiSettings) : AiSettings :=
  { settings with
    custom := settings.custom.map fun custom => { custom with credentialRef := none } }

/-- Retries the replacement of the settings that a pending deletion needs. Only an I/O error is
an error; whatever else does not confirm the replacement is left to a later pass.
-/
def retrySettingsSwap (store : AiSettingsStore) (owner guard : LockGuard) (current : AiSettings)
    : Asking IoError Bool := do
  match ← caught (store.writeWhileLocked owner guard current.revision current.withoutCredential) with
  | .ok _ => return true
  | .error (.io error) => throw error
  | .error _ => return false

/-- Recovers the journal against the settings as they are read now. -/
def recoverAtStartup (store : AiSettingsStore) (owner : LockGuard)
    : Asking ConnectError RecoveryOutcome := do
  ExceptT.adapt ConnectError.save (Program.settled (store.checkOwner owner))
  let guard ← acquireExclusive store
  let current ← ExceptT.adapt ConnectError.io AiSettingsStore.load
  ExceptT.adapt ConnectError.io
    (recover current.credentialRef fun _ => retrySettingsSwap store owner guard current)

end Hane.Ai
