import Hane.Ai.Settings

/-! The journal of credential operations, and the recovery of what it still holds. -/

namespace Hane.Ai

open Hane.Foundations

namespace CredentialJournal

def pendingOperations : Asking IoError (List CredentialOperation) := .mk (ask .readJournal)

/-- Either failure of the replacement is an I/O error to the journal's callers. -/
def written : Except AtomicWriteError Unit → Except IoError Unit
  | .ok () => .ok ()
  | .error (.notPersisted error) | .error (.renameSucceededSyncFailed error) => .error error

def write (operations : List CredentialOperation) : Asking IoError Unit :=
  .mk (written <$> ask (.replaceJournal operations))

def isEmpty : Asking IoError Bool := do
  let operations ← pendingOperations
  return operations.isEmpty

/-- Records an operation before anything else of it is done. -/
def begin (operation : CredentialOperation) : Asking IoError Unit := do
  let operations ← pendingOperations
  write (operations ++ [operation])

/-- Marks the pending operations that match as having their settings in place. -/
def markSettingsSwappedMatching (isMatch : CredentialOperation → Bool) : Asking IoError Unit := do
  let operations ← pendingOperations
  write <| operations.map fun operation =>
    if operation.state = .pendingNew ∧ isMatch operation then
      { operation with state := .settingsSwapped }
    else
      operation

def markUpdateSettingsSwapped (newCredentialRef : CredentialRef) : Asking IoError Unit :=
  markSettingsSwappedMatching fun operation =>
    operation.kind = .update ∧ operation.newCredentialRef = some newCredentialRef

def markDeleteSettingsSwapped (oldCredentialRef : CredentialRef) : Asking IoError Unit :=
  markSettingsSwappedMatching fun operation =>
    operation.kind = .delete ∧ operation.oldCredentialRef = some oldCredentialRef

/-- Drops the operations with these two references. -/
def complete (newCredentialRef oldCredentialRef : Option CredentialRef) : Asking IoError Unit := do
  let operations ← pendingOperations
  write <| operations.filter fun operation =>
    ¬ (operation.newCredentialRef = newCredentialRef
      ∧ operation.oldCredentialRef = oldCredentialRef)

end CredentialJournal

/-- `store.set(..)` and `store.delete(..)` of the secret store. -/
def setSecret (credentialRef : CredentialRef) (secret : String) : Asking CredentialStoreError Unit :=
  .mk (ask (.set credentialRef secret))

def deleteSecret (credentialRef : CredentialRef) : Asking CredentialStoreError Unit :=
  .mk (ask (.delete credentialRef))

-- Recovery

structure RecoveryOutcome where
  completed : Nat
  leftForDiagnosis : Nat
  deletionFailed : Nat
  pendingSettingsSwap : Nat
deriving DecidableEq

namespace RecoveryOutcome

def none : RecoveryOutcome := ⟨0, 0, 0, 0⟩

/-- Counts an operation whose deletion succeeded or failed. -/
def counting (outcome : RecoveryOutcome) (deleted : Bool) : RecoveryOutcome :=
  if deleted then
    { outcome with completed := outcome.completed + 1 }
  else
    { outcome with deletionFailed := outcome.deletionFailed + 1 }

end RecoveryOutcome

def isDeleted {ε : Type} : Option CredentialRef → Asking ε Bool
  | some target => succeeds (deleteSecret target)
  | none => return true

/-- Deletes a secret, and completes the entry only once that succeeded. -/
def deleteAndComplete (toDelete newRef oldRef : Option CredentialRef) : Asking IoError Bool := do
  let deleted : Bool ← isDeleted toDelete
  if deleted then do
    CredentialJournal.complete newRef oldRef
    return true
  else
    return false

/-- Resolves one entry against the credential reference of the current settings. -/
def recoverOperation (currentCredentialRef : Option CredentialRef)
    (onPendingSettingsSwap : CredentialOperation → Asking IoError Bool)
    (outcome : RecoveryOutcome) (operation : CredentialOperation)
    : Asking IoError RecoveryOutcome :=
  let newRef := operation.newCredentialRef
  let oldRef := operation.oldCredentialRef
  match operation.kind with
  | .update =>
      if currentCredentialRef = newRef then
        outcome.counting <$> deleteAndComplete oldRef newRef oldRef
      else if currentCredentialRef = oldRef then
        outcome.counting <$> deleteAndComplete newRef newRef oldRef
      else
        return { outcome with leftForDiagnosis := outcome.leftForDiagnosis + 1 }
  | .delete =>
      if currentCredentialRef = oldRef then do
        if ← onPendingSettingsSwap operation then
          outcome.counting <$> deleteAndComplete oldRef none oldRef
        else
          return { outcome with pendingSettingsSwap := outcome.pendingSettingsSwap + 1 }
      else if currentCredentialRef = none then
        outcome.counting <$> deleteAndComplete oldRef none oldRef
      else
        return { outcome with leftForDiagnosis := outcome.leftForDiagnosis + 1 }

/-- Resolves entries one after the other; an I/O error ends the pass. -/
def recoverOperations (currentCredentialRef : Option CredentialRef)
    (onPendingSettingsSwap : CredentialOperation → Asking IoError Bool)
    : List CredentialOperation → RecoveryOutcome → Asking IoError RecoveryOutcome
  | [], outcome => return outcome
  | operation :: rest, outcome => do
      let outcome ←
        recoverOperation currentCredentialRef onPendingSettingsSwap outcome operation
      recoverOperations currentCredentialRef onPendingSettingsSwap rest outcome

def recover (currentCredentialRef : Option CredentialRef)
    (onPendingSettingsSwap : CredentialOperation → Asking IoError Bool)
    : Asking IoError RecoveryOutcome := do
  let operations ← CredentialJournal.pendingOperations
  recoverOperations currentCredentialRef onPendingSettingsSwap operations .none

end Hane.Ai
