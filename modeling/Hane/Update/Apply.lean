import Hane.Foundations.Programs
import Hane.Update.Journal

/-! Journaled apply, health conclusion and rollback, as programs over the file operations, the
journal store, the health child and the journal held in memory.
-/

namespace Hane.Update

open Hane.Foundations

/-- The file changes. Each replaces or removes exactly one named file. -/
inductive FileChange where
  | backup (relPath backupRel : String)
  | installNew (relPath : String) (expected : FileIdentity)
  | remove (relPath : String)
  | restore (relPath backupRel : String) (expected : FileIdentity)
  deriving DecidableEq

/-- Everything the engine asks of the outside. `current` and `setCurrent` read and write the
journal of the writer in memory; the others are the methods of the source's traits.
-/
inductive UpdateCall where
  | current
  | setCurrent (journal : UpdateJournal)
  | load
  | store (journal : UpdateJournal)
  | observe (relPath : String)
  | change (change : FileChange)
  | bindTarget (relPath : String) (expected : Option FileIdentity)
  | verifyPlacement
  | verifyCommitState
  | hasExited
  | stopAndReleaseLease
  deriving DecidableEq

def UpdateCall.Result : UpdateCall → Type
  | current => UpdateJournal
  | load => Option UpdateJournal
  | observe _ => Observed
  | hasExited => Bool
  | _ => Unit

abbrev UpdateCall.Answer (call : UpdateCall) : Type := Except UpdateError call.Result

/-- A fallible program of the engine. -/
abbrev Updating (α : Type) : Type := ExceptT UpdateError (Program UpdateCall.Answer) α

abbrev ask (call : UpdateCall) : Updating call.Result := Program.attempt call

abbrev fail {α : Type} (code : ErrorCode) (detail : String) : Updating α :=
  Program.settled (.error ⟨code, detail⟩)

/-- A program whose failure is a value to look at, not the caller's failure. -/
def caught {α : Type} (program : Updating α) : Updating (Except UpdateError α) :=
  .mk (Except.ok <$> program.run)

abbrev observe (relPath : String) : Updating Observed := ask (.observe relPath)

-- The durable journal

def currentJournal : Updating UpdateJournal := ask .current

/-- Persists a change before it is considered made; a store that has moved on refuses it. -/
def persist (current next : UpdateJournal) : Updating Unit := do
  let onDisk : Option UpdateJournal ← ask .load
  if (onDisk.any fun stored => stored.generation == current.generation
      && stored.transactionId == current.transactionId) = true then
    let next := { next with generation := current.generation + 1 }
    ask (.store next)
    ask (.setCurrent next)
  else
    fail .staleJournal "journal on disk no longer matches this writer"

def advancePhase (nextPhase : Phase) : Updating Unit := do
  let current ← currentJournal
  let next ← Program.settled (current.transition nextPhase)
  persist current next

def advanceStep (index : Nat) (state : StepState) : Updating Unit := do
  let current ← currentJournal
  let next ← Program.settled (current.setStep index state)
  persist current next

-- Recovery

inductive RecoveryOutcome where
  | nothing
  | keptOld
  | keptNew
  | rolledBack
  | recoveryRequired (why : String)
  deriving DecidableEq, Repr

/-- Gives up explicitly. The move to the phase is attempted and its failure ignored. -/
def require (why : String) : Updating RecoveryOutcome := do
  let _ ← caught (advancePhase .recoveryRequired)
  return .recoveryRequired why

def settleOld : Updating Unit := do
  let journal ← currentJournal
  match journal.phase with
  | .prepared | .exitAuthorized | .rollingBack => advancePhase .rolledBack
  | .applying | .awaitingHealth =>
    advancePhase .rollingBack
    advancePhase .rolledBack
  | .rolledBack | .committed | .recoveryRequired => return ()

def RollbackAction.relPath : RollbackAction → String
  | restoreFromBackup relPath _ _ _ => relPath
  | removeAdded relPath _ => relPath

/-- The journal step of a path; unknown steps and steps without a recorded intent are refused. -/
def checkStepState (journal : UpdateJournal) (relPath : String)
    : Except String (Nat × StepState) :=
  match journal.steps.findIdx? fun step => step.relPath == relPath with
  | none => .error s!"{relPath} is not part of the journal"
  | some index =>
    match journal.steps[index]? with
    | none => .error s!"{relPath} is not part of the journal"
    | some step =>
      if step.state = .planned then
        .error s!"{relPath} was changed without a recorded intent"
      else .ok (index, step.state)

/-- The file change of one action, re-checked right before acting; a reason means stop. -/
def changeBack : RollbackAction → Updating (Option String)
  | .restoreFromBackup relPath backupRel restore expectedCurrent => do
    if identityMatches (← observe relPath) expectedCurrent = false then
      return some s!"{relPath} changed during recovery"
    else if (← observe backupRel) ≠ .file restore then
      return some s!"backup of {relPath} is missing or damaged"
    else
      ask (.bindTarget relPath expectedCurrent)
      ask (.change (.restore relPath backupRel restore))
      return none
  | .removeAdded relPath expected => do
    if (← observe relPath) ≠ .file expected then
      return some s!"{relPath} changed during recovery"
    else
      ask (.bindTarget relPath (some expected))
      ask (.change (.remove relPath))
      return none

def perform (action : RollbackAction) : Updating (Option String) := do
  let journal ← currentJournal
  match checkStepState journal action.relPath with
  | .error why => return some why
  | .ok (index, state) =>
    match ← changeBack action with
    | some why => return some why
    | none =>
      if state = .intent ∨ state = .applied then
        advanceStep index .restored
      return none

/-- Performs actions in the given order until one of them stops with a reason. -/
def performAll : List RollbackAction → Updating (Option String)
  | [] => return none
  | action :: rest => do
    match ← perform action with
    | some why => return some why
    | none => performAll rest

/-- The first action whose step lacks a durable intent. -/
def firstRefused (journal : UpdateJournal) : List RollbackAction → Option String
  | [] => none
  | action :: rest =>
    match checkStepState journal action.relPath with
    | .error why => some why
    | .ok _ => firstRefused journal rest

/-- The phase from which files may be written back. -/
def enterRollback : Updating (Option String) := do
  let journal ← currentJournal
  match journal.phase with
  | .applying | .awaitingHealth =>
    advancePhase .rollingBack
    return none
  | .rollingBack => return none
  | other =>
    let name := other.debug
    return some s!"cannot roll back from {name}"

def RecoveryDecision.debug : RecoveryDecision → String
  | noJournal => "NoJournal"
  | keepOld => "KeepOld"
  | keepNew => "KeepNew"
  | rollBack _ _ => "RollBack"
  | recoveryRequired why => "RecoveryRequired(" ++ debugText why ++ ")"

/-- The rollback once its phase is entered: nothing is written if any step lacks an intent. -/
def writeBack (actions : List RollbackAction) : Updating RecoveryOutcome := do
  let journal ← currentJournal
  match firstRefused journal actions with
  | some why => require why
  | none =>
    match ← performAll actions.reverse with
    | some why => require why
    | none =>
      let after ← currentJournal
      let decision ← decideRecovery observe (some after) after.installId
      if decision = .keepOld then
        advancePhase .rolledBack
        return .rolledBack
      else
        let text := decision.debug
        require s!"the disk is not at the old version after rollback: {text}"

def rollBack (actions : List RollbackAction) : Updating RecoveryOutcome := do
  match ← enterRollback with
  | some why => require why
  | none => writeBack actions

def stopChild : Updating (Except UpdateError Unit) := caught (ask .stopAndReleaseLease)

def verifyPlacement : Updating (Except UpdateError Unit) := caught (ask .verifyPlacement)

/-- Acts on a recovery decision. -/
def settle : RecoveryDecision → Updating RecoveryOutcome
  | .noJournal => return .nothing
  | .keepNew => return .keptNew
  | .keepOld => do
    settleOld
    return .keptOld
  | .recoveryRequired why => require why
  | .rollBack actions requireChildExit => do
    if requireChildExit then
      match ← stopChild with
      | .error err =>
        let text := err.display
        require s!"the health child could not be stopped: {text}"
      | .ok () => rollBack actions
    else rollBack actions

/-- Decides from the journal and the actual disk, then acts. -/
def recover : Updating RecoveryOutcome := do
  match ← verifyPlacement with
  | .error err =>
    let _ ← stopChild
    let text := err.display
    require s!"the placement changed during the update: {text}"
  | .ok () =>
    let current ← currentJournal
    let decision ← decideRecovery observe (some current) current.installId
    settle decision

-- Apply

inductive ApplyOutcome where
  | awaitingHealth
  | rolledBack (err : UpdateError)
  | recoveryRequired (why : String)
  deriving DecidableEq, Repr

/-- Fails closed unless the live path still matches the journaled old identity. -/
def ensureLiveOld (step : JournalStep) : Updating Unit := do
  let relPath := step.relPath
  if identityMatches (← observe relPath) step.old = false then
    fail .installModified s!"{relPath} changed during the update"

/-- Makes and verifies the backup of one step that replaces or removes a file. -/
def backupStep (step : JournalStep) : Updating Unit := do
  match step.old, step.backupRel with
  | some old, some backupRel =>
    ensureLiveOld step
    ask (.change (.backup step.relPath backupRel))
    if (← observe backupRel) ≠ .file old then
      let relPath := step.relPath
      fail .hashMismatch s!"backup of {relPath} does not match the installed file"
    ensureLiveOld step
  | _, _ => return ()

def backupAll : List JournalStep → Updating Unit
  | [] => return ()
  | step :: rest => do
    backupStep step
    backupAll rest

/-- Replaces or removes the file of one step, its intent made durable first. -/
def replaceStep (index : Nat) (step : JournalStep) : Updating Unit := do
  advanceStep index .intent
  ensureLiveOld step
  ask (.bindTarget step.relPath step.old)
  match step.new with
  | some identity => ask (.change (.installNew step.relPath identity))
  | none => ask (.change (.remove step.relPath))
  advanceStep index .applied

def replaceAll (index : Nat) : List JournalStep → Updating Unit
  | [] => return ()
  | step :: rest => do
    replaceStep index step
    replaceAll (index + 1) rest

/-- Every step must hold its new identity, every unchanged file its recorded one. -/
def checkNew (detail : String) (steps : List JournalStep) (unchanged : List UnchangedFile)
    : Updating Unit := do
  match ← firstStepNotNew observe steps with
  | some path => fail .hashMismatch s!"{path} {detail}"
  | none =>
    match ← firstUnchangedMismatch observe unchanged with
    | some path => fail .installModified s!"{path} differs from the signed inventory"
    | none => return ()

def runSteps : Updating Unit := do
  let journal ← currentJournal
  backupAll journal.steps
  replaceAll 0 journal.steps
  checkNew "does not have the new content after replacement" journal.steps journal.unchanged
  advancePhase .awaitingHealth

/-- Every step must be untouched by this update, outside the backup area and at its old
identity.
-/
def checkInstalled : List JournalStep → Updating Unit
  | [] => return ()
  | step :: rest => do
    let relPath := step.relPath
    if startsWithBackup relPath = true ∨ step.state ≠ .planned then
      fail .journalInvalid s!"{relPath} cannot be applied"
    if identityMatches (← observe relPath) step.old = false then
      fail .installModified s!"{relPath} is not in its installed state"
    checkInstalled rest

def RecoveryOutcome.debug : RecoveryOutcome → String
  | nothing => "Nothing"
  | keptOld => "KeptOld"
  | keptNew => "KeptNew"
  | rolledBack => "RolledBack"
  | recoveryRequired why => "RecoveryRequired(" ++ debugText why ++ ")"

/-- What a failed run of the steps becomes after its recovery. -/
def applyOutcome (err : UpdateError) : RecoveryOutcome → ApplyOutcome
  | .recoveryRequired why => .recoveryRequired why
  | .rolledBack | .keptOld => .rolledBack err
  | other =>
    let text := other.debug
    .recoveryRequired s!"unexpected recovery result {text}"

/-- Replaces the owned files in journal order. -/
def apply : Updating ApplyOutcome := do
  let exited : Bool ← ask .hasExited
  if exited = false then
    fail .notApplicable "the application process is still running"
  let journal ← currentJournal
  if journal.phase ≠ .prepared then
    fail .transitionInvalid "apply requires a freshly prepared journal"
  checkInstalled journal.steps
  advancePhase .exitAuthorized
  advancePhase .applying
  match ← caught runSteps with
  | .ok () => return .awaitingHealth
  | .error err => return applyOutcome err (← recover)

-- Health

inductive HealthOutcome where
  | committed
  | rolledBack
  | recoveryRequired (why : String)
  deriving DecidableEq, Repr

def healthOutcome : RecoveryOutcome → HealthOutcome
  | .recoveryRequired why => .recoveryRequired why
  | .rolledBack | .keptOld => .rolledBack
  | other =>
    let text := other.debug
    .recoveryRequired s!"unexpected recovery result {text}"

/-- Compares the whole install with the state the signed plan requires. -/
def verifyBeforeCommit : Updating Unit := do
  let journal ← currentJournal
  checkNew "differs from the signed new version" journal.steps journal.unchanged
  ask .verifyCommitState

/-- The reason a failed check before the commit leaves when the child cannot be stopped. -/
def giveUp (err stop : UpdateError) : Updating HealthOutcome := do
  let changed := err.display
  let text := stop.display
  let outcome ← require
    s!"the install changed before the commit ({changed}) and the health child could not be stopped: {text}"
  match outcome with
  | .recoveryRequired why => return .recoveryRequired why
  | _ => return .recoveryRequired ""

def recoverHealth : Updating HealthOutcome := do
  return healthOutcome (← recover)

/-- The attempt to commit; no result means that recovery has to decide. -/
def tryCommit : Updating (Option HealthOutcome) := do
  match ← caught verifyBeforeCommit with
  | .ok () =>
    match ← caught (advancePhase .committed) with
    | .ok () => return some .committed
    | .error _ => return none
  | .error err =>
    match ← stopChild with
    | .error stop => return some (← giveUp err stop)
    | .ok () => return none

/-- Concludes the limited-health run. -/
def concludeHealth (healthy : Bool) : Updating HealthOutcome := do
  let journal ← currentJournal
  if journal.phase ≠ .awaitingHealth then
    fail .transitionInvalid "health can only be concluded while awaiting health"
  if healthy then
    match ← verifyPlacement with
    | .error _ => recoverHealth
    | .ok () =>
      match ← tryCommit with
      | some outcome => return outcome
      | none => recoverHealth
  else recoverHealth

end Hane.Update
