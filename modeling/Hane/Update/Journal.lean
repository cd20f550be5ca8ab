import Hane.Update.Catalog
import Hane.Update.Paths

/-! The update journal and the recovery decision. The journal records intent, the disk is the
evidence: a decision compares every step with what is observed, in any monad of observations.
-/

namespace Hane.Update

open Hane.Foundations

-- The journal

/-- Size and SHA-256 of one file; the unit of comparison against the disk. -/
structure FileIdentity where
  size : Nat
  sha256 : String
  deriving DecidableEq, Repr

structure ReleaseIdentity where
  target : String
  version : String
  catalogSha256 : Option String
  inventorySha256 : Option String
  bundleId : Option String
  teamId : Option String
  deriving DecidableEq, Repr

structure UnchangedFile where
  relPath : String
  identity : FileIdentity
  deriving DecidableEq, Repr

/-- One file of a plan: no old identity means it is added, no new one that it is removed. -/
structure PlanStep where
  relPath : String
  old : Option FileIdentity
  new : Option FileIdentity
  backupRel : Option String
  deriving DecidableEq, Repr

structure ApplyPlan where
  installId : String
  transactionId : String
  source : ReleaseIdentity
  destination : ReleaseIdentity
  steps : List PlanStep
  unchanged : List UnchangedFile
  deriving DecidableEq, Repr

inductive Phase where
  | prepared
  | exitAuthorized
  | applying
  | awaitingHealth
  | committed
  | rollingBack
  | rolledBack
  | recoveryRequired
  deriving DecidableEq, Repr

namespace Phase

def isTerminal : Phase → Bool
  | committed | rolledBack | recoveryRequired => true
  | _ => false

def mayFollow (phase next : Phase) : Bool :=
  [(prepared, exitAuthorized), (prepared, rolledBack), (exitAuthorized, applying),
    (exitAuthorized, rolledBack), (applying, awaitingHealth), (applying, rollingBack),
    (awaitingHealth, committed), (awaitingHealth, rollingBack),
    (rollingBack, rolledBack)].contains (phase, next)
  || (!phase.isTerminal && next == recoveryRequired)

def debug : Phase → String
  | prepared => "Prepared"
  | exitAuthorized => "ExitAuthorized"
  | applying => "Applying"
  | awaitingHealth => "AwaitingHealth"
  | committed => "Committed"
  | rollingBack => "RollingBack"
  | rolledBack => "RolledBack"
  | recoveryRequired => "RecoveryRequired"

end Phase

inductive StepState where
  | planned
  | intent
  | applied
  | restored
  deriving DecidableEq, Repr

namespace StepState

def mayFollow (state next : StepState) : Bool :=
  [(planned, intent), (intent, applied), (intent, restored), (applied, restored)].contains
    (state, next)

def debug : StepState → String
  | planned => "Planned"
  | intent => "Intent"
  | applied => "Applied"
  | restored => "Restored"

end StepState

structure JournalStep where
  relPath : String
  old : Option FileIdentity
  new : Option FileIdentity
  backupRel : Option String
  state : StepState
  deriving DecidableEq, Repr

structure UpdateJournal where
  schema : Nat
  transactionId : String
  installId : String
  planHash : String
  source : ReleaseIdentity
  destination : ReleaseIdentity
  ticketSha256 : Option String
  phase : Phase
  steps : List JournalStep
  unchanged : List UnchangedFile
  generation : Nat
  deriving DecidableEq, Repr

def journalSchema : Nat := 1
def maxEntries : Nat := 10000

/-- Backups are addressed as `backup/<path>`. -/
def backupPrefix : String := "backup/"

def startsWithBackup (path : String) : Bool := backupPrefix.toList.isPrefixOf path.toList

def Target.parse (triple : String) : Except UpdateError Target :=
  let quoted := debugText triple
  match [Target.macosArm64, .windowsX64].find? fun target => target.triple == triple with
  | some target => .ok target
  | none => .error ⟨.targetUnsupported, s!"unsupported target {quoted}"⟩

section Validation

variable {Json : Type} (crates : Crates Json)

def ReleaseIdentity.validate (release : ReleaseIdentity) : Except UpdateError Unit := do
  let _ ← Target.parse release.target
  let _ ← parseStableVersion crates release.version
  if ([release.catalogSha256, release.inventorySha256].flatMap Option.toList).any
      (fun hash => !isSha256Hex hash) = true then
    throw ⟨.journalInvalid, "identity hash is not SHA-256 hex"⟩

def invalid (why : String) : UpdateError := ⟨.journalInvalid, why⟩

def JournalStep.validate (step : JournalStep) : Except UpdateError Unit := do
  validateRelPath step.relPath
  if step.old = none ∧ step.new = none then throw (invalid "step changes nothing")
  match step.old, step.backupRel with
  | some _, some backup =>
    validateRelPath backup
    if backup ≠ backupPrefix ++ step.relPath then
      throw (invalid "step backup is not its own backup path")
  | some _, none => throw (invalid "step replaces a file without a backup")
  | none, some _ => throw (invalid "step without an old file has a backup")
  | none, none => pure ()
  if ([step.old, step.new].flatMap Option.toList).any (fun id => !isSha256Hex id.sha256) = true then
    throw (invalid "step hash is not SHA-256 hex")

def UnchangedFile.validate (file : UnchangedFile) : Except UpdateError Unit := do
  validateRelPath file.relPath
  if startsWithBackup file.relPath = true then
    throw (invalid "an unchanged file lives in the backup area")
  if isSha256Hex file.identity.sha256 = false then
    throw (invalid "unchanged file hash is not SHA-256 hex")

def validateAll {α : Type} (check : α → Except UpdateError Unit) : List α → Except UpdateError Unit
  | [] => .ok ()
  | item :: rest => do
    check item
    validateAll check rest

namespace UpdateJournal

/-- Every owned path, whether changed or not, in the journal's order. -/
def ownedPaths (journal : UpdateJournal) : List String :=
  journal.steps.map JournalStep.relPath ++ journal.unchanged.map UnchangedFile.relPath

/-- Structural validation; applied to everything read back from disk. -/
def validate (journal : UpdateJournal) : Except UpdateError Unit := do
  if journal.schema ≠ journalSchema then throw (invalid "unknown journal schema")
  if isSha256Hex journal.planHash = false then throw (invalid "plan hash is not SHA-256 hex")
  if journal.ticketSha256.any (fun ticket => !isSha256Hex ticket) = true then
    throw (invalid "ticket hash is not SHA-256 hex")
  if journal.steps.length > maxEntries then throw (invalid "too many journal steps")
  journal.source.validate crates
  journal.destination.validate crates
  validateAll JournalStep.validate journal.steps
  if journal.unchanged.length > maxEntries then throw (invalid "too many unchanged files")
  if ¬(journal.ownedPaths.map collisionKey).Nodup then
    throw (invalid "a path is listed more than once")
  validateAll UnchangedFile.validate journal.unchanged

/-- The journal of a plan before anything happened; `serialize` writes a plan as JSON. -/
def begin (serialize : ApplyPlan → Except String (List UInt8)) (plan : ApplyPlan)
    (ticketSha256 : Option String) : Except UpdateError UpdateJournal := do
  let bytes ← (serialize plan).mapError fun err => ⟨.io, err⟩
  let journal : UpdateJournal := {
    schema := journalSchema
    transactionId := plan.transactionId
    installId := plan.installId
    planHash := sha256Hex crates bytes
    source := plan.source
    destination := plan.destination
    ticketSha256 := ticketSha256
    phase := .prepared
    steps := plan.steps.map fun step =>
      ⟨step.relPath, step.old, step.new, step.backupRel, .planned⟩
    unchanged := plan.unchanged
    generation := 0 }
  journal.validate crates
  return journal

end UpdateJournal

end Validation

namespace UpdateJournal

def transition (journal : UpdateJournal) (next : Phase) : Except UpdateError UpdateJournal :=
  let current := journal.phase.debug
  let wanted := next.debug
  if journal.phase.mayFollow next = false then
    .error ⟨.transitionInvalid, s!"cannot move from {current} to {wanted}"⟩
  else .ok { journal with phase := next }

def stepPhase : StepState → Phase
  | .intent | .applied => .applying
  | .planned | .restored => .rollingBack

def setStep (journal : UpdateJournal) (index : Nat) (next : StepState)
    : Except UpdateError UpdateJournal :=
  let current := journal.phase.debug
  let wanted := next.debug
  if journal.phase ≠ stepPhase next then
    .error ⟨.transitionInvalid, s!"step change {wanted} is not allowed in {current}"⟩
  else
    match journal.steps[index]? with
    | none => .error ⟨.transitionInvalid, "step index out of range"⟩
    | some step =>
      let state := step.state.debug
      if step.state.mayFollow next = false then
        .error ⟨.transitionInvalid, s!"step cannot move from {state} to {wanted}"⟩
      else .ok { journal with steps := journal.steps.set index { step with state := next } }

end UpdateJournal

-- Observations and the recovery decision

inductive Observed where
  | missing
  | file (identity : FileIdentity)
  deriving DecidableEq, Repr

def identityMatches : Observed → Option FileIdentity → Bool
  | .missing, none => true
  | .file actual, some wanted => actual == wanted
  | _, _ => false

inductive RollbackAction where
  | restoreFromBackup (relPath backupRel : String) (restore : FileIdentity)
      (expectedCurrent : Option FileIdentity)
  | removeAdded (relPath : String) (expected : FileIdentity)
  deriving DecidableEq, Repr

inductive RecoveryDecision where
  | noJournal
  | keepOld
  | keepNew
  | rollBack (actions : List RollbackAction) (requireChildExit : Bool)
  | recoveryRequired (why : String)
  deriving DecidableEq, Repr

inductive StepDisk where
  | old
  | new
  | unknown
  deriving DecidableEq, Repr

section Observing

variable {m : Type → Type} [Monad m] (observe : String → m Observed)

def firstUnchangedMismatch : List UnchangedFile → m (Option String)
  | [] => pure none
  | file :: rest => do
    if identityMatches (← observe file.relPath) (some file.identity) then
      firstUnchangedMismatch rest
    else return some file.relPath

def classify (step : JournalStep) : m StepDisk := do
  let observed ← observe step.relPath
  return if identityMatches observed step.old then .old
    else if identityMatches observed step.new then .new
    else .unknown

def firstStepNotNew : List JournalStep → m (Option String)
  | [] => pure none
  | step :: rest => do
    if identityMatches (← observe step.relPath) step.new then firstStepNotNew rest
    else return some step.relPath

def firstStepNotOld : List JournalStep → m (Option String)
  | [] => pure none
  | step :: rest => do
    if (← classify observe step) = .old then firstStepNotOld rest
    else return some step.relPath

/-- What one step contributes to a rollback: nothing, an action, or the reason why nothing
may be touched.
-/
def stepAction (step : JournalStep) : m (Except String (Option RollbackAction)) := do
  let relPath := step.relPath
  match ← classify observe step with
  | .old => return .ok none
  | .unknown =>
    -- A stop inside a replacement leaves the path absent while the backup is intact.
    match step.old, step.backupRel with
    | some old, some backupRel =>
      if (← observe relPath) = .missing then
        if (← observe backupRel) = .file old then
          return .ok (some (.restoreFromBackup relPath backupRel old none))
        else return .error s!"{relPath} matches neither the old nor the new content"
      else return .error s!"{relPath} matches neither the old nor the new content"
    | _, _ => return .error s!"{relPath} matches neither the old nor the new content"
  | .new =>
    match step.old, step.backupRel with
    | some old, some backupRel =>
      if (← observe backupRel) = .file old then
        return .ok (some (.restoreFromBackup relPath backupRel old step.new))
      else return .error s!"backup of {relPath} is missing or damaged"
    | none, _ =>
      match step.new with
      | none => return .error "journal step changes nothing"
      | some added => return .ok (some (.removeAdded relPath added))
    | some _, none => return .error s!"{relPath} has no backup recorded"

/-- The actions of all steps in journal order, or the first reason against acting. -/
def rollbackActions : List JournalStep → m (Except String (List RollbackAction))
  | [] => pure (.ok [])
  | step :: rest => do
    match ← stepAction observe step with
    | .error why => return .error why
    | .ok action =>
      match ← rollbackActions rest with
      | .error why => return .error why
      | .ok actions => return .ok (action.toList ++ actions)

/-- Decides what to do after a restart. -/
def decideRecovery (journal : Option UpdateJournal) (installId : String) : m RecoveryDecision := do
  match journal with
  | none => return .noJournal
  | some journal =>
    if journal.installId ≠ installId then
      return .recoveryRequired "journal belongs to a different installation"
    else
      match journal.phase with
      | .recoveryRequired => return .recoveryRequired "an earlier recovery did not complete"
      | .committed =>
        match ← firstStepNotNew observe journal.steps with
        | some path =>
          return .recoveryRequired s!"committed update does not match the disk at {path}"
        | none =>
          match ← firstUnchangedMismatch observe journal.unchanged with
          | some path =>
            return .recoveryRequired
              s!"committed update does not match the disk at unchanged {path}"
          | none => return .keepNew
      | .rolledBack | .prepared | .exitAuthorized =>
        match ← firstStepNotOld observe journal.steps with
        | some path => return .recoveryRequired s!"{path} changed although no update was applied"
        | none =>
          match ← firstUnchangedMismatch observe journal.unchanged with
          | some path =>
            return .recoveryRequired s!"{path} changed although no update was applied"
          | none => return .keepOld
      | .applying | .awaitingHealth | .rollingBack =>
        match ← rollbackActions observe journal.steps with
        | .error why => return .recoveryRequired why
        | .ok [] =>
          match ← firstUnchangedMismatch observe journal.unchanged with
          | some path =>
            return .recoveryRequired
              s!"{path} changed during the update and is not the signed file"
          | none => return .keepOld
        | .ok actions => return .rollBack actions (journal.phase = .awaitingHealth)

end Observing

end Hane.Update
