import Hane.Foundations.PointChanges
import Hane.Foundations.SortedMaps
import Hane.Update.Inventory
import Mathlib.Data.List.Sort

/-! The plan of an update: which files are replaced, added and removed to get from one inventory to
another, and in which order.
-/

namespace Hane.Update

open Hane.Foundations

-- The plan

/-- Never removed by an update: Explorer may still have these loaded. -/
def isRetainedShellPath (path : String) : Bool :=
  "shell-integration/".toList.isPrefixOf path.toList || path == "hane_shell_extension.dll"

def backupPath (path : String) : String := backupPrefix ++ path

def InventoryFile.identity (file : InventoryFile) : FileIdentity := ⟨file.size, file.sha256⟩

def fileMap (signed : SignedInventory) : List (String × FileIdentity) :=
  SortedMaps.collect (signed.inventory.files.map fun file => (file.path, file.identity))

/-- The installed path of every collision key. -/
def keyMap (files : List (String × FileIdentity)) : List (String × String) :=
  SortedMaps.collect (files.map fun (path, _) => (collisionKey path, path))

def checkCase (oldKeys : List (String × String)) (file : String × FileIdentity)
    : Except UpdateError Unit :=
  let path := file.1
  match oldKeys.lookup (collisionKey path) with
  | none => .ok ()
  | some existing =>
    if existing ≠ path then
      .error ⟨.installModified, s!"{path} collides with installed {existing} by case"⟩
    else .ok ()

/-- The step of a file of the new inventory; an identical installed file has none. -/
def newStep (oldFiles : List (String × FileIdentity)) (file : String × FileIdentity)
    : Option PlanStep :=
  match oldFiles.lookup file.1 with
  | some oldId =>
    if oldId = file.2 then none
    else some ⟨file.1, some oldId, some file.2, some (backupPath file.1)⟩
  | none => some ⟨file.1, none, some file.2, none⟩

def removalStep (newFiles : List (String × FileIdentity)) (file : String × FileIdentity)
    : Option PlanStep :=
  if (newFiles.lookup file.1).isSome || isRetainedShellPath file.1 then none
  else some ⟨file.1, some file.2, none, some (backupPath file.1)⟩

/-- Managed inventory files are replaced as ordinary owned files. -/
def inventorySteps (old new : SignedInventory) : List PlanStep :=
  [(inventoryFileName, old.raw, new.raw),
    (inventorySignatureFileName, old.signature, new.signature)].map fun (path, oldId, newId) =>
      ⟨path, some oldId, some newId, some (backupPath path)⟩

/-- The order `(rel_path == "hane.exe", rel_path)`: the running executable is replaced last. -/
def StepFirst (first second : PlanStep) : Prop :=
  second.relPath = "hane.exe"
  ∨ (first.relPath ≠ "hane.exe" ∧ first.relPath ≤ second.relPath)

instance : DecidableRel StepFirst := fun first second =>
  inferInstanceAs (Decidable (second.relPath = "hane.exe"
    ∨ (first.relPath ≠ "hane.exe" ∧ first.relPath ≤ second.relPath)))

def planSteps (old new : SignedInventory) : List PlanStep :=
  ((fileMap new).filterMap (newStep (fileMap old))
    ++ (fileMap old).filterMap (removalStep (fileMap new))
    ++ inventorySteps old new).insertionSort StepFirst

def unchangedFiles (old : SignedInventory) (steps : List PlanStep) : List UnchangedFile :=
  ((fileMap old).filter fun (path, _) => !(steps.map PlanStep.relPath).contains path).map
    fun (path, identity) => ⟨path, identity⟩

section Verification

variable {Json : Type} (crates : Crates Json)

def ReleaseIdentity.fromCandidate (candidate : VerifiedCandidate) : ReleaseIdentity where
  target := candidate.target.triple
  version := crates.displayVersion candidate.version
  catalogSha256 := some candidate.catalogSha256
  inventorySha256 := candidate.entry.inventorySha256
  bundleId := candidate.entry.bundleId
  teamId := candidate.entry.teamId

def ReleaseIdentity.fromInventory (signed : SignedInventory) : ReleaseIdentity where
  target := signed.inventory.target
  version := signed.inventory.version
  catalogSha256 := none
  inventorySha256 := some signed.rawSha256
  bundleId := none
  teamId := none

def VerifiedCandidate.isApplicable (candidate : VerifiedCandidate) : Bool :=
  candidate.relation == .newer

/-- Builds the owned-file plan for a Windows update. -/
def ApplyPlan.forInventories (crates : ArchiveCrates Json) (installId transactionId : String)
    (old new : SignedInventory) (candidate : VerifiedCandidate)
    : Except UpdateError ApplyPlan := do
  if candidate.isApplicable = false then
    throw ⟨.notApplicable, "candidate is not a newer verified version"⟩
  if candidate.target ≠ .windowsX64 then
    throw ⟨.unsupportedInstall, "file-set plans exist only for the Windows layout"⟩
  new.checkCandidate crates candidate
  if old.inventory.target ≠ new.inventory.target then
    throw ⟨.identityMismatch, "installed and candidate targets differ"⟩
  let oldVersion ← parseStableVersion crates.toCrates old.inventory.version
  if relation oldVersion candidate.version ≠ .newer then
    throw ⟨.notApplicable, "installed inventory is not older than the candidate"⟩
  validateAll (checkCase (keyMap (fileMap old))) (fileMap new)
  let steps := planSteps old new
  return {
    installId := installId
    transactionId := transactionId
    source := .fromInventory old
    destination := .fromCandidate crates.toCrates candidate
    steps := steps
    unchanged := unchangedFiles old steps }

end Verification

-- What a plan is for

/-- The files of an install under their collision keys, with their names: a case-insensitive disk. -/
abbrev Installed : Type := String → Option (String × FileIdentity)

def holding (files : List (String × FileIdentity)) : Installed := fun key =>
  files.find? fun file => collisionKey file.1 == key

def releaseFiles (signed : SignedInventory) : List (String × FileIdentity) :=
  (signed.inventory.files.map fun file => (file.path, file.identity))
    ++ [(inventoryFileName, signed.raw), (inventorySignatureFileName, signed.signature)]

def retainedFiles (old new : SignedInventory) : List (String × FileIdentity) :=
  (old.inventory.files.filter fun file =>
    isRetainedShellPath file.path && !(new.inventory.files.map InventoryFile.path).contains file.path)
      |>.map fun file => (file.path, file.identity)

/-- What a step does to such a disk: it refuses unless the old file is there as planned. -/
def PlanStep.change (step : PlanStep) : Change String (String × FileIdentity) where
  place := collisionKey step.relPath
  old := step.old.map (step.relPath, ·)
  new := step.new.map (step.relPath, ·)

end Hane.Update
