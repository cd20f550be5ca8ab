import Hane.Foundations.Programs
import Hane.Session.DocumentSession
import Mathlib.Logic.Function.Basic

/-! How a save puts its new version in place of the checked one, call by call, and how a version
left aside by a dead process comes back.
-/

namespace Hane.Session

open Hane.Foundations

-- Calls

/-- The kinds of I/O errors a save tells apart. -/
inductive IoKind where
  | notFound
  | alreadyExists
  | other
  deriving DecidableEq

structure IoError where
  kind : IoKind
  text : String
  deriving DecidableEq

/-- The name of a version set aside: the process that did it and a number of its own. -/
structure DisplacedName where
  pid : Nat
  sequence : Nat
  deriving DecidableEq

/-- Where a version is checked. -/
inductive Place where
  | target
  | displaced (name : DisplacedName)
  deriving DecidableEq

/-- One step on the disk. The new version is the temporary file of the save. -/
inductive DiskCall where
  | createParent
  | targetExists
  | targetIsDirectory
  | displacedFiles
  | writeTemporary
  | removeTemporary
  | nextSequence
  | hardLink (aside : DisplacedName)
  | check (place : Place)
  | sameFile (aside : DisplacedName)
  | replace
  | install
  | moveAside (aside : DisplacedName)
  | restore (aside : DisplacedName)
  | removeDisplaced (aside : DisplacedName)

/-- The displaced files are listed with whether each is a plain file. -/
@[reducible] def DiskCall.Answer : DiskCall → Type
  | targetExists | targetIsDirectory | sameFile _ => Bool
  | displacedFiles => Option (List (DisplacedName × Bool))
  | nextSequence => Nat
  | check _ => Except SaveFailure Unit
  | removeTemporary | removeDisplaced _ => Unit
  | createParent | writeTemporary | hardLink _ | replace | install | moveAside _ | restore _ =>
    Except IoError Unit

abbrev DiskProgram (α : Type) : Type := Program DiskCall.Answer α

def ask (call : DiskCall) : DiskProgram call.Answer := Program.request call

-- The save

def maxInstallAttempts : Nat := 3

namespace SaveFailure

def toString : SaveFailure → String
  | externalChange => "file changed on disk"
  | io error => error

/-- The report of a version that could not be put back. -/
def keptAside (failure : SaveFailure) (restoreError : IoError) (aside : String) : SaveFailure :=
  .io (failure.toString ++ "; restoring the original file failed (" ++ restoreError.text
    ++ "); the previous version remains at " ++ aside)

end SaveFailure

/-- How a process shows the name of a displaced file. -/
abbrev ShowsName : Type := DisplacedName → String

/-- Puts a displaced version back and returns `failure`. -/
def restoreDisplaced (shows : ShowsName) (aside : DisplacedName) (failure : SaveFailure)
    : DiskProgram (Except SaveFailure Unit) := do
  match ← ask (.restore aside) with
  | .ok () => return .error failure
  | .error restoreError => return .error (failure.keptAside restoreError (shows aside))

/-- A round that found nothing at the target. -/
def installMissing (retry : DiskProgram (Except SaveFailure Unit))
    : DiskProgram (Except SaveFailure Unit) := do
  match ← ask (.check .target) with
  | .error failure => return .error failure
  | .ok () =>
    match ← ask .install with
    | .ok () => return .ok ()
    | .error error =>
      if error.kind = .alreadyExists then retry
      else return .error (.io error.text)

/-- A round that pinned the target under a second name. -/
def installPinned (aside : DisplacedName) (retry : DiskProgram (Except SaveFailure Unit))
    : DiskProgram (Except SaveFailure Unit) := do
  match ← ask (.check (.displaced aside)) with
  | .error failure =>
    let () ← ask (.removeDisplaced aside)
    return .error failure
  | .ok () =>
    if ← ask (.sameFile aside) then
      let installed ← ask .replace
      let () ← ask (.removeDisplaced aside)
      return installed.mapError fun error => .io error.text
    else
      let () ← ask (.removeDisplaced aside)
      retry

/-- A round that moves the target aside, and installs where nothing is left. -/
def installMoved (shows : ShowsName) (aside : DisplacedName)
    (retry : DiskProgram (Except SaveFailure Unit))
    : DiskProgram (Except SaveFailure Unit) := do
  match ← ask (.moveAside aside) with
  | .ok () =>
    match ← ask (.check (.displaced aside)) with
    | .error failure => restoreDisplaced shows aside failure
    | .ok () =>
      match ← ask .install with
      | .ok () =>
        let () ← ask (.removeDisplaced aside)
        return .ok ()
      | .error error =>
        if error.kind = .alreadyExists then
          let () ← ask (.removeDisplaced aside)
          retry
        else restoreDisplaced shows aside (.io error.text)
  | .error error =>
    if error.kind = .notFound then installMissing retry
    else return .error (.io error.text)

/-- Installs the temporary file; `pins` where the platform can tell that two names are one file.
-/
def installCheckedWith (shows : ShowsName) (pid : Nat) (pins : Bool)
    : Nat → DiskProgram (Except SaveFailure Unit)
  | 0 => return .error .externalChange
  | attempts + 1 => do
    let retry := installCheckedWith shows pid pins attempts
    let sequence ← ask .nextSequence
    let aside : DisplacedName := ⟨pid, sequence⟩
    if pins then
      match ← ask (.hardLink aside) with
      | .ok () => installPinned aside retry
      | .error error =>
        if error.kind = .notFound then installMissing retry
        else installMoved shows aside retry
    else installMoved shows aside retry

/-- Restores the version a dead process left aside, if nothing is at the target and there is
exactly one.
-/
def recoverDisplacedFile (pid : Nat) : DiskProgram Bool := do
  if ← ask .targetExists then return false
  else
    match ← ask .displacedFiles with
    | none => return false
    | some found =>
      if found.any fun entry => entry.1.pid = pid then return false
      else
        match found.filter Prod.snd with
        | [only] =>
          match ← ask (.restore only.1) with
          | .ok () => return true
          | .error _ => return false
        | _ => return false

/-- Writes the temporary file and installs it. -/
def writeAndInstall (shows : ShowsName) (pid : Nat) (pins : Bool)
    : DiskProgram (Except SaveFailure Unit) := do
  match ← ask .writeTemporary with
  | .error error =>
    let () ← ask .removeTemporary
    return .error (.io error.text)
  | .ok () =>
    match ← installCheckedWith shows pid pins maxInstallAttempts with
    | .ok () => return .ok ()
    | .error failure =>
      let () ← ask .removeTemporary
      return .error failure

/-- The save of one new version, once the parent folder is there. -/
def recoverAndWrite (shows : ShowsName) (path : String) (pid : Nat) (pins : Bool)
    : DiskProgram (Except SaveFailure Unit) := do
  let _ ← recoverDisplacedFile pid
  if ← ask .targetIsDirectory then return .error (.io (path ++ " is a directory"))
  else writeAndInstall shows pid pins

def atomicWriteChecked (shows : ShowsName) (path : String) (pid : Nat) (pins createParent : Bool)
    : DiskProgram (Except SaveFailure Unit) := do
  if createParent then
    match ← ask .createParent with
    | .error error => return .error (.io error.text)
    | .ok () => recoverAndWrite shows path pid pins
  else recoverAndWrite shows path pid pins

-- The disk

/-- What is at the target, in the temporary file and under each displaced name. -/
structure Disk (Version : Type) where
  target : Option Version
  temporary : Option Version
  displaced : DisplacedName → Option Version

namespace Disk

variable {Version : Type}

def at? (disk : Disk Version) : Place → Option Version
  | .target => disk.target
  | .displaced name => disk.displaced name

def setDisplaced (disk : Disk Version) (name : DisplacedName) (version : Option Version)
    : Disk Version :=
  { disk with displaced := Function.update disk.displaced name version }

/-- The listing has every displaced file once. -/
def Lists (disk : Disk Version) (found : List (DisplacedName × Bool)) : Prop :=
  (found.map Prod.fst).Nodup
    ∧ ∀ name, name ∈ found.map Prod.fst ↔ (disk.displaced name).isSome

end Disk

/-- What the disk answers. Each call is atomic; every call that reports an error may fail, and a
failed call leaves the disk as it is.
-/
inductive DiskAnswers {Version : Type}
    : Disk Version → (call : DiskCall) → call.Answer → Disk Version → Prop where
  | createParent (disk : Disk Version) (outcome : Except IoError Unit)
      : DiskAnswers disk .createParent outcome disk
  | targetExists (disk : Disk Version) : DiskAnswers disk .targetExists disk.target.isSome disk
  | targetIsDirectory (disk : Disk Version) (directory : Bool)
      : DiskAnswers disk .targetIsDirectory directory disk
  | displacedFiles {disk : Disk Version} {found : List (DisplacedName × Bool)}
      (lists : disk.Lists found)
      : DiskAnswers disk .displacedFiles (some found) disk
  | notListed (disk : Disk Version) : DiskAnswers disk .displacedFiles none disk
  | written (disk : Disk Version) (version : Version)
      : DiskAnswers disk .writeTemporary (.ok ()) { disk with temporary := some version }
  | notWritten (disk : Disk Version) (error : IoError)
      : DiskAnswers disk .writeTemporary (.error error) disk
  | removedTemporary (disk : Disk Version)
      : DiskAnswers disk .removeTemporary () { disk with temporary := none }
  | keptTemporary (disk : Disk Version) : DiskAnswers disk .removeTemporary () disk
  | nextSequence (disk : Disk Version) (sequence : Nat)
      : DiskAnswers disk .nextSequence sequence disk
  | linked {disk : Disk Version} {aside : DisplacedName} {version : Version}
      (found : disk.target = some version) (free : disk.displaced aside = none)
      : DiskAnswers disk (.hardLink aside) (.ok ()) (disk.setDisplaced aside (some version))
  | notLinked {disk : Disk Version} (aside : DisplacedName) {error : IoError}
      (missing : error.kind = .notFound → disk.target = none)
      : DiskAnswers disk (.hardLink aside) (.error error) disk
  | checked (disk : Disk Version) (place : Place) (outcome : Except SaveFailure Unit)
      : DiskAnswers disk (.check place) outcome disk
  | same {disk : Disk Version} {aside : DisplacedName} {version : Version}
      (found : disk.target = some version) (pinned : disk.displaced aside = some version)
      : DiskAnswers disk (.sameFile aside) true disk
  | notSame (disk : Disk Version) (aside : DisplacedName)
      : DiskAnswers disk (.sameFile aside) false disk
  | replaced {disk : Disk Version} {version : Version}
      (written : disk.temporary = some version)
      : DiskAnswers disk .replace (.ok ())
          { disk with target := some version, temporary := none }
  | notReplaced (disk : Disk Version) (error : IoError)
      : DiskAnswers disk .replace (.error error) disk
  | installed {disk : Disk Version} {version : Version}
      (written : disk.temporary = some version) (free : disk.target = none)
      : DiskAnswers disk .install (.ok ())
          { disk with target := some version, temporary := none }
  | notInstalled {disk : Disk Version} {error : IoError}
      (exists' : error.kind = .alreadyExists → disk.target.isSome)
      : DiskAnswers disk .install (.error error) disk
  | moved {disk : Disk Version} {aside : DisplacedName} {version : Version}
      (found : disk.target = some version) (free : disk.displaced aside = none)
      : DiskAnswers disk (.moveAside aside) (.ok ())
          { disk.setDisplaced aside (some version) with target := none }
  | notMoved {disk : Disk Version} (aside : DisplacedName) {error : IoError}
      (missing : error.kind = .notFound → disk.target = none)
      : DiskAnswers disk (.moveAside aside) (.error error) disk
  | restored {disk : Disk Version} {aside : DisplacedName} {version : Version}
      (found : disk.displaced aside = some version) (free : disk.target = none)
      : DiskAnswers disk (.restore aside) (.ok ())
          { disk.setDisplaced aside none with target := some version }
  | notRestored (disk : Disk Version) (aside : DisplacedName) (error : IoError)
      : DiskAnswers disk (.restore aside) (.error error) disk
  | removed (disk : Disk Version) (aside : DisplacedName)
      : DiskAnswers disk (.removeDisplaced aside) () (disk.setDisplaced aside none)
  | notRemoved (disk : Disk Version) (aside : DisplacedName)
      : DiskAnswers disk (.removeDisplaced aside) () disk

end Hane.Session
