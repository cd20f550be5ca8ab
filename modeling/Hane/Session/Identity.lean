import Mathlib.Tactic.Common

/-! What a session knows about its file: the path, what the disk looked like, and whether the
file is still there.
-/

namespace Hane.Session

-- Paths

/-- One component of a path, as `Path::components` yields them. -/
inductive Component where
  | drive (name : String)
  | rootDir
  | curDir
  | parentDir
  | normal (name : String)
  deriving DecidableEq, Repr

/-- Paths are compared by their components. -/
abbrev Path : Type := List Component

namespace Path

/-- `PathBuf::pop`: nothing is left to take from an empty path or a root. -/
def pop (path : Path) : Option Path :=
  match path.getLast? with
  | some .curDir | some .parentDir | some (.normal _) => some path.dropLast
  | _ => none

/-- Normalizes `.` and `..` without asking the filesystem. -/
def lexicalComponents (normalized : Path) : List Component → Path
  | [] => normalized
  | .curDir :: rest => lexicalComponents normalized rest
  | .parentDir :: rest =>
    lexicalComponents (normalized.pop.getD (normalized ++ [.parentDir])) rest
  | other :: rest => lexicalComponents (normalized ++ [other]) rest

def lexicalCanonical (path : Path) : Path :=
  match lexicalComponents [] path with
  | [] => [.curDir]
  | normalized => normalized

def isAbsolute (path : Path) : Bool :=
  match path.head? with
  | some (.drive _) | some .rootDir => true
  | _ => false

/-- `Path::join`: an absolute path replaces the base. -/
def join (base relative : Path) : Path :=
  if relative.isAbsolute || base.isEmpty then relative
  else base ++ relative.filter (· ≠ .curDir)

def stripPrefix (base path : Path) : Option Path :=
  if base.isPrefixOf path then some (path.drop base.length) else none

end Path

-- Identity, stamp and fingerprint

structure FileIdentity where
  path : Path
  canonical : Path
  deriving DecidableEq, Repr

namespace FileIdentity

def lexical (path : Path) : FileIdentity := ⟨path, path.lexicalCanonical⟩

def matchesPath (identity : FileIdentity) (path : Path) : Bool :=
  identity.path == path || identity.canonical == path.lexicalCanonical

/-- The same-file test for a Save As target; `inspected` is what the filesystem says. -/
def isSameFileOnDisk (identity : FileIdentity) (inspected : Path → Path → Bool) (path : Path)
    : Bool :=
  identity.matchesPath path || inspected identity.path path

def movedTo (_identity : FileIdentity) (path : Path) : FileIdentity := lexical path

end FileIdentity

/-- `modified` counts from the epoch, where the platform reports it. -/
structure FileStamp where
  len : UInt64
  modified : Option Int
  deriving DecidableEq, Repr

structure ContentFingerprint where
  len : UInt64
  laneA : UInt64
  laneB : UInt64
  deriving DecidableEq, Repr

inductive ExternalChange where
  | unchanged
  | modified
  | deleted
  | unknown
  deriving DecidableEq, Repr

inductive FilePresence where
  | present
  | missing
  deriving DecidableEq, Repr

-- The file side of a session

/-- An untitled session has no identity but is still a valid file state. -/
structure FileState where
  identity : Option FileIdentity
  stamp : Option FileStamp
  baseline : Option ContentFingerprint
  presence : FilePresence
  deriving DecidableEq, Repr

namespace FileState

def untitled : FileState := ⟨none, none, none, .present⟩

def tracked (identity : FileIdentity) (stamp : Option FileStamp) : FileState :=
  ⟨some identity, stamp, none, .present⟩

def path (file : FileState) : Option Path := file.identity.map FileIdentity.path

def setBaseline (file : FileState) (baseline : Option ContentFingerprint) : FileState :=
  { file with baseline }

def setIdentity (file : FileState) (identity : FileIdentity) (stamp : Option FileStamp)
    : FileState :=
  { file with identity := some identity, stamp, presence := .present }

/-- Follows a link that resolves elsewhere now; the path as opened is kept. -/
def refreshCanonical (file : FileState) (canonical : Path) : FileState :=
  { file with identity := file.identity.map fun identity => { identity with canonical } }

def setStamp (file : FileState) (stamp : Option FileStamp) : FileState :=
  { file with stamp, presence := .present }

def markPresent (file : FileState) : FileState := { file with presence := .present }

def markMissing (file : FileState) : FileState := { file with presence := .missing }

/-- Compares the recorded stamp with what the disk reports now, where `none` means gone. -/
def compare (file : FileState) (current : Option FileStamp) : ExternalChange :=
  match file.identity, file.stamp, current with
  | none, _, _ => .unknown
  | some _, _, none => .deleted
  | some _, none, some _ => .unknown
  | some _, some recorded, some current => if recorded = current then .unchanged else .modified

end FileState

end Hane.Session
