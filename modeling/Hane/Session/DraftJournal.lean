import Hane.Document.Text
import Hane.Foundations.Occurrences
import Hane.Foundations.LittleEndian
import Hane.Foundations.TextBytes
import Hane.Session.Pins

/-! Recovery of unnamed notes: every note is kept in a file of the work folder until it has a name
of its own, together with the folder it will be created in.
-/

namespace Hane.Session

open Hane.Document Hane.Foundations

-- Names of drafts

structure DraftId where
  value : UInt64
  deriving DecidableEq

namespace DraftId

def stem (id : DraftId) : Text := hexText 16 id.value.toNat

/-- The text of a draft, as older versions kept it. -/
def fileName (id : DraftId) : Text := id.stem ++ ".md".toList

/-- Beside it, the folder that the note will be created in. -/
def targetFileName (id : DraftId) : Text := id.stem ++ ".target".toList

def entryFileName (id : DraftId) : Text := id.stem ++ ".draft".toList

def temporaryName (id : DraftId) : Text := id.entryFileName ++ ".tmp".toList

end DraftId

def DraftId.fromFileName (name : Text) : Option DraftId :=
  ((stripSuffix name ".draft".toList).or (stripSuffix name ".md".toList)).bind fun stem =>
    (hexNumber stem).map fun value => ⟨UInt64.ofNat value⟩

-- Entries

def entryMagic : List UInt8 := textBytes "hane-draft-v1\n".toList

def encodeEntry (target : List UInt8) (text : Text) : List UInt8 :=
  entryMagic ++ toLeBytes 8 target.length ++ target ++ textBytes text

def decodeEntry (bytes : List UInt8) : Option (List UInt8 × Text) :=
  if entryMagic.isPrefixOf bytes then
    let rest := bytes.drop entryMagic.length
    if rest.length < 8 then none
    else
      let length := fromLeBytes (rest.take 8)
      let rest := rest.drop 8
      if rest.length < length then none
      else (textFromUtf8 (rest.drop length)).map fun text => (rest.take length, text)
  else none

-- Targets

/-- Slashes separate the names of a path. -/
def unixPaths : PathRules UInt8 := unixRules.toPathRules

/-- A path by its components. -/
abbrev OsPath : Type := List (PathComponent UInt8)

def componentUnits : PathComponent UInt8 → List UInt8
  | .anchor path => path
  | .curDir => [0x2E]
  | .parentDir => [0x2E, 0x2E]
  | .normal name => name

def asOsStr (path : OsPath) : List UInt8 := [0x2F].intercalate (path.map componentUnits)

def isNormal : PathComponent UInt8 → Bool
  | .normal _ => true
  | _ => false

/-- The folder below the root, or nothing for a folder outside it. -/
def encodeTarget (root target : OsPath) : List UInt8 :=
  if root.isPrefixOf target then asOsStr (target.drop root.length) else []

/-- Anything that is not a plain relative path is the root. -/
def decodeTarget (root : OsPath) (encoded : List UInt8) : OsPath :=
  let relative := unixPaths.components encoded
  if relative.all isNormal then root ++ relative else root

-- Recovery

inductive ReadFault where
  | missing
  | failed
  deriving DecidableEq

/-- What a directory listing yields. A name that is not valid Unicode is not read. -/
inductive DirEntry where
  | failed
  | other
  | file (name : Option Text)

structure RecoveredDraft where
  id : DraftId
  text : Text
  targetDirectory : OsPath
  deriving DecidableEq

structure RecoveredDrafts where
  drafts : List RecoveredDraft
  failed : Nat

/-- How the files of the directory are read. -/
abbrev ReadFile : Type := Text → Except ReadFault (List UInt8)

/-- What the files of older versions hold of a draft. -/
def readLegacy (root : OsPath) (read : ReadFile) (id : DraftId) : Option RecoveredDraft :=
  match (read id.fileName).toOption.bind textFromUtf8 with
  | none => none
  | some text =>
    match read id.targetFileName with
    | .ok encoded => some ⟨id, text, decodeTarget root encoded⟩
    | .error .missing => some ⟨id, text, root⟩
    | .error .failed => none

def readDraft (root : OsPath) (read : ReadFile) (id : DraftId) : Option RecoveredDraft :=
  match read id.entryFileName with
  | .ok bytes =>
    (decodeEntry bytes).map fun (encoded, text) => ⟨id, text, decodeTarget root encoded⟩
  | .error .missing => readLegacy root read id
  | .error .failed => none

/-- The drafts of a listing, each of them once. -/
def recoverFrom (root : OsPath) (read : ReadFile) : List DraftId → List DirEntry → RecoveredDrafts
  | _, [] => ⟨[], 0⟩
  | seen, .failed :: rest =>
    let later := recoverFrom root read seen rest
    { later with failed := later.failed + 1 }
  | seen, .other :: rest => recoverFrom root read seen rest
  | seen, .file name :: rest =>
    match name.bind DraftId.fromFileName with
    | none => recoverFrom root read seen rest
    | some id =>
      if id ∈ seen then recoverFrom root read seen rest
      else
        let later := recoverFrom root read (id :: seen) rest
        match readDraft root read id with
        | some draft => { later with drafts := draft :: later.drafts }
        | none => { later with failed := later.failed + 1 }

def recover (root : OsPath) (listing : Except ReadFault (List DirEntry)) (read : ReadFile)
    : Except ReadFault RecoveredDrafts :=
  match listing with
  | .ok entries => .ok (recoverFrom root read [] entries)
  | .error .missing => .ok ⟨[], 0⟩
  | .error .failed => .error .failed

-- Calls

/-- One snapshot to be written. -/
structure Snapshot where
  target : OsPath
  text : Text
  sequence : Nat
  deriving DecidableEq

def Snapshot.entry (root : OsPath) (snapshot : Snapshot) : List UInt8 :=
  encodeEntry (encodeTarget root snapshot.target) snapshot.text

/-- How far the call has come that holds the lock of a draft. -/
inductive DraftStage where
  | idle
  | making (snapshot : Snapshot)
  | filling (snapshot : Snapshot)
  | filled (snapshot : Snapshot)
  | droppingText
  | droppingTarget
  | removingText
  | removingTarget
  | removingEntry
  deriving DecidableEq

/-- The files of the journal of one work folder, with what the process holds: of each draft the
newest number it has accepted and the call under way, and the next number of a snapshot.
-/
structure DraftStore where
  root : OsPath
  files : Text → Option (List UInt8)
  newest : DraftId → Nat
  stage : DraftId → DraftStage
  nextSequence : Nat

/-- One step of one call, or the end of the process. `ok` is whether a file operation succeeds,
where removing a file that is not there does.
-/
inductive DraftAction where
  | takeSequence
  | writeSnapshot (id : DraftId) (snapshot : Snapshot)
  | createDir (id : DraftId) (ok : Bool)
  | fillPart (id : DraftId) (count : Nat)
  | fill (id : DraftId) (ok : Bool)
  | rename (id : DraftId) (ok : Bool)
  | remove (id : DraftId)
  | removeFile (id : DraftId) (ok : Bool)
  | crash

namespace DraftStore

def withFile (store : DraftStore) (name : Text) (contents : Option (List UInt8)) : DraftStore :=
  { store with files := Function.update store.files name contents }

def withStage (store : DraftStore) (id : DraftId) (stage : DraftStage) : DraftStore :=
  { store with stage := Function.update store.stage id stage }

def withNewest (store : DraftStore) (id : DraftId) (sequence : Nat) : DraftStore :=
  { store with newest := Function.update store.newest id sequence }

/-- A call that takes the lock of a draft. A snapshot older than what was accepted is dropped. -/
def writeSnapshot (store : DraftStore) (id : DraftId) (snapshot : Snapshot) : DraftStore :=
  if snapshot.sequence < store.newest id then store else store.withStage id (.making snapshot)

/-- Snapshots read before a removal must not bring the draft back. -/
def remove (store : DraftStore) (id : DraftId) : DraftStore :=
  ({ store with nextSequence := store.nextSequence + 1 }.withNewest id
    (max (store.newest id) store.nextSequence)).withStage id .removingText

/-- The next file of a draft is removed. Only a superseded file may stay. -/
def removeFile (store : DraftStore) (id : DraftId) (ok : Bool) : Option DraftStore :=
  let removed := fun name => if ok then store.withFile name none else store
  match store.stage id with
  | .droppingText => some ((removed id.fileName).withStage id .droppingTarget)
  | .droppingTarget => some ((removed id.targetFileName).withStage id .idle)
  | .removingText =>
    some ((removed id.fileName).withStage id (if ok then .removingTarget else .idle))
  | .removingTarget =>
    some ((removed id.targetFileName).withStage id (if ok then .removingEntry else .idle))
  | .removingEntry => some ((removed id.entryFileName).withStage id .idle)
  | _ => none

/-- A process starts with what is on the disk. -/
def start (root : OsPath) (files : Text → Option (List UInt8)) : DraftStore where
  root
  files
  newest _ := 0
  stage _ := .idle
  nextSequence := 1

def step (store : DraftStore) : DraftAction → Option DraftStore
  | .takeSequence => some { store with nextSequence := store.nextSequence + 1 }
  | .writeSnapshot id snapshot =>
    if store.stage id = .idle then some (store.writeSnapshot id snapshot) else none
  | .createDir id ok =>
    match store.stage id with
    | .making snapshot => some (store.withStage id (if ok then .filling snapshot else .idle))
    | _ => none
  | .fillPart id count =>
    match store.stage id with
    | .filling snapshot =>
      some (store.withFile id.temporaryName (some ((snapshot.entry store.root).take count)))
    | _ => none
  | .fill id ok =>
    match store.stage id with
    | .filling snapshot =>
      some <|
        if ok then
          (store.withFile id.temporaryName (some (snapshot.entry store.root))).withStage id
            (.filled snapshot)
        else store.withStage id .idle
    | _ => none
  | .rename id ok =>
    match store.stage id with
    | .filled snapshot =>
      some <|
        if ok then
          ((((store.withFile id.entryFileName (store.files id.temporaryName)).withFile
            id.temporaryName none).withNewest id snapshot.sequence)).withStage id .droppingText
        else store.withStage id .idle
    | _ => none
  | .remove id => if store.stage id = .idle then some (store.remove id) else none
  | .removeFile id ok => store.removeFile id ok
  | .crash => some (start store.root store.files)

def read (store : DraftStore) : ReadFile := fun name =>
  match store.files name with
  | some bytes => .ok bytes
  | none => .error .missing

end DraftStore

end Hane.Session
