import Hane.Editing.Dispatch
import Hane.Session.Identity

/-! One open document: its editor, the file it came from, and everything about persistence that
is not I/O.
-/

namespace Hane.Session

open Hane.Document Hane.Editing Hane.Foundations

-- Saving

/-- Which destructive resolution the user confirmed. -/
inductive ResolutionKind where
  | overwrite
  | discardAndReload
  deriving DecidableEq

/-- A one-time confirmation bound to the document revision and the external version shown;
nothing shown stands for a file that is gone.
-/
structure ResolutionApproval where
  kind : ResolutionKind
  generation : UInt64
  revision : Nat
  shown : Option ContentFingerprint
  serial : UInt64
  deriving DecidableEq

inductive SaveIntent where
  | current
  | to (path : Path)
  | overwrite
  | createNew (path : Path)
  | confirmed (approval : ResolutionApproval)
  deriving DecidableEq

/-- What a write must first prove about the file. -/
inductive OverwriteGuard where
  | force
  | expectStamp (stamp : Option FileStamp)
  | expectContent (stamp : Option FileStamp) (baseline : Option ContentFingerprint)
  deriving DecidableEq

/-- Identifies the write a result belongs to. -/
structure SaveTicket where
  generation : UInt64
  sequence : UInt64
  revision : Nat
  deriving DecidableEq

/-- One accepted write, with the snapshot of the document it is for. -/
structure SaveJob where
  path : Path
  document : RopeBuffer
  guard : OverwriteGuard
  ticket : SaveTicket
  deriving DecidableEq

inductive SaveDecision where
  | write (job : SaveJob)
  | queued
  | needsPath
  | approvalExpired
  deriving DecidableEq

/-- The result of one successful write. -/
structure SavedFile where
  identity : FileIdentity
  stamp : Option FileStamp
  fingerprint : Option ContentFingerprint
  deriving DecidableEq

inductive SaveFailure where
  | externalChange
  | io (error : String)
  deriving DecidableEq

inductive SaveOutcome where
  | saved
  | savedStale
  | conflict
  | failed (error : String)
  | superseded
  deriving DecidableEq

-- Events and checks

inductive FileEvent where
  | renamed (source target : Path)
  | deleted (path : Path)
  | changedOnDisk (path : Path) (stamp : Option FileStamp)
  deriving DecidableEq

def FileEvent.subject : FileEvent → Path
  | .renamed source _ => source
  | .deleted path | .changedOnDisk path _ => path

inductive FileEventOutcome where
  | ignored
  | renamed
  | missing (dirty : Bool)
  | externalEdit
  | conflict
  deriving DecidableEq

/-- A document read from the disk, with what is needed to track the file. -/
structure LoadedFile where
  document : RopeBuffer
  identity : FileIdentity
  stamp : Option FileStamp
  fingerprint : Option ContentFingerprint
  deriving DecidableEq

/-- One consistent read of a file. -/
structure ObservedFile where
  document : RopeBuffer
  fingerprint : ContentFingerprint
  stamp : Option FileStamp
  canonical : Option Path
  deriving DecidableEq

inductive DiskVersion where
  | present (observed : ObservedFile)
  | missing
  | unreadable (reason : String)
  deriving DecidableEq

structure ExternalCheckTicket where
  generation : UInt64
  sequence : UInt64
  revision : Nat
  saves : UInt64
  path : Path
  deriving DecidableEq

structure ExternalCheckRequest where
  ticket : ExternalCheckTicket
  localDocument : Option RopeBuffer
  deriving DecidableEq

structure ExternalCheckResult where
  disk : DiskVersion
  localFingerprint : Option ContentFingerprint
  deriving DecidableEq

inductive ExternalCheckStart where
  | run (request : ExternalCheckRequest)
  | coalesced
  | notTracked
  deriving DecidableEq

inductive ExternalCheckOutcome where
  | stale
  | unchanged
  | reloaded
  | changed (dirty : Bool)
  | missing (dirty : Bool)
  | unverifiable (reason : String)
  deriving DecidableEq

inductive ExternalStatus where
  | inSync
  | changed
  | missing
  | unverifiable
  deriving DecidableEq

/-- The external version a session has seen but not accepted. -/
structure ObservedExternal where
  fingerprint : ContentFingerprint
  stamp : Option FileStamp
  document : RopeBuffer
  deriving DecidableEq

inductive ExternalState where
  | inSync
  | changed (observed : ObservedExternal)
  | missing
  | unverifiable (reason : String)
  deriving DecidableEq

/-- Whether two external states are one version, so that an approval given for the first is
still about the second.
-/
def ExternalState.sameVersion : ExternalState → ExternalState → Bool
  | .changed old, .changed new => old.fingerprint = new.fingerprint
  | .missing, .missing | .inSync, .inSync => true
  | _, _ => false

inductive ReloadOutcome where
  | reloaded
  | staleApproval
  | busy
  deriving DecidableEq

/-- A confirmed reload waiting for the disk to be read again. -/
structure ReloadVerifyRequest where
  approval : ResolutionApproval
  generation : UInt64
  revision : Nat
  sequence : UInt64
  path : Path
  deriving DecidableEq

inductive ReloadVerifyOutcome where
  | reloaded
  | stale
  | busy
  | diskChanged
  | missing
  | unverifiable (reason : String)
  deriving DecidableEq

-- The session

structure DocumentSession where
  generation : UInt64
  editor : Editor
  file : FileState
  savedRevision : Nat
  autosaveGeneration : UInt64
  inFlight : Option SaveTicket
  inFlightTarget : Option Path
  saveSequence : UInt64
  pendingSave : Option SaveIntent
  external : ExternalState
  checkSequence : UInt64
  savesCompleted : UInt64
  checkInFlight : Option UInt64
  recheckPending : Bool
  approvalSerial : UInt64
  liveApproval : Option UInt64
  verifySequence : UInt64
  verifyInFlight : Option UInt64
  deriving DecidableEq

namespace DocumentSession

def fromParts (editor : Editor) (file : FileState) : DocumentSession where
  generation := 0
  editor
  file
  savedRevision := editor.document.revision
  autosaveGeneration := 0
  inFlight := none
  inFlightTarget := none
  saveSequence := 0
  pendingSave := none
  external := .inSync
  checkSequence := 0
  savesCompleted := 0
  checkInFlight := none
  recheckPending := false
  approvalSerial := 0
  liveApproval := none
  verifySequence := 0
  verifyInFlight := none

def untitled (text : Text) : DocumentSession := fromParts (Editor.new text) .untitled

def fromLoaded (loaded : LoadedFile) : DocumentSession :=
  fromParts (Editor.fromDocument loaded.document)
    ((FileState.tracked loaded.identity loaded.stamp).setBaseline loaded.fingerprint)

def revision (session : DocumentSession) : Nat := session.editor.document.revision

def isDirty (session : DocumentSession) : Bool := session.revision ≠ session.savedRevision

/-- Forgets everything learned about the previous document's disk file. -/
def resetExternalTracking (session : DocumentSession) : DocumentSession :=
  { session with
    external := .inSync
    checkInFlight := none
    recheckPending := false
    liveApproval := none }

/-- Replaces the document in place, as when opening a file into this session. -/
def adopt (session : DocumentSession) (loaded : LoadedFile) : DocumentSession :=
  { session with
    editor := Editor.fromDocument loaded.document
    file := (FileState.tracked loaded.identity loaded.stamp).setBaseline loaded.fingerprint
    savedRevision := loaded.document.revision
    generation := session.generation + 1
    autosaveGeneration := 0
    inFlight := none
    inFlightTarget := none
    pendingSave := none }.resetExternalTracking

def noteEdit (session : DocumentSession) : DocumentSession :=
  { session with autosaveGeneration := session.autosaveGeneration + 1 }

-- Approvals

/-- The external version there is to resolve, if there is one; nothing inside stands for a
missing file.
-/
def currentExternalFingerprint (session : DocumentSession) : Option (Option ContentFingerprint) :=
  match session.external with
  | .changed observed => some (some observed.fingerprint)
  | .missing => some none
  | .inSync => if session.file.presence = .missing then some none else none
  | .unverifiable _ => none

/-- Records that the user confirmed `kind` while looking at `shown`. -/
def approveResolution (session : DocumentSession) (kind : ResolutionKind)
    (shown : Option ContentFingerprint) : Option ResolutionApproval × DocumentSession :=
  if session.currentExternalFingerprint = some shown then
    let serial := session.approvalSerial + 1
    (some ⟨kind, session.generation, session.revision, shown, serial⟩,
      { session with approvalSerial := serial, liveApproval := some serial })
  else (none, session)

def approvalIsCurrent (session : DocumentSession) (approval : ResolutionApproval)
    (kind : ResolutionKind) : Bool :=
  approval.kind = kind
    ∧ session.liveApproval = some approval.serial
    ∧ approval.generation = session.generation
    ∧ approval.revision = session.revision
    ∧ session.currentExternalFingerprint = some approval.shown

-- Saving

/-- The guard of every ordinary write to this session's own file. -/
def contentGuard (session : DocumentSession) : OverwriteGuard :=
  .expectContent session.file.stamp session.file.baseline

def nextTicket (session : DocumentSession) : SaveTicket :=
  ⟨session.generation, session.saveSequence + 1, session.revision⟩

/-- Takes the save slot and snapshots the document for one write. -/
def startWrite (session : DocumentSession) (path : Path) (guard : OverwriteGuard)
    : SaveJob × DocumentSession :=
  let ticket := session.nextTicket
  (⟨path, session.editor.document, guard, ticket⟩,
    { session with
      saveSequence := session.saveSequence + 1
      inFlight := some ticket
      inFlightTarget := some path })

/-- The guard of a confirmed overwrite: exactly the version the user saw. -/
def confirmedGuard (session : DocumentSession) : OverwriteGuard :=
  match session.external with
  | .changed observed => .expectContent observed.stamp (some observed.fingerprint)
  | _ => .expectContent none none

/-- Starts the confirmed overwrite of the external version the user saw. -/
def requestConfirmedOverwrite (session : DocumentSession) (approval : ResolutionApproval)
    : Option SaveJob × DocumentSession :=
  if session.inFlight.isSome then (none, session)
  else if session.approvalIsCurrent approval .overwrite = false then (none, session)
  else
    match session.file.path with
    | none => (none, session)
    | some path =>
      let guard := session.confirmedGuard
      let (job, started) := { session with liveApproval := none }.startWrite path guard
      (some job, started)

/-- The path and the guard of an ordinary save request; no result means that a path is missing. -/
def saveTarget (session : DocumentSession) (inspected : Path → Path → Bool)
    : SaveIntent → Option (Path × OverwriteGuard)
  | .current => session.file.path.map fun path => (path, session.contentGuard)
  | .overwrite => session.file.path.map fun path => (path, .force)
  | .to path =>
    let sameFile := session.file.identity.any fun identity =>
      identity.isSameFileOnDisk inspected path
    some (path, if sameFile then session.contentGuard else .force)
  | .createNew path => some (path, .expectStamp none)
  | .confirmed _ => none

/-- Decides what a save request means right now. -/
def requestSave (session : DocumentSession) (inspected : Path → Path → Bool)
    (intent : SaveIntent) : SaveDecision × DocumentSession :=
  match intent with
  | .confirmed approval =>
    if session.inFlight.isSome then
      (.queued, { session with pendingSave := some (.confirmed approval) })
    else
      match session.requestConfirmedOverwrite approval with
      | (some job, started) => (.write job, started)
      | (none, refused) => (.approvalExpired, refused)
  | intent =>
    match session.saveTarget inspected intent with
    | none => (.needsPath, session)
    | some (path, guard) =>
      if session.inFlight.isSome then (.queued, { session with pendingSave := some intent })
      else
        let (job, started) := session.startWrite path guard
        (.write job, started)

/-- What the last accepted check or deletion event says about the disk. -/
def externalStatus (session : DocumentSession) : ExternalStatus :=
  match session.external with
  | .changed _ => .changed
  | .missing => .missing
  | .unverifiable _ => .unverifiable
  | .inSync => if session.file.presence = .missing then .missing else .inSync

/-- Follows a write that reached the disk. -/
def landed (session : DocumentSession) (saved : SavedFile) : DocumentSession :=
  let written : DocumentSession :=
    { session with
      file := (session.file.setIdentity saved.identity saved.stamp).setBaseline saved.fingerprint
      savesCompleted := session.savesCompleted + 1 }
  if written.externalStatus ≠ .inSync then
    { written with external := .inSync, liveApproval := none }
  else written

/-- Applies the outcome of a write; a result nobody waits for changes nothing. -/
def finishSave (session : DocumentSession) (ticket : SaveTicket)
    (result : Except SaveFailure SavedFile) : SaveOutcome × DocumentSession :=
  if session.inFlight ≠ some ticket then (.superseded, session)
  else
    let free : DocumentSession := { session with inFlight := none, inFlightTarget := none }
    match result with
    | .ok saved =>
      let written := free.landed saved
      if written.revision = ticket.revision then
        (.saved, { written with savedRevision := ticket.revision })
      else (.savedStale, written)
    | .error .externalChange => (.conflict, free)
    | .error (.io error) => (.failed error, free)

def takePendingSave (session : DocumentSession) : Option SaveIntent × DocumentSession :=
  (session.pendingSave, { session with pendingSave := none })

def beginRename (session : DocumentSession) : Option SaveTicket × DocumentSession :=
  if session.inFlight.isSome then (none, session)
  else
    let ticket := session.nextTicket
    (some ticket,
      { session with saveSequence := session.saveSequence + 1, inFlight := some ticket })

def finishRename (session : DocumentSession) (ticket : SaveTicket) : DocumentSession :=
  if session.inFlight = some ticket then { session with inFlight := none, inFlightTarget := none }
  else session

-- File events

def moveFile (session : DocumentSession) (identity : FileIdentity) (target : Path)
    : DocumentSession :=
  { session with
    file := session.file.setIdentity (identity.movedTo target) session.file.stamp }

def loseFile (session : DocumentSession) : FileEventOutcome × DocumentSession :=
  (.missing session.isDirty, { session with file := session.file.markMissing })

/-- Applies a filer or watcher event; it never reloads and never discards edits. -/
def applyFileEvent (session : DocumentSession) (event : FileEvent)
    : FileEventOutcome × DocumentSession :=
  match session.file.identity with
  | none => (.ignored, session)
  | some identity =>
    if identity.matchesPath event.subject = false then (.ignored, session)
    else
      match event with
      | .renamed _ target => (.renamed, session.moveFile identity target)
      | .deleted _ => session.loseFile
      | .changedOnDisk _ stamp =>
        match session.file.compare stamp with
        | .unchanged => (.ignored, session)
        | .deleted => session.loseFile
        | .modified | .unknown => (if session.isDirty then .conflict else .externalEdit, session)

/-- Whether the file lives at a folder or under it. -/
def isUnderFolder (session : DocumentSession) (folder : Path) : Bool :=
  session.file.identity.any fun identity => folder.isPrefixOf identity.path

def applyFolderDelete (session : DocumentSession) (folder : Path)
    : FileEventOutcome × DocumentSession :=
  if session.isUnderFolder folder = false then (.ignored, session) else session.loseFile

def applyFolderRename (session : DocumentSession) (source target : Path)
    : FileEventOutcome × DocumentSession :=
  match session.file.identity with
  | none => (.ignored, session)
  | some identity =>
    match source.stripPrefix identity.path with
    | none => (.ignored, session)
    | some relative =>
      let moved := if relative.isEmpty then target else target.join relative
      (.renamed, session.moveFile identity moved)

-- Background checks

def takeRecheckRequest (session : DocumentSession) : Bool × DocumentSession :=
  (session.recheckPending, { session with recheckPending := false })

/-- Starts a background check of the disk; at most one runs. -/
def beginExternalCheck (session : DocumentSession) : ExternalCheckStart × DocumentSession :=
  match session.file.path with
  | none => (.notTracked, session)
  | some path =>
    if session.checkInFlight.isSome then (.coalesced, { session with recheckPending := true })
    else
      let sequence := session.checkSequence + 1
      let localDocument :=
        if session.file.baseline.isNone && !session.isDirty then some session.editor.document
        else none
      (.run ⟨⟨session.generation, sequence, session.revision, session.savesCompleted, path⟩,
          localDocument⟩,
        { session with checkSequence := sequence, checkInFlight := some sequence })

def abandonExternalCheck (session : DocumentSession) (ticket : ExternalCheckTicket)
    : DocumentSession :=
  if session.checkInFlight = some ticket.sequence ∧ session.generation = ticket.generation then
    { session with checkInFlight := none }
  else session

def setExternal (session : DocumentSession) (state : ExternalState) : DocumentSession :=
  { session with
    external := state
    liveApproval :=
      if session.external.sameVersion state then session.liveApproval else none }

/-- The closest offset at or before `offset` on a character boundary of the document. -/
def nearestValidOffset (document : RopeBuffer) (offset : Nat) : Nat :=
  let rec search : Nat → Nat
    | 0 => 0
    | candidate + 1 =>
      match document.validateOffset (candidate + 1) with
      | .ok () => candidate + 1
      | .error _ => search candidate
  search (min offset document.lenBytes)

/-- The editor on an accepted disk version, its selection carried over by offset. -/
def reloadedEditor (before : Selection) (document : RopeBuffer) (clock : Clock) : Editor :=
  let anchor := nearestValidOffset document before.anchor
  let active := nearestValidOffset document before.active
  (Editor.setSelection ⟨anchor, active⟩ clock (Editor.fromDocument document)).2

/-- Replaces the document with an accepted disk version, in a new document generation. -/
def replaceWithDisk (session : DocumentSession) (clock : Clock) (observed : ObservedFile)
    : DocumentSession :=
  let editor := reloadedEditor session.editor.selection observed.document clock
  { session with
    editor
    file := (session.file.setStamp observed.stamp).setBaseline (some observed.fingerprint)
    savedRevision := editor.document.revision
    generation := session.generation + 1
    autosaveGeneration := session.autosaveGeneration + 1
    pendingSave := none }.resetExternalTracking

/-- What the session knows about its file before a read version is compared: a link is
followed, and a document without a baseline stands for it itself.
-/
def prepareFile (file : FileState) (observed : ObservedFile)
    (localFingerprint : Option ContentFingerprint) : FileState :=
  let followed :=
    match observed.canonical with
    | some canonical => file.refreshCanonical canonical
    | none => file
  match followed.baseline, localFingerprint with
  | none, some fingerprint => followed.setBaseline (some fingerprint)
  | _, _ => followed

/-- Whether a read version is the one the session already has. -/
def isSameVersion (file : FileState) (observed : ObservedFile) : Bool :=
  match file.baseline with
  | some baseline => baseline = observed.fingerprint
  | none => observed.stamp.isSome && observed.stamp = file.stamp

def applyObserved (session : DocumentSession) (clock : Clock) (ticket : ExternalCheckTicket)
    (observed : ObservedFile) (localFingerprint : Option ContentFingerprint)
    : ExternalCheckOutcome × DocumentSession :=
  let session : DocumentSession :=
    { session with file := prepareFile session.file observed localFingerprint }
  if isSameVersion session.file observed then
    (.unchanged,
      { session with
        file := (session.file.setStamp observed.stamp).setBaseline
          (some observed.fingerprint) }.setExternal .inSync)
  else
    let dirty := session.isDirty
    let canReplace := !dirty && session.revision == ticket.revision && session.editor.ime.isNone
      && session.inFlight.isNone
    if canReplace then (.reloaded, session.replaceWithDisk clock observed)
    else
      (.changed dirty,
        { session with file := session.file.markPresent }.setExternal
          (.changed ⟨observed.fingerprint, observed.stamp, observed.document⟩))

/-- Applies the result of a background check while its ticket still describes the session. -/
def finishExternalCheck (session : DocumentSession) (clock : Clock)
    (ticket : ExternalCheckTicket) (result : ExternalCheckResult)
    : ExternalCheckOutcome × DocumentSession :=
  if session.checkInFlight ≠ some ticket.sequence then (.stale, session)
  else
    let session : DocumentSession := { session with checkInFlight := none }
    if session.generation ≠ ticket.generation ∨ session.file.path ≠ some ticket.path then
      (.stale, session)
    else if session.savesCompleted ≠ ticket.saves then
      (.stale, { session with recheckPending := true })
    else
      match result.disk with
      | .missing =>
        let gone := session.setExternal .missing
        let gone : DocumentSession := { gone with file := gone.file.markMissing }
        (.missing gone.isDirty, gone)
      | .unreadable reason => (.unverifiable reason, session.setExternal (.unverifiable reason))
      | .present observed =>
        session.applyObserved clock ticket observed result.localFingerprint

-- Confirmed reloads

/-- Whether a composition or a write keeps the document from being replaced. -/
def isBusy (session : DocumentSession) : Bool :=
  session.editor.ime.isSome || session.inFlight.isSome

/-- Discards unsaved edits and takes the external version the user saw. -/
def applyConfirmedReload (session : DocumentSession) (clock : Clock)
    (approval : ResolutionApproval) : ReloadOutcome × DocumentSession :=
  if session.isBusy then (.busy, session)
  else if session.approvalIsCurrent approval .discardAndReload = false then
    (.staleApproval, session)
  else
    match session.external with
    | .changed observed =>
      (.reloaded,
        { session with external := .inSync }.replaceWithDisk clock
          ⟨observed.document, observed.fingerprint, observed.stamp, none⟩)
    | _ => (.staleApproval, session)

/-- First half of a confirmed reload: the read to run, if the approval is current. -/
def beginConfirmedReload (session : DocumentSession) (approval : ResolutionApproval)
    : Except ReloadOutcome ReloadVerifyRequest × DocumentSession :=
  if session.isBusy then (.error .busy, session)
  else if session.approvalIsCurrent approval .discardAndReload = false then
    (.error .staleApproval, session)
  else
    match session.external, session.file.path with
    | .changed _, some path =>
      let sequence := session.verifySequence + 1
      (.ok ⟨approval, session.generation, session.revision, sequence, path⟩,
        { session with verifySequence := sequence, verifyInFlight := some sequence })
    | _, _ => (.error .staleApproval, session)

/-- Second half: the text is taken only if the file is the version the user was shown. -/
def finishConfirmedReload (session : DocumentSession) (clock : Clock)
    (request : ReloadVerifyRequest) (disk : DiskVersion)
    : ReloadVerifyOutcome × DocumentSession :=
  if session.verifyInFlight ≠ some request.sequence ∨ session.generation ≠ request.generation
      ∨ session.file.path ≠ some request.path ∨ session.revision ≠ request.revision then
    (.stale, session)
  else
    let session : DocumentSession := { session with verifyInFlight := none }
    if session.isBusy then (.busy, session)
    else
      match disk with
      | .present observed =>
        if session.approvalIsCurrent request.approval .discardAndReload
            && request.approval.shown = some observed.fingerprint then
          (.reloaded, session.replaceWithDisk clock observed)
        else
          (.diskChanged,
            { session with file := session.file.markPresent }.setExternal
              (.changed ⟨observed.fingerprint, observed.stamp, observed.document⟩))
      | .missing =>
        let gone := session.setExternal .missing
        (.missing, { gone with file := gone.file.markMissing })
      | .unreadable reason => (.unverifiable reason, session.setExternal (.unverifiable reason))

end DocumentSession

end Hane.Session
