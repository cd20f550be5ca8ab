import Hane.Session.AcceptedTexts
import Hane.Session.SaveGuards
import Mathlib.Logic.Function.Basic

/-! Whoever else writes to the disk: a write is let replace only a version its session has had or
shown, unless the user chose the target without one, and replaces that version unless someone
writes between its check and the replacement.
-/

namespace Hane.Session

open Hane.Document Hane.Editing

-- What a session knows of its file

def DiskVersion.document : DiskVersion → Option RopeBuffer
  | .present observed => some observed.document
  | _ => none

def ExternalState.document : ExternalState → Option RopeBuffer
  | .changed observed => some observed.document
  | _ => none

/-- The version the file is known to have had after a check that ended so. -/
def ExternalCheckOutcome.knows (known localDocument read : Option RopeBuffer)
    : ExternalCheckOutcome → Option RopeBuffer
  | .unchanged | .reloaded => read
  | .changed _ => known <|> localDocument
  | .stale | .missing _ | .unverifiable _ => known

/-- The version a session knows its file to have had after a call: the one it opened, took from the
disk, found again or wrote. `source` is the document that was written, or the one that stood for
the file when the check began.
-/
def Request.knows (session : DocumentSession) (known source : Option RopeBuffer)
    : Request → Option RopeBuffer
  | adopt loaded => loaded.fingerprint.map fun _ => loaded.document
  | finishSave ticket (.ok saved) =>
    if session.inFlight = some ticket then saved.fingerprint.bind fun _ => source else known
  | finishCheck clock ticket result =>
    (session.finishExternalCheck clock ticket result).1.knows known source result.disk.document
  | reload clock approval =>
    if (session.applyConfirmedReload clock approval).1 = .reloaded then session.external.document
    else known
  | finishReload clock request disk =>
    if (session.finishConfirmedReload clock request disk).1 = .reloaded then disk.document
    else known
  | _ => known

/-- The fingerprints a session holds are those of documents. -/
structure Backed (session : DocumentSession) (known : Option RopeBuffer) : Prop where
  baseline : session.file.baseline = known.map .ofDocument
  external : ∀ observed, session.external = .changed observed
    → observed.fingerprint = .ofDocument observed.document

theorem Backed.unlearned {before after : DocumentSession} {known : Option RopeBuffer}
    (backed : Backed before known) (quiet : Unlearned before after) : Backed after known :=
  ⟨quiet.baseline.trans backed.baseline,
    fun observed changed => backed.external observed (quiet.external observed changed)⟩

namespace DocumentSession

variable {session : DocumentSession}

theorem replaceWithDisk_backed {clock : Clock} (observed : ObservedFile)
    (truthful : observed.fingerprint = .ofDocument observed.document)
    : Backed (session.replaceWithDisk clock observed) (some observed.document) :=
  ⟨congrArg some truthful, by rintro other ⟨⟩⟩

variable {known : Option RopeBuffer}

theorem landed_backed {saved : SavedFile} {document : RopeBuffer}
    (backed : Backed session known)
    (truthful : ∀ fingerprint, saved.fingerprint = some fingerprint
      → fingerprint = .ofDocument document)
    : Backed (session.landed saved) (saved.fingerprint.bind fun _ => some document) := by
  have baseline : saved.fingerprint
      = (saved.fingerprint.bind fun _ => some document).map .ofDocument := by
    cases fingerprint : saved.fingerprint with
    | none => rfl
    | some fingerprint' => exact congrArg some (truthful fingerprint' fingerprint)
  unfold landed
  dsimp only
  split
  · exact ⟨baseline, by rintro observed ⟨⟩⟩
  · exact ⟨baseline, backed.external⟩

theorem finishSave_backed {ticket : SaveTicket} {document : RopeBuffer}
    {result : Except SaveFailure SavedFile} (backed : Backed session known)
    (truthful : ∀ saved, result = .ok saved
      → ∀ fingerprint, saved.fingerprint = some fingerprint → fingerprint = .ofDocument document)
    : Backed (session.finishSave ticket result).2
        (Request.knows session known (some document) (.finishSave ticket result)) := by
  have free : Backed { session with inFlight := none, inFlightTarget := none } known :=
    ⟨backed.baseline, backed.external⟩
  by_cases here : session.inFlight = some ticket
  · rw [finishSave, if_neg (not_not_intro here)]
    cases result with
    | error failure => cases failure <;> exact free
    | ok saved =>
        rw [Request.knows, if_pos here]
        have landed := landed_backed free (truthful saved rfl)
        dsimp only
        split
        · exact ⟨landed.baseline, landed.external⟩
        · exact landed
  · rw [finishSave, if_pos here]
    cases result with
    | error failure => exact backed
    | ok saved =>
        rw [Request.knows, if_neg here]
        exact backed

theorem prepareFile_baseline (file : FileState) (observed : ObservedFile)
    (localDocument : Option RopeBuffer) (baseline : file.baseline = known.map .ofDocument)
    : (prepareFile file observed (localDocument.map .ofDocument)).baseline
        = (known <|> localDocument).map .ofDocument := by
  obtain ⟨document, fingerprint, stamp, canonical⟩ := observed
  obtain ⟨identity, recorded, held, presence⟩ := file
  have baseline : held = known.map .ofDocument := baseline
  subst baseline
  cases canonical <;> cases known <;> cases localDocument <;> rfl

theorem applyObserved_backed {clock : Clock} {ticket : ExternalCheckTicket}
    {observed : ObservedFile} {localDocument : Option RopeBuffer} (backed : Backed session known)
    (truthful : observed.fingerprint = .ofDocument observed.document)
    : Backed (session.applyObserved clock ticket observed (localDocument.map .ofDocument)).2
        ((session.applyObserved clock ticket observed (localDocument.map .ofDocument)).1.knows
          known localDocument (some observed.document)) := by
  have prepared := prepareFile_baseline session.file observed localDocument backed.baseline
  unfold applyObserved
  dsimp only
  split
  · exact ⟨congrArg some truthful, by rintro other ⟨⟩⟩
  · split
    · exact replaceWithDisk_backed observed truthful
    · refine ⟨prepared, ?_⟩
      rintro other ⟨⟩
      exact truthful

theorem finishExternalCheck_backed {clock : Clock} {ticket : ExternalCheckTicket}
    {disk : DiskVersion} {localDocument : Option RopeBuffer} (backed : Backed session known)
    (truthful : disk.Truthful)
    : Backed (session.finishExternalCheck clock ticket ⟨disk, localDocument.map .ofDocument⟩).2
        ((session.finishExternalCheck clock ticket ⟨disk, localDocument.map .ofDocument⟩).1.knows
          known localDocument disk.document) := by
  have freed : Backed { session with checkInFlight := none } known :=
    ⟨backed.baseline, backed.external⟩
  unfold finishExternalCheck
  split
  · exact backed
  dsimp only
  split
  · exact freed
  split
  · exact ⟨backed.baseline, backed.external⟩
  split
  · exact ⟨backed.baseline, by rintro observed ⟨⟩⟩
  · exact ⟨backed.baseline, by rintro observed ⟨⟩⟩
  case h_3 observed => exact applyObserved_backed freed (truthful observed rfl)

theorem applyConfirmedReload_backed {clock : Clock} {approval : ResolutionApproval}
    (backed : Backed session known)
    : Backed (session.applyConfirmedReload clock approval).2
        (Request.knows session known none (.reload clock approval)) := by
  rw [Request.knows]
  unfold applyConfirmedReload
  split
  · exact backed
  split
  · exact backed
  split
  case h_1 observed changed =>
    rw [if_pos rfl, changed, ExternalState.document]
    exact replaceWithDisk_backed ⟨observed.document, observed.fingerprint, observed.stamp, none⟩
      (backed.external observed changed)
  · exact backed

theorem finishConfirmedReload_backed {clock : Clock} {request : ReloadVerifyRequest}
    {disk : DiskVersion} (backed : Backed session known) (truthful : disk.Truthful)
    : Backed (session.finishConfirmedReload clock request disk).2
        (Request.knows session known none (.finishReload clock request disk)) := by
  rw [Request.knows]
  unfold finishConfirmedReload
  split
  · exact backed
  dsimp only
  split
  · exact ⟨backed.baseline, backed.external⟩
  split
  case h_1 observed =>
    have truthful := truthful observed rfl
    split
    · exact replaceWithDisk_backed observed truthful
    · refine ⟨backed.baseline, ?_⟩
      rintro other ⟨⟩
      exact truthful
  · exact ⟨backed.baseline, by rintro observed ⟨⟩⟩
  · exact ⟨backed.baseline, by rintro observed ⟨⟩⟩

theorem shown_eq_none {shown : Option ContentFingerprint}
    (current : session.currentExternalFingerprint = some shown)
    (unseen : ∀ observed, session.external ≠ .changed observed) : shown = none := by
  unfold currentExternalFingerprint at current
  split at current
  case h_1 observed changed => exact absurd changed (unseen observed)
  · exact (Option.some.inj current).symm
  · split at current
    · exact (Option.some.inj current).symm
    · cases current
  · cases current

end DocumentSession

-- Writes

/-- A write that a call started, with the session it was started in and the version of the file
the session knew.
-/
structure StartedWrite where
  request : Request
  session : DocumentSession
  known : Option RopeBuffer
  job : SaveJob

namespace StartedWrite

structure Sound (write : StartedWrite) : Prop where
  starts : write.request.writes write.session = some write.job
  backed : Backed write.session write.known

/-- An ordinary write to the file the session has. -/
inductive ToOwnFile (write : StartedWrite) : Prop where
  | current (inspected : Path → Path → Bool)
      : write.request = .save inspected .current → ToOwnFile write
  | named (inspected : Path → Path → Bool) (path : Path)
      : write.request = .save inspected (.to path)
        → write.session.file.identity.any (·.isSameFileOnDisk inspected path) = true
        → ToOwnFile write

/-- A write the user chose without regard to what is there. -/
inductive Forced (write : StartedWrite) : Prop where
  | overwrite (inspected : Path → Path → Bool)
      : write.request = .save inspected .overwrite → Forced write
  | elsewhere (inspected : Path → Path → Bool) (path : Path)
      : write.request = .save inspected (.to path)
        → write.session.file.identity.any (·.isSameFileOnDisk inspected path) = false
        → Forced write

/-- A write under a confirmation of what was shown. -/
structure Confirmed (write : StartedWrite) (approval : ResolutionApproval) : Prop where
  request : write.request = .overwrite approval
    ∨ ∃ inspected, write.request = .save inspected (.confirmed approval)
  current : write.session.approvalIsCurrent approval .overwrite = true

/-- What a write may find where it writes. -/
inductive MayReplace (write : StartedWrite) : DiskFile → Prop where
  | known {version : RopeBuffer} (stamp : FileStamp) (file : LoadedVersion)
      : write.ToOwnFile
        → write.known = some version
        → ContentFingerprint.ofDocument file.document = .ofDocument version
        → MayReplace write (.present stamp file)
  | stamped {recorded : FileStamp} (stamp : FileStamp) (file : LoadedVersion)
      : write.ToOwnFile
        → write.known = none
        → write.session.file.stamp = some recorded
        → file.stamp = some recorded
        → MayReplace write (.present stamp file)
  | unwritten
      : write.ToOwnFile
        → write.known = none
        → write.session.file.stamp = none
        → MayReplace write .missing
  | shown {approval : ResolutionApproval} {observed : ObservedExternal} (stamp : FileStamp)
      (file : LoadedVersion)
      : write.Confirmed approval
        → write.session.external = .changed observed
        → approval.shown = some observed.fingerprint
        → ContentFingerprint.ofDocument file.document = .ofDocument observed.document
        → MayReplace write (.present stamp file)
  | gone {approval : ResolutionApproval}
      : write.Confirmed approval → approval.shown = none → MayReplace write .missing
  | new {inspected : Path → Path → Bool} {path : Path}
      : write.request = .save inspected (.createNew path) → MayReplace write .missing
  | forced (file : DiskFile) : write.Forced → MayReplace write file

variable {write : StartedWrite} {file : DiskFile}

theorem Sound.own (sound : write.Sound) (own : write.ToOwnFile)
    (admits : write.session.contentGuard.Admits file) : write.MayReplace file := by
  have baseline := sound.backed.baseline
  generalize guarded : write.session.contentGuard = guard at admits
  unfold DocumentSession.contentGuard at guarded
  cases admits with
  | untouched =>
      injection guarded with stamp unknown
      rw [unknown] at baseline
      exact .unwritten own (Option.map_eq_none_iff.mp baseline.symm) stamp
  | content stamp current file =>
      injection guarded with _ fingerprint
      rw [fingerprint] at baseline
      obtain ⟨version, known, same⟩ := Option.map_eq_some_iff.mp baseline.symm
      exact .known current file own known same.symm
  | sameStamp current same =>
      injection guarded with stamp unknown
      rw [unknown] at baseline
      exact .stamped current _ own (Option.map_eq_none_iff.mp baseline.symm) stamp same
  | _ => cases guarded

/-- What is expected under a confirmation is what was shown. -/
theorem Sound.confirmed {approval : ResolutionApproval} (sound : write.Sound)
    (confirmed : write.Confirmed approval)
    (admits : write.session.confirmedGuard.Admits file) : write.MayReplace file := by
  cases state : write.session.external with
  | changed observed =>
      have shown := write.session.approvalIsCurrent_shown confirmed.current state
      have truthful := sound.backed.external observed state
      generalize guarded : write.session.confirmedGuard = guard at admits
      rw [DocumentSession.confirmedGuard, state] at guarded
      cases admits with
      | content stamp current file =>
          injection guarded with _ fingerprint
          exact .shown current file confirmed state shown
            ((Option.some.inj fingerprint).symm.trans truthful)
      | untouched | sameStamp =>
          injection guarded with _ unknown
          cases unknown
      | _ => cases guarded
  | _ =>
      have current : write.session.currentExternalFingerprint = some approval.shown :=
        (of_decide_eq_true confirmed.current).2.2.2.2
      have nothing : approval.shown = none :=
        DocumentSession.shown_eq_none current (by rw [state]; rintro observed ⟨⟩)
      generalize guarded : write.session.confirmedGuard = guard at admits
      rw [DocumentSession.confirmedGuard, state] at guarded
      cases admits with
      | untouched => exact .gone confirmed nothing
      | _ => cases guarded

end StartedWrite

namespace DocumentSession

variable {session next : DocumentSession} {job : SaveJob}

theorem requestConfirmedOverwrite_guard {approval : ResolutionApproval}
    (ran : session.requestConfirmedOverwrite approval = (some job, next))
    : session.approvalIsCurrent approval .overwrite = true
      ∧ job.guard = session.confirmedGuard := by
  unfold requestConfirmedOverwrite at ran
  split at ran
  · cases ran
  split at ran
  · cases ran
  case isFalse current =>
    split at ran
    · cases ran
    · cases ran
      exact ⟨by simpa using current, rfl⟩

theorem requestSave_guard {inspected : Path → Path → Bool} {intent : SaveIntent}
    (ran : session.requestSave inspected intent = (.write job, next))
    : (∃ approval, intent = .confirmed approval
        ∧ session.approvalIsCurrent approval .overwrite = true
        ∧ job.guard = session.confirmedGuard)
      ∨ session.saveTarget inspected intent = some (job.path, job.guard) := by
  unfold requestSave at ran
  split at ran
  case h_1 approval =>
    split at ran
    · cases ran
    · split at ran
      case h_1 job' started confirmed =>
        cases ran
        exact .inl ⟨approval, rfl, requestConfirmedOverwrite_guard confirmed⟩
      · cases ran
  case h_2 =>
    split at ran
    · cases ran
    case h_2 path guard target =>
      split at ran
      · cases ran
      · cases ran
        exact .inr target

end DocumentSession

namespace StartedWrite

variable {write : StartedWrite} {file : DiskFile}

/-- What the guard of a write lets it replace, by case on what was asked for. -/
theorem Sound.mayReplace (sound : write.Sound) (admits : write.job.guard.Admits file)
    : write.MayReplace file := by
  have starts := sound.starts
  cases asked : write.request with
  | overwrite approval =>
      rw [asked] at starts
      obtain ⟨current, guard⟩ :=
        DocumentSession.requestConfirmedOverwrite_guard (Prod.ext starts rfl)
      rw [guard] at admits
      exact sound.confirmed ⟨.inl asked, current⟩ admits
  | save inspected intent =>
      have decided : (write.session.requestSave inspected intent).1 = .write write.job := by
        simp only [asked, Request.writes] at starts
        split at starts
        · cases starts
          assumption
        · cases starts
      rcases DocumentSession.requestSave_guard (Prod.ext decided rfl) with
        ⟨approval, rfl, current, guard⟩ | target
      · rw [guard] at admits
        exact sound.confirmed ⟨.inr ⟨inspected, asked⟩, current⟩ admits
      · cases intent with
        | current =>
            obtain ⟨path, _, same⟩ := Option.map_eq_some_iff.mp target
            have guard : write.session.contentGuard = write.job.guard := congrArg Prod.snd same
            rw [← guard] at admits
            exact sound.own (.current inspected asked) admits
        | «to» path =>
            have guard := congrArg Prod.snd (Option.some.inj target)
            dsimp only at guard
            rw [← guard] at admits
            by_cases own : write.session.file.identity.any
                (·.isSameFileOnDisk inspected path) = true
            · rw [if_pos own] at admits
              exact sound.own (.named inspected path asked own) admits
            · exact .forced file (.elsewhere inspected path asked (by simpa using own))
        | overwrite => exact .forced file (.overwrite inspected asked)
        | createNew path =>
            have guard : OverwriteGuard.expectStamp none = write.job.guard :=
              congrArg Prod.snd (Option.some.inj target)
            rw [← guard] at admits
            cases admits with
            | free => exact .new asked
        | confirmed approval => cases target
  | _ =>
      rw [asked] at starts
      cases starts

end StartedWrite

-- The session, the disk and everything under way

/-- A write that ran. -/
structure RunWrite where
  write : StartedWrite
  outcome : Except SaveFailure (WrittenFile write.job.document)

def RunWrite.result (ran : RunWrite) : Except SaveFailure SavedFile :=
  ran.outcome.map WrittenFile.saved

/-- A call whose arguments come neither from the disk nor from a write. -/
def Request.isOwn : Request → Bool
  | adopt _ | finishSave _ _ | finishCheck _ _ _ | finishReload _ _ _ => false
  | _ => true

def Request.starts (session : DocumentSession) : Request → Option ExternalCheckRequest
  | beginCheck =>
    match session.beginExternalCheck.1 with
    | .run check => some check
    | _ => none
  | _ => none

/-- How the write of a call runs, the first one of a new file in its own way. -/
def StartedWrite.begin (write : StartedWrite) : SaveChecked :=
  match write.request with
  | .save _ (.createNew _) => runCreateNewJob
  | _ => runSaveJob

structure RunningWrite where
  write : StartedWrite
  stage : SaveChecked

/-- A write that landed: what its check found, and what it replaced. -/
structure Landing where
  write : StartedWrite
  found : DiskFile
  replaced : DiskFile

/-- One session before a disk that others write to as well, with every check and write it started,
the writes that run, those that ran, and those that landed.
-/
structure SaveWorld where
  session : DocumentSession
  known : Option RopeBuffer
  disk : Path → DiskFile
  checks : List ExternalCheckRequest
  started : List StartedWrite
  running : List RunningWrite
  ran : List RunWrite
  landed : List Landing

namespace SaveWorld

/-- The calls that can come now, with the document each is about: a result is that of a write that
ran or of a check that was started, and what it says of the disk was read there at some time.
-/
inductive Called (world : SaveWorld) : Request → Option RopeBuffer → Prop where
  | asked {request : Request}
      : request.isOwn = true → request.Possible world.session → Called world request none
  | adopted (file : LoadedVersion) : Called world (.adopt file.toLoadedFile) none
  | finished (ran : RunWrite)
      : ran ∈ world.ran
        → Called world (.finishSave ran.write.job.ticket ran.result)
            (some ran.write.job.document)
  | checked (clock : Clock) (check : ExternalCheckRequest)
      (attempts : Fin observeAttempts → ReadAttempt)
      : check ∈ world.checks
        → Called world (.finishCheck clock check.ticket (runExternalCheck attempts check))
            check.localDocument
  | verified (clock : Clock) (request : ReloadVerifyRequest)
      (attempts : Fin observeAttempts → ReadAttempt)
      : Called world (.finishReload clock request (observeDisk attempts)) none

def after (world : SaveWorld) (request : Request) (source : Option RopeBuffer) : SaveWorld :=
  { world with
    session := request.run world.session
    known := request.knows world.session world.known source
    checks := (request.starts world.session).toList ++ world.checks
    started :=
      ((request.writes world.session).map fun job =>
        ⟨request, world.session, world.known, job⟩).toList ++ world.started }

/-- The check of a running write. -/
def check (world : SaveWorld) (place : Nat) (write : StartedWrite) (createParent : Bool)
    : SaveWorld :=
  match checkOverwriteGuard (world.disk write.job.path) write.job.guard with
  | .error failure =>
    { world with
      running := world.running.eraseIdx place
      ran := ⟨write, .error failure⟩ :: world.ran }
  | .ok () =>
    { world with
      running :=
        world.running.set place ⟨write, .writing createParent (world.disk write.job.path)⟩ }

/-- What the service does for a write that was let, with what its check found. -/
def replace (world : SaveWorld) (place : Nat) (write : StartedWrite) (found : DiskFile)
    (saved : Except String (WrittenFile write.job.document)) : SaveWorld :=
  match saved with
  | .error error =>
    { world with
      running := world.running.eraseIdx place
      ran := ⟨write, .error (.io error)⟩ :: world.ran }
  | .ok written =>
    { world with
      disk := Function.update world.disk write.job.path (.present written.stamp written.file)
      running := world.running.eraseIdx place
      ran := ⟨write, .ok written⟩ :: world.ran
      landed := ⟨write, found, world.disk write.job.path⟩ :: world.landed }

/-- A session that was just made, before any disk. -/
inductive Started : SaveWorld → Prop where
  | untitled (text : Text) (disk : Path → DiskFile)
      : Started ⟨.untitled text, none, disk, [], [], [], [], []⟩
  | loaded (file : LoadedVersion) (disk : Path → DiskFile)
      : Started
          ⟨.fromLoaded file.toLoadedFile, file.fingerprint.map fun _ => file.document, disk, [],
            [], [], [], []⟩

/-- A call on the session, a step of a write, which may check again before it replaces anything,
or whatever others do to the disk.
-/
inductive Step (world : SaveWorld) : SaveWorld → Prop where
  | call {request : Request} {source : Option RopeBuffer}
      : world.Called request source → Step world (world.after request source)
  | begin {write : StartedWrite}
      : write ∈ world.started
        → Step world { world with running := ⟨write, write.begin⟩ :: world.running }
  | check {place : Nat} {write : StartedWrite} {createParent : Bool}
      : world.running[place]? = some ⟨write, .checking createParent⟩
        → Step world (world.check place write createParent)
  | again {place : Nat} {write : StartedWrite} {createParent : Bool} {found : DiskFile}
      : world.running[place]? = some ⟨write, .writing createParent found⟩
        → Step world
            { world with
              running := world.running.set place ⟨write, .checking createParent⟩ }
  | replace {place : Nat} {write : StartedWrite} {createParent : Bool} {found : DiskFile}
      (save : Bool → Except String (WrittenFile write.job.document))
      : world.running[place]? = some ⟨write, .writing createParent found⟩
        → Step world (world.replace place write found (save createParent))
  | others (disk : Path → DiskFile) : Step world { world with disk }

abbrev Run : SaveWorld → SaveWorld → Prop := Relation.ReflTransGen Step

/-- At a path there still is what the checks of the writes found that were let replace it. -/
def Undisturbed (path : Path) (world : SaveWorld) : Prop :=
  ∀ running ∈ world.running, ∀ createParent found,
    running.stage = .writing createParent found
    → running.write.job.path = path
    → world.disk path = found

/-- A run in which nobody writes to a path between a check there and the replacement it let. -/
abbrev UndisturbedRun (path : Path) : SaveWorld → SaveWorld → Prop :=
  Relation.ReflTransGen fun world next => Step world next ∧ Undisturbed path world

structure Guarded (world : SaveWorld) : Prop where
  backed : Backed world.session world.known
  started : ∀ write ∈ world.started, write.Sound
  running : ∀ running ∈ world.running,
    running.write.Sound
    ∧ ∀ createParent found,
      running.stage = .writing createParent found → running.write.MayReplace found
  landed : ∀ landing ∈ world.landed, landing.write.MayReplace landing.found

variable {world : SaveWorld}

theorem Called.backed {request : Request} {source : Option RopeBuffer}
    (called : world.Called request source) (backed : Backed world.session world.known)
    : Backed (request.run world.session) (request.knows world.session world.known source) := by
  cases called with
  | adopted file =>
      refine ⟨?_, by rintro observed ⟨⟩⟩
      cases fingerprint : file.fingerprint with
      | none => simp [Request.run, Request.knows, fingerprint, DocumentSession.adopt,
          DocumentSession.resetExternalTracking, FileState.setBaseline]
      | some known =>
          have same := file.truthful known fingerprint
          simp [Request.run, Request.knows, fingerprint, DocumentSession.adopt,
            DocumentSession.resetExternalTracking, FileState.setBaseline, same]
  | finished ran given =>
      refine DocumentSession.finishSave_backed backed fun saved ok => ?_
      unfold RunWrite.result at ok
      cases outcome : ran.outcome with
      | error failure =>
          rw [outcome] at ok
          cases ok
      | ok written =>
          rw [outcome] at ok
          cases ok
          exact written.truthful
  | checked clock check attempts given =>
      exact DocumentSession.finishExternalCheck_backed backed (observeDisk_truthful attempts)
  | verified clock request attempts =>
      exact DocumentSession.finishConfirmedReload_backed backed (observeDisk_truthful attempts)
  | asked own =>
      cases request with
      | edit | noteEdit | takePendingSave | takeRecheck =>
          exact ⟨backed.baseline, backed.external⟩
      | save inspected intent =>
          exact backed.unlearned (world.session.requestSave_unlearned inspected intent)
      | overwrite approval =>
          exact backed.unlearned (world.session.requestConfirmedOverwrite_unlearned approval)
      | beginRename => exact backed.unlearned world.session.beginRename_unlearned
      | finishRename ticket =>
          exact backed.unlearned (world.session.finishRename_unlearned ticket)
      | fileEvent event => exact backed.unlearned (world.session.applyFileEvent_unlearned event)
      | folderDelete folder =>
          exact backed.unlearned (world.session.applyFolderDelete_unlearned folder)
      | folderRename source target =>
          exact backed.unlearned (world.session.applyFolderRename_unlearned source target)
      | beginCheck => exact backed.unlearned world.session.beginExternalCheck_unlearned
      | abandonCheck ticket =>
          exact backed.unlearned (world.session.abandonExternalCheck_unlearned ticket)
      | approve kind shown =>
          exact backed.unlearned (world.session.approveResolution_unlearned kind shown)
      | reload clock approval => exact DocumentSession.applyConfirmedReload_backed backed
      | beginReload approval =>
          exact backed.unlearned (world.session.beginConfirmedReload_unlearned approval)
      | adopt | finishSave | finishCheck | finishReload => cases own

theorem Guarded.call {request : Request} {source : Option RopeBuffer} (guarded : world.Guarded)
    (called : world.Called request source) : (world.after request source).Guarded := by
  refine ⟨called.backed guarded.backed, fun write mem => ?_, guarded.running, guarded.landed⟩
  rcases List.mem_append.mp mem with fresh | earlier
  · obtain ⟨job, starts, rfl⟩ := Option.map_eq_some_iff.mp (Option.mem_toList.mp fresh)
    exact ⟨starts, guarded.backed⟩
  · exact guarded.started write earlier

theorem begin_ne_writing (write : StartedWrite) (createParent : Bool) (found : DiskFile)
    : write.begin ≠ .writing createParent found := by
  unfold StartedWrite.begin
  split <;> exact nofun

theorem Guarded.check (guarded : world.Guarded) {place : Nat} {write : StartedWrite}
    {createParent : Bool} (runs : world.running[place]? = some ⟨write, .checking createParent⟩)
    : (world.check place write createParent).Guarded := by
  have sound : write.Sound := (guarded.running _ (List.mem_of_getElem? runs)).1
  unfold SaveWorld.check
  split
  · exact ⟨guarded.backed, guarded.started,
      fun running member => guarded.running running (List.mem_of_mem_eraseIdx member),
      guarded.landed⟩
  case h_2 passed =>
    refine ⟨guarded.backed, guarded.started, fun running member => ?_, guarded.landed⟩
    rcases List.mem_or_eq_of_mem_set member with earlier | rfl
    · exact guarded.running running earlier
    · refine ⟨sound, ?_⟩
      rintro createParent found ⟨⟩
      exact sound.mayReplace (checkOverwriteGuard_ok passed)

theorem Guarded.again (guarded : world.Guarded) {place : Nat} {write : StartedWrite}
    {createParent : Bool} {found : DiskFile}
    (runs : world.running[place]? = some ⟨write, .writing createParent found⟩)
    : Guarded
        { world with running := world.running.set place ⟨write, .checking createParent⟩ } := by
  refine ⟨guarded.backed, guarded.started, fun running member => ?_, guarded.landed⟩
  rcases List.mem_or_eq_of_mem_set member with earlier | rfl
  · exact guarded.running running earlier
  · exact ⟨(guarded.running _ (List.mem_of_getElem? runs)).1, nofun⟩

theorem Guarded.replace (guarded : world.Guarded) {place : Nat} {write : StartedWrite}
    {createParent : Bool} {found : DiskFile}
    (runs : world.running[place]? = some ⟨write, .writing createParent found⟩)
    (saved : Except String (WrittenFile write.job.document))
    : (world.replace place write found saved).Guarded := by
  have let_ : write.MayReplace found :=
    (guarded.running _ (List.mem_of_getElem? runs)).2 createParent found rfl
  have rest : ∀ running ∈ world.running.eraseIdx place,
      running.write.Sound
      ∧ ∀ createParent found,
        running.stage = .writing createParent found → running.write.MayReplace found :=
    fun running member => guarded.running running (List.mem_of_mem_eraseIdx member)
  cases saved with
  | error error => exact ⟨guarded.backed, guarded.started, rest, guarded.landed⟩
  | ok written =>
      refine ⟨guarded.backed, guarded.started, rest, fun landing member => ?_⟩
      rcases List.mem_cons.mp member with rfl | earlier
      · exact let_
      · exact guarded.landed landing earlier

theorem Started.guarded (started : Started world) : world.Guarded := by
  cases started with
  | untitled text disk => exact ⟨⟨rfl, by rintro observed ⟨⟩⟩, by simp, by simp, by simp⟩
  | loaded file disk =>
      refine ⟨⟨?_, by rintro observed ⟨⟩⟩, by simp, by simp, by simp⟩
      cases fingerprint : file.fingerprint with
      | none => exact fingerprint
      | some known => exact fingerprint.trans (congrArg some (file.truthful known fingerprint))

theorem Guarded.run {start : SaveWorld} (guarded : start.Guarded) (run : Run start world)
    : world.Guarded := by
  induction run with
  | refl => exact guarded
  | tail _ step ih =>
      cases step with
      | call called => exact ih.call called
      | begin member =>
          refine ⟨ih.backed, ih.started, fun running runs => ?_, ih.landed⟩
          rcases List.mem_cons.mp runs with rfl | earlier
          · exact ⟨ih.started _ member, fun createParent found begun =>
              absurd begun (begin_ne_writing _ createParent found)⟩
          · exact ih.running running earlier
      | check runs => exact ih.check runs
      | again runs => exact ih.again runs
      | replace save runs => exact ih.replace runs _
      | others disk => exact ⟨ih.backed, ih.started, ih.running, ih.landed⟩

/-- What a write replaces at an undisturbed path is what its check found, by induction on the run.
-/
theorem UndisturbedRun.replaced {path : Path} {start : SaveWorld} (started : Started start)
    (run : UndisturbedRun path start world)
    : ∀ landing ∈ world.landed, landing.write.job.path = path →
      landing.replaced = landing.found := by
  induction run with
  | refl =>
      intro landing member
      cases started <;> cases member
  | tail _ step ih =>
      obtain ⟨step, undisturbed⟩ := step
      cases step with
      | call | begin | again | others => exact ih
      | check runs =>
          unfold SaveWorld.check
          split <;> exact ih
      | @replace place write createParent found save runs =>
          generalize save createParent = saved
          cases saved with
          | error error => exact ih
          | ok written =>
              intro landing member here
              rcases List.mem_cons.mp member with rfl | earlier
              · obtain rfl : write.job.path = path := here
                exact undisturbed _ (List.mem_of_getElem? runs) createParent found rfl rfl
              · exact ih landing earlier here

def sampleFile (letter : Char) : LoadedVersion where
  document := RopeBuffer.fromText [letter]
  identity := .lexical [.rootDir, .normal "f"]
  stamp := some ⟨1, none⟩
  fingerprint := some (.ofDocument (RopeBuffer.fromText [letter]))
  truthful _ known := (Option.some.inj known).symm

def sampleDisk (letter : Char) : Path → DiskFile := fun _ => .present ⟨1, none⟩ (sampleFile letter)

def sampleLoaded : SaveWorld :=
  ⟨.fromLoaded (sampleFile 'a').toLoadedFile, some (sampleFile 'a').document, sampleDisk 'a', [],
    [], [], [], []⟩

/-- A letter is typed, and someone else writes to the file. -/
def sampleTyped : SaveWorld :=
  sampleLoaded.after
    (.edit { sampleLoaded.session.editor with document := Watched.typedDocument }) none

def sampleWritten : SaveWorld := { sampleTyped with disk := sampleDisk 'b' }

/-- The save finds the other version. -/
def sampleSaving : SaveWorld := sampleWritten.after (.save (fun _ _ => false) .current) none

def sampleSave : StartedWrite := sampleSaving.started.get ⟨0, by decide +kernel⟩

def sampleBegun : SaveWorld := { sampleSaving with running := [⟨sampleSave, sampleSave.begin⟩] }

def sampleRefused : SaveWorld := sampleBegun.check 0 sampleSave true

def sampleRefusal : RunWrite := sampleRefused.ran.get ⟨0, by decide +kernel⟩

def sampleTold : SaveWorld :=
  sampleRefused.after (.finishSave sampleRefusal.write.job.ticket sampleRefusal.result)
    (some sampleRefusal.write.job.document)

/-- A check finds it as well. -/
def sampleChecking : SaveWorld := sampleTold.after .beginCheck none

def sampleCheck : ExternalCheckRequest := sampleChecking.checks.get ⟨0, by decide +kernel⟩

def sampleReading : Fin observeAttempts → ReadAttempt := fun _ => (sampleDisk 'b' []).attempt

def sampleChanged : SaveWorld :=
  sampleChecking.after
    (.finishCheck ⟨0, 0, 0⟩ sampleCheck.ticket (runExternalCheck sampleReading sampleCheck))
    sampleCheck.localDocument

/-- It is shown, and overwritten when that is confirmed. -/
def sampleShown : Option ContentFingerprint := some (.ofDocument (sampleFile 'b').document)

def sampleApproved : SaveWorld := sampleChanged.after (.approve .overwrite sampleShown) none

end SaveWorld

end Hane.Session
