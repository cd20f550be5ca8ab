import Hane.Session.Expiry
import Mathlib.Data.List.Nodup

/-! An approval is used once and expires for good, except where a deleted file comes back or the
file moves under a version already known.
-/

namespace Hane.Session

open Hane.Document Hane.Editing

-- Losing the file

namespace Request

/-- A deletion that no check has confirmed: the file is marked missing, and the external version
known so far stays.
-/
def losesFile (session : DocumentSession) : Request → Bool
  | fileEvent event =>
    session.file.identity.any (fun identity => identity.matchesPath event.subject)
      && match event with
        | .renamed _ _ => false
        | .deleted _ => true
        | .changedOnDisk _ stamp => session.file.compare stamp = .deleted
  | folderDelete folder => session.isUnderFolder folder
  | _ => false

variable {session : DocumentSession} {request : Request}

theorem run_of_losesFile (loses : request.losesFile session = true)
    : request.run session = { session with file := session.file.markMissing } := by
  cases request
  case fileEvent event =>
    simp only [losesFile, Bool.and_eq_true] at loses
    obtain ⟨subject, kind⟩ := loses
    obtain ⟨identity, tracked, matched⟩ := (Option.any_eq_true _ _).mp subject
    cases event with
    | renamed => cases kind
    | deleted path =>
        simp only [run, DocumentSession.applyFileEvent, tracked, matched]
        rfl
    | changedOnDisk path stamp =>
        have gone : session.file.compare stamp = .deleted := of_decide_eq_true kind
        simp only [run, DocumentSession.applyFileEvent, tracked, matched, gone]
        rfl
  case folderDelete folder =>
    have inside : session.isUnderFolder folder = true := loses
    simp only [run, DocumentSession.applyFolderDelete, inside]
    rfl
  all_goals cases loses

theorem fileEvent_expires (event : FileEvent)
    (stays : (fileEvent event).losesFile session = false)
    : Expires session (session.applyFileEvent event).2 := by
  unfold DocumentSession.applyFileEvent
  split
  · exact .refl _
  rename_i identity tracked
  split
  · exact .refl _
  rename_i matched
  have matched : identity.matchesPath event.subject = true := by simpa using matched
  simp only [losesFile, tracked, Option.any_some, matched, Bool.true_and] at stays
  cases event with
  | renamed source target => exact session.moveFile_expires identity target
  | deleted path => cases stays
  | changedOnDisk path stamp =>
      have stays : session.file.compare stamp ≠ .deleted := of_decide_eq_false stays
      dsimp only
      split
      · exact .refl _
      · rename_i gone
        exact absurd gone stays
      · exact .refl _
      · exact .refl _

/-- Any call but an approval and an unconfirmed deletion, by case on the call. -/
theorem run_expires (possible : request.Possible session)
    (refused : request.issues session = none) (stays : request.losesFile session = false)
    : Expires session (request.run session) := by
  cases request with
  | adopt loaded => exact session.adopt_expires loaded
  | edit next =>
      have edited : EditsDocument session.editor next := possible
      exact .keep rfl rfl rfl edited.revision_le fun _ same => same
  | noteEdit => exact .keep rfl rfl rfl (Nat.le_refl _) fun _ same => same
  | save inspected intent => exact session.requestSave_expires inspected intent
  | overwrite approval => exact session.requestConfirmedOverwrite_expires approval
  | finishSave ticket result => exact session.finishSave_expires ticket result
  | takePendingSave => exact .keep rfl rfl rfl (Nat.le_refl _) fun _ same => same
  | beginRename => exact session.beginRename_expires
  | finishRename ticket => exact session.finishRename_expires ticket
  | fileEvent event => exact fileEvent_expires event stays
  | folderDelete folder =>
      have outside : session.isUnderFolder folder = false := stays
      simp only [run, DocumentSession.applyFolderDelete, outside]
      exact .refl _
  | folderRename source target => exact session.applyFolderRename_expires source target
  | takeRecheck => exact .keep rfl rfl rfl (Nat.le_refl _) fun _ same => same
  | beginCheck => exact session.beginExternalCheck_expires
  | abandonCheck ticket => exact session.abandonExternalCheck_expires ticket
  | finishCheck clock ticket result =>
      exact session.finishExternalCheck_expires clock ticket result
  | approve kind shown =>
      simp only [issues, run, DocumentSession.approveResolution] at refused ⊢
      split
      · rename_i given
        rw [if_pos given] at refused
        cases refused
      · exact .refl _
  | reload clock approval => exact session.applyConfirmedReload_expires clock approval
  | beginReload approval => exact session.beginConfirmedReload_expires approval
  | finishReload clock request disk =>
      exact session.finishConfirmedReload_expires clock request disk

theorem run_follows (possible : request.Possible session)
    (refused : request.issues session = none)
    : Follows session (request.run session) := by
  cases loses : request.losesFile session with
  | false => exact (run_expires possible refused loses).toFollows
  | true =>
      rw [run_of_losesFile loses]
      exact ⟨rfl, .inr rfl, fun _ => rfl, fun _ => Nat.le_refl _⟩

-- Calls an approval survives

def movesFile (session : DocumentSession) : Request → Bool
  | fileEvent (.renamed source _) =>
    session.file.identity.any fun identity => identity.matchesPath source
  | folderRename source _ => session.isUnderFolder source
  | _ => false

theorem run_of_movesFile (moves : request.movesFile session = true)
    : ∃ identity target, request.run session = session.moveFile identity target := by
  cases request
  case fileEvent event =>
    cases event with
    | renamed source target =>
        obtain ⟨identity, tracked, matched⟩ := (Option.any_eq_true _ _).mp moves
        refine ⟨identity, target, ?_⟩
        simp only [run, DocumentSession.applyFileEvent, tracked, FileEvent.subject, matched]
        rfl
    | deleted path => cases moves
    | changedOnDisk path stamp => cases moves
  case folderRename source target =>
    obtain ⟨identity, tracked, inside⟩ := (Option.any_eq_true _ _).mp moves
    let relative := identity.path.drop source.length
    refine ⟨identity, if relative.isEmpty then target else target.join relative, ?_⟩
    simp only [run, DocumentSession.applyFolderRename, tracked, Path.stripPrefix, if_pos inside]
    rfl
  all_goals cases moves

/-- What a check or the read of a confirmed reload found, while the session waits for it. -/
def finds (session : DocumentSession) : Request → Option DiskVersion
  | finishCheck _ ticket result =>
    if session.checkInFlight = some ticket.sequence ∧ session.generation = ticket.generation
        ∧ session.file.path = some ticket.path ∧ session.savesCompleted = ticket.saves then
      some result.disk
    else none
  | finishReload _ verify disk =>
    if session.verifyInFlight = some verify.sequence ∧ session.generation = verify.generation
        ∧ session.file.path = some verify.path ∧ session.revision = verify.revision
        ∧ session.isBusy = false then
      some disk
    else none
  | _ => none

/-- Whether a version found is the session's own already, or replaces its document. -/
def takesIn (session : DocumentSession) (observed : ObservedFile) : Request → Bool
  | finishCheck _ ticket result =>
    DocumentSession.isSameVersion
      (DocumentSession.prepareFile session.file observed result.localFingerprint) observed
    || (!session.isDirty && session.revision == ticket.revision && session.editor.ime.isNone
        && session.inFlight.isNone)
  | finishReload _ verify _ =>
    session.approvalIsCurrent verify.approval .discardAndReload
    && verify.approval.shown = some observed.fingerprint
  | _ => false

/-- The call moves the file, or turns its presence over, and leaves the external version there
is to resolve: a deletion of a present file or a rename while a version is known, or a read that
finds the version known.
-/
def Disturbs (session : DocumentSession) (request : Request) : Prop :=
  request.losesFile session = true ∧ session.file.presence = .present
  ∨ request.movesFile session = true ∧ session.external ≠ .inSync
  ∨ request.finds session = some .missing ∧ session.external = .missing
      ∧ session.file.presence = .present
  ∨ ∃ observed seen,
      request.finds session = some (.present observed)
      ∧ request.takesIn session observed = false
      ∧ session.external = .changed seen ∧ seen.fingerprint = observed.fingerprint
      ∧ session.file.presence = .missing

theorem folderRename_stillShown {source target : Path}
    (quiet : ¬ (folderRename source target).Disturbs session)
    : StillShown session (session.applyFolderRename source target).2 := by
  unfold DocumentSession.applyFolderRename
  split
  · exact .keep rfl rfl rfl
  rename_i identity tracked
  split
  · exact .keep rfl rfl rfl
  · rename_i relative inside
    have moves : (folderRename source target).movesFile session = true := by
      unfold Path.stripPrefix at inside
      simp only [movesFile, DocumentSession.isUnderFolder, tracked, Option.any_some]
      by_contra outside
      rw [if_neg outside] at inside
      cases inside
    exact session.moveFile_stillShown _ _
      (Decidable.byContradiction fun known => quiet (.inr (.inl ⟨moves, known⟩)))

theorem fileEvent_stillShown {event : FileEvent}
    (quiet : ¬ (fileEvent event).Disturbs session)
    : StillShown session (session.applyFileEvent event).2 := by
  by_cases loses : (fileEvent event).losesFile session = true
  · have run := run_of_losesFile loses
    have missing : session.file.presence = .missing := by
      cases presence : session.file.presence with
      | missing => rfl
      | present => exact absurd (.inl ⟨loses, presence⟩) quiet
    rw [show (session.applyFileEvent event).2 = _ from run]
    exact .keep rfl rfl missing.symm
  unfold DocumentSession.applyFileEvent
  split
  · exact .keep rfl rfl rfl
  rename_i identity tracked
  split
  · exact .keep rfl rfl rfl
  rename_i matched
  have matched : identity.matchesPath event.subject = true := by simpa using matched
  simp only [losesFile, tracked, Option.any_some, matched, Bool.true_and] at loses
  cases event with
  | renamed source target =>
      have moves : (fileEvent (.renamed source target)).movesFile session = true := by
        simpa only [movesFile, tracked, Option.any_some, FileEvent.subject] using matched
      exact session.moveFile_stillShown _ _
        (Decidable.byContradiction fun known => quiet (.inr (.inl ⟨moves, known⟩)))
  | deleted path => exact absurd rfl loses
  | changedOnDisk path stamp =>
      dsimp only
      split
      · exact .keep rfl rfl rfl
      · rename_i gone
        exact absurd (decide_eq_true gone) loses
      · exact .keep rfl rfl rfl
      · exact .keep rfl rfl rfl

theorem finishCheck_stillShown {clock : Clock} {ticket : ExternalCheckTicket}
    {result : ExternalCheckResult} (quiet : ¬ (finishCheck clock ticket result).Disturbs session)
    : StillShown session (session.finishExternalCheck clock ticket result).2 := by
  unfold DocumentSession.finishExternalCheck
  split
  · exact .keep rfl rfl rfl
  rename_i waiting
  dsimp only
  split
  · exact .keep rfl rfl rfl
  rename_i same
  split
  · exact .keep rfl rfl rfl
  rename_i saves
  simp only [not_or, not_not] at waiting same saves
  have found : (finishCheck clock ticket result).finds session = some result.disk :=
    if_pos ⟨waiting, same.1, same.2, saves⟩
  split
  · rename_i missing
    refine DocumentSession.gone_stillShown _ fun known => ?_
    cases presence : session.file.presence with
    | missing => rfl
    | present =>
        exact absurd (.inr (.inr (.inl ⟨found.trans (congrArg some missing), known, presence⟩)))
          quiet
  · exact .set _ rfl (fun _ _ => rfl) fun synced => nomatch synced
  · rename_i observed present
    refine DocumentSession.applyObserved_stillShown _ clock ticket observed _ ?_
    rintro other kept ⟨seen, known, fingerprint⟩
    cases presence : session.file.presence with
    | present => rfl
    | missing =>
        exact absurd (.inr (.inr (.inr ⟨observed, seen, found.trans (congrArg some present),
          Bool.or_eq_false_iff.mpr ⟨other, kept⟩, known, fingerprint, presence⟩))) quiet

theorem finishReload_stillShown {clock : Clock} {verify : ReloadVerifyRequest}
    {disk : DiskVersion} (quiet : ¬ (finishReload clock verify disk).Disturbs session)
    : StillShown session (session.finishConfirmedReload clock verify disk).2 := by
  unfold DocumentSession.finishConfirmedReload
  split
  · exact .keep rfl rfl rfl
  rename_i waiting
  dsimp only
  split
  · exact .keep rfl rfl rfl
  rename_i free
  simp only [not_or, not_not] at waiting
  obtain ⟨sequence, generation, path, revision⟩ := waiting
  have found : (finishReload clock verify disk).finds session = some disk :=
    if_pos ⟨sequence, generation, path, revision, eq_false_of_ne_true free⟩
  split
  · rename_i observed
    split
    · exact .kill rfl
    · rename_i other
      refine @StillShown.set { session with verifyInFlight := none }
        (.changed ⟨observed.fingerprint, observed.stamp, observed.document⟩)
        session.file.markPresent rfl (fun same _ => ?_) fun synced => nomatch synced
      cases presence : session.file.presence with
      | present => rfl
      | missing =>
          obtain ⟨seen, known, fingerprint⟩ : ∃ seen : ObservedExternal,
              session.external = .changed seen ∧ seen.fingerprint = observed.fingerprint := by
            rcases ExternalState.sameVersion_cases same with
              same | ⟨seen, newer, state, same, fingerprint⟩
            · exact ⟨_, same, rfl⟩
            · obtain rfl := ExternalState.changed.inj same
              exact ⟨seen, state, fingerprint⟩
          exact absurd (.inr (.inr (.inr ⟨observed, seen, found, eq_false_of_ne_true other,
            known, fingerprint, presence⟩))) quiet
  · refine DocumentSession.gone_stillShown _ fun known => ?_
    cases presence : session.file.presence with
    | missing => rfl
    | present => exact absurd (.inr (.inr (.inl ⟨found, known, presence⟩))) quiet
  · exact .set _ rfl (fun _ _ => rfl) fun synced => nomatch synced

/-- Every call that disturbs neither, by case on the call. -/
theorem run_stillShown (refused : request.issues session = none)
    (quiet : ¬ request.Disturbs session)
    : StillShown session (request.run session) := by
  cases request with
  | adopt loaded => exact .kill rfl
  | edit | noteEdit | takePendingSave | takeRecheck => exact .keep rfl rfl rfl
  | save inspected intent => exact session.requestSave_stillShown inspected intent
  | overwrite approval => exact session.requestConfirmedOverwrite_stillShown approval
  | finishSave ticket result => exact session.finishSave_stillShown ticket result
  | fileEvent event => exact fileEvent_stillShown quiet
  | folderDelete folder =>
      by_cases loses : (folderDelete folder).losesFile session = true
      · have missing : session.file.presence = .missing := by
          cases presence : session.file.presence with
          | missing => rfl
          | present => exact absurd (.inl ⟨loses, presence⟩) quiet
        rw [run_of_losesFile loses]
        exact .keep rfl rfl missing.symm
      · have outside : session.isUnderFolder folder = false := eq_false_of_ne_true loses
        simp only [run, DocumentSession.applyFolderDelete, outside]
        exact .keep rfl rfl rfl
  | folderRename source target => exact folderRename_stillShown quiet
  | finishCheck clock ticket result => exact finishCheck_stillShown quiet
  | finishReload clock verify disk => exact finishReload_stillShown quiet
  | approve kind shown =>
      simp only [issues, run, DocumentSession.approveResolution] at refused ⊢
      split
      · rename_i given
        rw [if_pos given] at refused
        cases refused
      · exact .keep rfl rfl rfl
  | reload clock approval =>
      simp only [run, DocumentSession.applyConfirmedReload]
      split
      · exact .keep rfl rfl rfl
      split
      · exact .keep rfl rfl rfl
      split
      · exact .kill rfl
      · exact .keep rfl rfl rfl
  | beginRename =>
      simp only [run, DocumentSession.beginRename]
      split <;> exact .keep rfl rfl rfl
  | finishRename ticket =>
      simp only [run, DocumentSession.finishRename]
      split <;> exact .keep rfl rfl rfl
  | beginCheck =>
      simp only [run, DocumentSession.beginExternalCheck]
      split
      · exact .keep rfl rfl rfl
      split <;> exact .keep rfl rfl rfl
  | abandonCheck ticket =>
      simp only [run, DocumentSession.abandonExternalCheck]
      split <;> exact .keep rfl rfl rfl
  | beginReload approval =>
      simp only [run, DocumentSession.beginConfirmedReload]
      split
      · exact .keep rfl rfl rfl
      split
      · exact .keep rfl rfl rfl
      split <;> exact .keep rfl rfl rfl

end Request

-- Runs

/-- A session with every approval it gave and every approval an accepted write or reload was
made under, latest first.
-/
structure History where
  session : DocumentSession
  issued : List ResolutionApproval
  consumed : List ResolutionApproval

namespace History

def after (history : History) (request : Request) : History where
  session := request.run history.session
  issued := (request.issues history.session).toList ++ history.issued
  consumed := (request.consumes history.session).toList ++ history.consumed

/-- A session that was just made. -/
inductive Started : History → Prop where
  | untitled (text : Text) : Started ⟨.untitled text, [], []⟩
  | loaded (loaded : LoadedFile) : Started ⟨.fromLoaded loaded, [], []⟩

/-- The call marks the file of an approval for a missing file missing again: the file had come
back since the approval was given, which left the approval expired but not forgotten.
-/
def Revives (history : History) (request : Request) : Prop :=
  request.losesFile history.session = true
    ∧ history.session.external = .inSync
    ∧ history.session.file.presence = .present
    ∧ ∃ approval ∈ history.issued,
        approval.shown = none
        ∧ history.session.liveApproval = some approval.serial
        ∧ approval.generation = history.session.generation
        ∧ approval.revision = history.session.revision

/-- The call moves the file or turns its presence over, and an approval is current before and
after it.
-/
def Outlives (history : History) (request : Request) : Prop :=
  request.Disturbs history.session
    ∧ ∃ approval ∈ history.issued,
        history.session.approvalIsCurrent approval approval.kind = true

/-- The next approval would get the serial of an earlier one. -/
def Repeats (history : History) : Request → Prop
  | .approve _ _ =>
    ∃ approval ∈ history.issued, approval.serial = history.session.approvalSerial + 1
  | _ => False

/-- One call, if it meets the condition. -/
inductive Step (condition : History → Request → Prop) (history : History)
    : History → Prop where
  | call (request : Request) (possible : request.Possible history.session)
      (meets : condition history request)
      : Step condition history (history.after request)

/-- Any number of calls in any order, each meeting the condition. -/
abbrev Run (condition : History → Request → Prop) : History → History → Prop :=
  Relation.ReflTransGen (Step condition)

/-- The call neither revives an approval, nor leaves one that it should end, nor repeats a
serial.
-/
structure Settled (history : History) (request : Request) : Prop where
  revives : ¬ history.Revives request
  outlives : ¬ history.Outlives request
  repeats : ¬ history.Repeats request

/-- Before the first approval there is none to bring back. -/
theorem Settled.of_nothing_issued {history : History} {request : Request}
    (nothing : history.issued = [])
    : Settled history request := by
  refine ⟨?_, ?_, ?_⟩
  · intro ⟨_, _, _, approval, given, _⟩
    rw [nothing] at given
    cases given
  · intro ⟨_, approval, given, _⟩
    rw [nothing] at given
    cases given
  · intro repeats
    cases request
    case approve =>
      obtain ⟨approval, given, _⟩ := repeats
      rw [nothing] at given
      cases given
    all_goals exact repeats

theorem Settled.of_stays {history : History} {request : Request}
    (stays : request.losesFile history.session = false)
    (quiet : ∀ approval ∈ history.issued,
      history.session.approvalIsCurrent approval approval.kind = true
      → ¬ request.Disturbs history.session)
    (other : ∀ kind shown, request ≠ .approve kind shown)
    : Settled history request := by
  refine ⟨?_, ?_, ?_⟩
  · intro ⟨loses, _⟩
    rw [stays] at loses
    cases loses
  · intro ⟨disturbs, approval, given, current⟩
    exact quiet approval given current disturbs
  · intro repeats
    cases request
    case approve kind shown => exact absurd rfl (other kind shown)
    all_goals exact repeats

/-- The call is one that ends the approval: an edit, a change of the external version, of the
file's presence or of its path, a rename, a reload or another document, a newer approval, or the
approval's own use.
-/
inductive Ends (session : DocumentSession) (request : Request) (approval : ResolutionApproval)
    : Prop where
  | edited (next : (request.run session).revision ≠ session.revision)
  | version (next : session.external.sameVersion (request.run session).external = false)
  | presence (next : (request.run session).file.presence ≠ session.file.presence)
  | path (next : (request.run session).file.path ≠ session.file.path)
  | renamed (moves : request.movesFile session = true)
  | replaced (next : (request.run session).generation ≠ session.generation)
  | newer (given : (request.issues session).isSome)
  | used (consumed : request.consumes session = some approval)

/-- What the serials of a run keep true: the live approval was given and not used, its document
is the one shown, and no serial is used twice.
-/
structure Sound (history : History) : Prop where
  live : ∀ serial, history.session.liveApproval = some serial
    → serial ∈ history.issued.map (·.serial) ∧ serial ∉ history.consumed.map (·.serial)
  given : ∀ approval ∈ history.consumed, approval.serial ∈ history.issued.map (·.serial)
  once : (history.consumed.map (·.serial)).Nodup
  document : ∀ approval ∈ history.issued,
    history.session.liveApproval = some approval.serial
    → approval.generation = history.session.generation
      ∧ approval.revision ≤ history.session.revision

end History

theorem DocumentSession.approvalIsCurrent_iff (session : DocumentSession)
    (approval : ResolutionApproval) (kind : ResolutionKind)
    : session.approvalIsCurrent approval kind = true
      ↔ approval.kind = kind
        ∧ session.liveApproval = some approval.serial
        ∧ approval.generation = session.generation
        ∧ approval.revision = session.revision
        ∧ session.currentExternalFingerprint = some approval.shown :=
  decide_eq_true_iff

namespace Request

variable {session : DocumentSession} {request : Request} {approval : ResolutionApproval}

theorem overwrite_consumes {job : SaveJob}
    (accepted : (session.requestConfirmedOverwrite approval).1 = some job)
    : session.liveApproval = some approval.serial
      ∧ (session.requestConfirmedOverwrite approval).2.liveApproval = none := by
  unfold DocumentSession.requestConfirmedOverwrite at accepted ⊢
  split at accepted
  · cases accepted
  rename_i free
  split at accepted
  · cases accepted
  rename_i current
  split at accepted
  · cases accepted
  rename_i path tracked
  have current : session.approvalIsCurrent approval .overwrite = true := by simpa using current
  obtain ⟨_, live, _⟩ := (session.approvalIsCurrent_iff _ _).mp current
  refine ⟨live, ?_⟩
  simp only [free, current]
  rfl

theorem reload_consumes {clock : Clock}
    (accepted : (session.applyConfirmedReload clock approval).1 = .reloaded)
    : session.liveApproval = some approval.serial
      ∧ (session.applyConfirmedReload clock approval).2.liveApproval = none := by
  unfold DocumentSession.applyConfirmedReload at accepted ⊢
  split at accepted
  · cases accepted
  rename_i free
  split at accepted
  · cases accepted
  rename_i current
  split at accepted
  · rename_i observed changed
    have current : session.approvalIsCurrent approval .discardAndReload = true := by
      simpa using current
    obtain ⟨_, live, _⟩ := (session.approvalIsCurrent_iff _ _).mp current
    refine ⟨live, ?_⟩
    simp only [free, current]
    rfl
  · cases accepted

theorem finishReload_consumes {clock : Clock} {verify : ReloadVerifyRequest}
    {disk : DiskVersion}
    (accepted : (session.finishConfirmedReload clock verify disk).1 = .reloaded)
    : session.liveApproval = some verify.approval.serial
      ∧ (session.finishConfirmedReload clock verify disk).2.liveApproval = none := by
  unfold DocumentSession.finishConfirmedReload at accepted ⊢
  split at accepted
  · cases accepted
  rename_i known
  dsimp only at accepted
  split at accepted
  · cases accepted
  rename_i free
  rw [if_neg known]
  dsimp only
  rw [if_neg free]
  split at accepted
  · rename_i observed
    split at accepted
    · rename_i current
      obtain ⟨_, live, _⟩ :=
        (DocumentSession.approvalIsCurrent_iff _ _ _).mp (Bool.and_eq_true _ _ ▸ current).1
      refine ⟨live, ?_⟩
      rw [if_pos current]
      rfl
    · cases accepted
  · cases accepted
  · cases accepted

/-- An accepted write or reload was made under the live approval, and no approval is live
after it.
-/
theorem live_of_consumes (used : request.consumes session = some approval)
    : session.liveApproval = some approval.serial
      ∧ (request.run session).liveApproval = none
      ∧ request.issues session = none := by
  cases request
  case save inspected intent =>
    cases intent
    case confirmed given =>
      simp only [consumes, run, issues, DocumentSession.requestSave] at used ⊢
      split at used
      · rename_i job accepted
        obtain rfl := Option.some.inj used
        split at accepted
        · cases accepted
        · rename_i free
          cases decided : session.requestConfirmedOverwrite given with
          | mk outcome final =>
              rw [decided] at accepted
              cases outcome with
              | none => cases accepted
              | some job =>
                  have accepted : (session.requestConfirmedOverwrite given).1 = some job := by
                    rw [decided]
                  obtain ⟨live, gone⟩ := overwrite_consumes accepted
                  rw [decided] at gone
                  rw [if_neg free]
                  exact ⟨live, gone, trivial⟩
      · cases used
    all_goals cases used
  case overwrite given =>
    obtain ⟨job, accepted, rfl⟩ := Option.map_eq_some_iff.mp used
    obtain ⟨live, gone⟩ := overwrite_consumes accepted
    exact ⟨live, gone, rfl⟩
  case reload clock given =>
    simp only [consumes] at used
    split at used
    · rename_i accepted
      obtain rfl := Option.some.inj used
      obtain ⟨live, gone⟩ := reload_consumes accepted
      exact ⟨live, gone, rfl⟩
    · cases used
  case finishReload clock verify disk =>
    simp only [consumes] at used
    split at used
    · rename_i accepted
      obtain rfl := Option.some.inj used
      obtain ⟨live, gone⟩ := finishReload_consumes accepted
      exact ⟨live, gone, rfl⟩
    · cases used
  all_goals cases used

theorem issues_cases (given : request.issues session = some approval)
    : (∃ kind, request = .approve kind approval.shown)
      ∧ approval.serial = session.approvalSerial + 1
      ∧ approval.generation = session.generation
      ∧ approval.revision = session.revision
      ∧ request.run session
        = { session with
            approvalSerial := session.approvalSerial + 1
            liveApproval := some (session.approvalSerial + 1) } := by
  cases request
  case approve kind shown =>
    simp only [issues, run, DocumentSession.approveResolution] at given ⊢
    split at given
    · rename_i current
      obtain rfl := Option.some.inj given
      rw [if_pos current]
      exact ⟨⟨kind, rfl⟩, rfl, rfl, rfl, rfl⟩
    · cases given
  all_goals cases given

end Request

namespace History

variable {history middle final : History} {request : Request}

theorem Started.sound (started : Started history) : Sound history := by
  have nothing : history.session.liveApproval = none ∧ history.issued = []
      ∧ history.consumed = [] := by
    cases started <;> exact ⟨rfl, rfl, rfl⟩
  obtain ⟨live, issued, consumed⟩ := nothing
  exact {
    live := by
      rw [live]
      exact fun _ none => nomatch none
    given := by
      rw [consumed]
      exact List.forall_mem_nil _
    once := by
      rw [consumed]
      exact List.nodup_nil
    document := by
      rw [issued]
      exact List.forall_mem_nil _
  }

/-- A call that hands out no approval keeps the serials sound: it uses the live approval up or
none.
-/
theorem Sound.follow (sound : Sound history) (refused : request.issues history.session = none)
    (follows : Follows history.session (request.run history.session))
    : Sound (history.after request) := by
  have issued : (history.after request).issued = history.issued := by
    simp only [after, refused, Option.toList_none, List.nil_append]
  have kept : ∀ serial, (request.run history.session).liveApproval = some serial
      → history.session.liveApproval = some serial := by
    intro serial live
    rcases follows.live with killed | same
    · rw [killed] at live
      cases live
    · rwa [← same]
  have document : ∀ approval ∈ (history.after request).issued,
      (history.after request).session.liveApproval = some approval.serial
      → approval.generation = (history.after request).session.generation
        ∧ approval.revision ≤ (history.after request).session.revision := by
    intro approval given live
    rw [issued] at given
    obtain ⟨generation, revision⟩ := sound.document approval given (kept _ live)
    have alive : (request.run history.session).liveApproval.isSome :=
      Option.isSome_of_eq_some live
    exact ⟨generation.trans (follows.generation alive).symm,
      Nat.le_trans revision (follows.revision alive)⟩
  cases used : request.consumes history.session with
  | none =>
      have consumed : (history.after request).consumed = history.consumed := by
        simp only [after, used, Option.toList_none, List.nil_append]
      refine ⟨?_, ?_, ?_, document⟩
      · intro serial live
        rw [issued, consumed]
        exact sound.live serial (kept serial live)
      · rw [issued, consumed]
        exact sound.given
      · rw [consumed]
        exact sound.once
  | some approval =>
      have consumed : (history.after request).consumed = approval :: history.consumed := by
        simp only [after, used, Option.toList_some, List.singleton_append]
      obtain ⟨live, gone, _⟩ := Request.live_of_consumes used
      obtain ⟨given, unused⟩ := sound.live _ live
      refine ⟨?_, ?_, ?_, document⟩
      · intro serial alive
        rw [show (history.after request).session.liveApproval = none from gone] at alive
        cases alive
      · rw [issued, consumed]
        exact List.forall_mem_cons.mpr ⟨given, sound.given⟩
      · rw [consumed]
        exact List.nodup_cons.mpr ⟨unused, sound.once⟩

/-- A new approval with a new serial keeps the serials sound. -/
theorem Sound.approve {approval : ResolutionApproval} (sound : Sound history)
    (given : request.issues history.session = some approval)
    (repeats : ¬ history.Repeats request)
    : Sound (history.after request) := by
  obtain ⟨⟨kind, rfl⟩, serial, generation, revision, run⟩ := Request.issues_cases given
  have fresh : history.session.approvalSerial + 1 ∉ history.issued.map (·.serial) := by
    intro known
    obtain ⟨earlier, among, same⟩ := List.mem_map.mp known
    exact repeats ⟨earlier, among, same⟩
  have issued : (history.after (.approve kind approval.shown)).issued
      = approval :: history.issued := by
    simp only [after, given, Option.toList_some, List.singleton_append]
  have consumed : (history.after (.approve kind approval.shown)).consumed = history.consumed :=
    rfl
  have unused : history.session.approvalSerial + 1 ∉ history.consumed.map (·.serial) := by
    intro known
    obtain ⟨earlier, among, same⟩ := List.mem_map.mp known
    exact fresh (same ▸ sound.given earlier among)
  have session : (history.after (.approve kind approval.shown)).session
      = { history.session with
          approvalSerial := history.session.approvalSerial + 1
          liveApproval := some (history.session.approvalSerial + 1) } := run
  refine ⟨?_, ?_, ?_, ?_⟩
  · intro live alive
    rw [session] at alive
    obtain rfl := Option.some.inj alive
    rw [issued, consumed, List.map_cons, serial]
    exact ⟨List.mem_cons_self, unused⟩
  · intro earlier among
    rw [issued, List.map_cons]
    exact List.mem_cons_of_mem _ (sound.given earlier among)
  · exact sound.once
  · intro other among alive
    rw [session] at alive ⊢
    rw [issued] at among
    rcases List.mem_cons.mp among with rfl | earlier
    · exact ⟨generation, Nat.le_of_eq revision⟩
    · have same := Option.some.inj alive
      exact absurd (List.mem_map.mpr ⟨other, earlier, same.symm⟩) fresh

theorem Sound.step (sound : Sound history) (step : Step Settled history final)
    : Sound final := by
  cases step with
  | call request possible settled =>
      cases given : request.issues history.session with
      | some approval => exact sound.approve given settled.repeats
      | none => exact sound.follow given (Request.run_follows possible given)

theorem Sound.run (sound : Sound history) (run : Run Settled history final)
    : Sound final := by
  induction run with
  | refl => exact sound
  | tail _ step ih => exact ih.step step

theorem Step.issued_subset {condition : History → Request → Prop}
    (step : Step condition history final)
    : ∀ approval ∈ history.issued, approval ∈ final.issued := by
  cases step with
  | call => exact fun _ given => List.mem_append_right _ given

theorem Run.issued_subset {condition : History → Request → Prop}
    (run : Run condition history final)
    : ∀ approval ∈ history.issued, approval ∈ final.issued := by
  induction run with
  | refl => exact fun _ given => given
  | tail _ step ih => exact fun approval given => step.issued_subset approval (ih approval given)

/-- No settled call makes an expired approval current. -/
theorem Sound.current_of_step (sound : Sound history) (step : Step Settled history final)
    {approval : ResolutionApproval} (given : approval ∈ history.issued) {kind : ResolutionKind}
    (current : final.session.approvalIsCurrent approval kind = true)
    : history.session.approvalIsCurrent approval kind = true := by
  cases step with
  | call request possible settled =>
      rw [DocumentSession.approvalIsCurrent_iff] at current ⊢
      obtain ⟨ofKind, live, generation, revision, version⟩ := current
      refine ⟨ofKind, ?_⟩
      have live : (request.run history.session).liveApproval = some approval.serial := live
      cases issued : request.issues history.session with
      | some fresh =>
          -- The live serial is the new one, which no earlier approval has.
          obtain ⟨⟨kind, rfl⟩, _, _, _, run⟩ := Request.issues_cases issued
          rw [run] at live
          exact absurd ⟨approval, given, (Option.some.inj live).symm⟩ settled.repeats
      | none =>
          have follows := Request.run_follows possible issued
          have alive : (request.run history.session).liveApproval.isSome :=
            Option.isSome_of_eq_some live
          have lived : history.session.liveApproval = some approval.serial := by
            rcases follows.live with killed | same
            · rw [killed] at live
              cases live
            · rwa [← same]
          obtain ⟨before, known⟩ := sound.document approval given lived
          have revision : approval.revision = history.session.revision :=
            Nat.le_antisymm known (Nat.le_trans (follows.revision alive)
              (Nat.le_of_eq revision.symm))
          refine ⟨lived, before, revision, ?_⟩
          cases loses : request.losesFile history.session with
          | false =>
              exact (Request.run_expires possible issued loses).version alive _ version
          | true =>
              have run := Request.run_of_losesFile loses
              have version : (request.run history.session).currentExternalFingerprint
                  = some approval.shown := version
              rw [run] at version
              cases external : history.session.external with
              | inSync =>
                  simp only [DocumentSession.currentExternalFingerprint, external,
                    FileState.markMissing, if_true] at version ⊢
                  cases presence : history.session.file.presence with
                  | missing => exact version
                  | present =>
                      -- The file had come back: this is the call that is left out.
                      exact absurd ⟨loses, external, presence, approval, given,
                        (Option.some.inj version).symm, lived, before, revision⟩ settled.revives
              | changed =>
                  simpa only [DocumentSession.currentExternalFingerprint, external]
                    using version
              | missing =>
                  simpa only [DocumentSession.currentExternalFingerprint, external]
                    using version
              | unverifiable =>
                  simp only [DocumentSession.currentExternalFingerprint, external] at version
                  cases version

/-- An approval current after settled calls was current before them, by induction on the calls. -/
theorem Sound.current_of_run (sound : Sound history) (run : Run Settled history final)
    {approval : ResolutionApproval} (given : approval ∈ history.issued) {kind : ResolutionKind}
    (current : final.session.approvalIsCurrent approval kind = true)
    : history.session.approvalIsCurrent approval kind = true := by
  induction run using Relation.ReflTransGen.head_induction_on with
  | refl => exact current
  | head step _ ih =>
      exact sound.current_of_step step given
        (ih (sound.step step) (step.issued_subset approval given))

/-- After a settled call that ends an approval, the approval is not current: it was before, if it
is, so the session is the one it was given for, and by what the call did one of the calls left
out was made.
-/
theorem Sound.ends (sound : Sound history) (possible : request.Possible history.session)
    (settled : Settled history request) {approval : ResolutionApproval}
    (given : approval ∈ history.issued) (ends : Ends history.session request approval)
    (kind : ResolutionKind)
    : (history.after request).session.approvalIsCurrent approval kind = false := by
  by_contra current
  have current := eq_true_of_ne_false current
  have before := sound.current_of_step (.call request possible settled) given current
  obtain ⟨_, live, generation, revision, version⟩ :=
    (DocumentSession.approvalIsCurrent_iff _ _ _).mp current
  obtain ⟨rfl, _, generation', revision', _⟩ :=
    (DocumentSession.approvalIsCurrent_iff _ _ _).mp before
  have live : (request.run history.session).liveApproval = some approval.serial := live
  have issues : request.issues history.session = none := by
    cases issued : request.issues history.session with
    | none => rfl
    | some fresh =>
        obtain ⟨⟨kind, rfl⟩, _, _, _, run⟩ := Request.issues_cases issued
        rw [run] at live
        exact absurd ⟨approval, given, (Option.some.inj live).symm⟩ settled.repeats
  have quiet : ¬ request.Disturbs history.session :=
    fun disturbs => settled.outlives ⟨disturbs, approval, given, before⟩
  obtain ⟨same, path, presence⟩ := Request.run_stillShown issues quiet
    (Option.isSome_of_eq_some live) approval.shown version
  cases ends with
  | edited next => exact next (revision.symm.trans revision')
  | version next => exact absurd same (ne_true_of_eq_false next)
  | presence next => exact next presence
  | path next => exact next path
  | renamed moves =>
      obtain ⟨identity, target, run⟩ := Request.run_of_movesFile moves
      have synced : history.session.external = .inSync :=
        Decidable.byContradiction fun known => quiet (.inr (.inl ⟨moves, known⟩))
      have version : (request.run history.session).currentExternalFingerprint
          = some approval.shown := version
      rw [run] at version
      simp only [DocumentSession.currentExternalFingerprint, DocumentSession.moveFile, synced,
        FileState.setIdentity] at version
      cases version
  | replaced next => exact next (generation.symm.trans generation')
  | newer given => simp [issues] at given
  | used consumed =>
      obtain ⟨_, gone, _⟩ := Request.live_of_consumes consumed
      rw [gone] at live
      cases live

/-- In every run of settled calls, an approval is used at most once, once it is not current it is
never current again, and after every call that ends it it is not current.
-/
theorem approvals_expire_for_good {start : History} (started : Started start)
    (first : Run Settled start middle) (rest : Run Settled middle final)
    {approval : ResolutionApproval} (given : approval ∈ middle.issued)
    : final.consumed.count approval ≤ 1
      ∧ (∀ kind, middle.session.approvalIsCurrent approval kind = false
          → final.session.approvalIsCurrent approval kind = false)
      ∧ ∀ request later,
          request.Possible final.session
          → Settled final request
          → Ends final.session request approval
          → Run Settled (final.after request) later
          → ∀ kind, later.session.approvalIsCurrent approval kind = false := by
  have sound := started.sound.run first
  have expired : ∀ {before after : History}, Sound before → Run Settled before after
      → approval ∈ before.issued → ∀ kind,
        before.session.approvalIsCurrent approval kind = false
        → after.session.approvalIsCurrent approval kind = false := by
    intro before after sound run given kind expired
    by_contra current
    have current := sound.current_of_run run given (eq_true_of_ne_false current)
    rw [expired] at current
    cases current
  refine ⟨?_, expired sound rest given, ?_⟩
  · have once := (sound.run rest).once
    exact List.nodup_iff_count.mp (List.Nodup.of_map _ once) approval
  · intro request later possible settled ends run kind
    have given := rest.issued_subset approval given
    have step : Step Settled final (final.after request) := .call request possible settled
    have ended := (sound.run rest).ends possible settled given ends kind
    exact expired ((sound.run rest).step step) run (step.issued_subset approval given) kind ended

-- The calls left out

/-- The first kind of call left out does bring an expired approval back. -/
theorem Revives.current (revives : history.Revives request)
    : ∃ approval ∈ history.issued,
        history.session.approvalIsCurrent approval approval.kind = false
        ∧ (history.after request).session.approvalIsCurrent approval approval.kind = true := by
  obtain ⟨loses, external, presence, approval, given, shown, live, generation, revision⟩ := revives
  refine ⟨approval, given, ?_, ?_⟩
  · refine eq_false_of_ne_true fun current => ?_
    obtain ⟨_, _, _, _, version⟩ := (DocumentSession.approvalIsCurrent_iff _ _ _).mp current
    simp only [DocumentSession.currentExternalFingerprint, external, presence] at version
    cases version
  · have session : (history.after request).session
        = { history.session with file := history.session.file.markMissing } :=
      Request.run_of_losesFile loses
    rw [session, DocumentSession.approvalIsCurrent_iff]
    refine ⟨rfl, live, generation, revision, ?_⟩
    simp only [DocumentSession.currentExternalFingerprint, external, shown]
    rfl

/-- The serials are counted from one, and wrap around. -/
structure Numbered (history : History) : Prop where
  next : history.session.approvalSerial = UInt64.ofNat history.issued.length
  earlier : ∀ approval ∈ history.issued,
    ∃ number, number < history.issued.length ∧ approval.serial = UInt64.ofNat (number + 1)

theorem Numbered.step {condition : History → Request → Prop} (numbered : Numbered history)
    (step : Step condition history final) : Numbered final := by
  cases step with
  | call request possible _ =>
      cases given : request.issues history.session with
      | none =>
          have issued : (history.after request).issued = history.issued := by
            simp only [after, given, Option.toList_none, List.nil_append]
          refine ⟨?_, ?_⟩
          · rw [issued, ← numbered.next]
            exact (Request.run_follows possible given).serial
          · rw [issued]
            exact numbered.earlier
      | some approval =>
          obtain ⟨_, serial, _, _, run⟩ := Request.issues_cases given
          have issued : (history.after request).issued = approval :: history.issued := by
            simp only [after, given, Option.toList_some, List.singleton_append]
          have serials : history.session.approvalSerial + 1
              = UInt64.ofNat (history.issued.length + 1) := by
            rw [numbered.next]
            exact (UInt64.ofNat_add _ _).symm
          refine ⟨?_, ?_⟩
          · rw [issued, List.length_cons, ← serials]
            exact congrArg (·.approvalSerial) run
          · rw [issued]
            intro other among
            rcases List.mem_cons.mp among with rfl | among
            · exact ⟨history.issued.length, Nat.lt_succ_self _, serial.trans serials⟩
            · obtain ⟨number, below, same⟩ := numbered.earlier other among
              exact ⟨number, Nat.lt_succ_of_lt below, same⟩

/-- The serials of every run are counted, by induction on the calls. -/
theorem Numbered.of_run {condition : History → Request → Prop} {start : History}
    (started : Started start) (run : Run condition start history)
    : Numbered history := by
  induction run with
  | refl => cases started <;> exact ⟨rfl, List.forall_mem_nil _⟩
  | tail _ step ih => exact ih.step step

/-- The second kind of call left out comes after 2^64 approvals. -/
theorem Repeats.exhausted {condition : History → Request → Prop} {start : History}
    (started : Started start) (run : Run condition start history)
    (repeats : history.Repeats request)
    : 2 ^ 64 ≤ history.issued.length := by
  have numbered := Numbered.of_run started run
  cases request
  case approve =>
    obtain ⟨approval, given, serial⟩ := repeats
    obtain ⟨number, below, numberOf⟩ := numbered.earlier approval given
    by_contra few
    have same : UInt64.ofNat (number + 1) = UInt64.ofNat (history.issued.length + 1) := by
      rw [← numberOf, serial, numbered.next]
      exact (UInt64.ofNat_add _ _).symm
    have same := congrArg UInt64.toNat same
    simp only [UInt64.toNat_ofNat'] at same
    omega
  all_goals cases repeats

-- A deleted file that comes back

/-- An empty document at one path. -/
def sampleFile : LoadedFile where
  document := RopeBuffer.fromRope []
  identity := .lexical [.rootDir, .normal "a"]
  stamp := none
  fingerprint := none

def sampleStart : History := ⟨.fromLoaded sampleFile, [], []⟩

def sampleDeleted : Request := .fileEvent (.deleted [.rootDir, .normal "a"])

/-- The user confirms that the missing file is to be written again. -/
def sampleApproving : Request := .approve .overwrite none

def sampleApproval : ResolutionApproval where
  kind := .overwrite
  generation := 0
  revision := 0
  shown := none
  serial := 1

/-- The file turns up under another name. -/
def sampleRenamed : Request :=
  .fileEvent (.renamed [.rootDir, .normal "a"] [.rootDir, .normal "b"])

def sampleDeletedAgain : Request := .fileEvent (.deleted [.rootDir, .normal "b"])

def sampleApproved : History := (sampleStart.after sampleDeleted).after sampleApproving

/-- The approval for the first path expires with the rename, and is current again for the second
path after its deletion; a write there is accepted under it.
-/
theorem approval_comes_back
    : ∃ start middle final : History,
        Started start
        ∧ Run (fun _ _ => True) start middle
        ∧ Run (fun _ _ => True) middle final
        ∧ ∃ approval ∈ middle.issued,
            middle.session.approvalIsCurrent approval .overwrite = false
            ∧ final.session.approvalIsCurrent approval .overwrite = true
            ∧ (final.session.requestConfirmedOverwrite approval).1.map (·.path)
              = some [.rootDir, .normal "b"] := by
  have deleted : Run (fun _ _ => True) sampleStart (sampleStart.after sampleDeleted) :=
    .single (.call sampleDeleted trivial trivial)
  have approved : Run (fun _ _ => True) sampleStart sampleApproved :=
    deleted.tail (.call sampleApproving trivial trivial)
  have renamed : Run (fun _ _ => True) sampleStart (sampleApproved.after sampleRenamed) :=
    approved.tail (.call sampleRenamed trivial trivial)
  exact ⟨sampleStart, sampleApproved.after sampleRenamed,
    (sampleApproved.after sampleRenamed).after sampleDeletedAgain, .loaded sampleFile, renamed,
    .single (.call sampleDeletedAgain trivial trivial), sampleApproval, by decide +kernel,
    by decide +kernel, by decide +kernel, by decide +kernel⟩

/-- Settled calls: the approval is current until the rename ends it, and another document taking
the session over does not bring it back.
-/
theorem approvals_expire_for_good_adopted
    : sampleApproved.session.approvalIsCurrent sampleApproval .overwrite = true
      ∧ sampleApproved.consumed.count sampleApproval ≤ 1
      ∧ ∀ kind,
        ((sampleApproved.after sampleRenamed).after (.adopt sampleFile)).session.approvalIsCurrent
          sampleApproval kind = false := by
  have deleted : Step Settled sampleStart (sampleStart.after sampleDeleted) :=
    .call sampleDeleted trivial (.of_nothing_issued rfl)
  have approved : Step Settled (sampleStart.after sampleDeleted) sampleApproved :=
    .call sampleApproving trivial (.of_nothing_issued rfl)
  have synced : sampleApproved.session.external = .inSync := rfl
  have renamed : Settled sampleApproved sampleRenamed := by
    refine .of_stays (by decide +kernel) (fun _ _ _ => ?_) fun _ _ => Request.noConfusion
    rintro (⟨loses, _⟩ | ⟨_, known⟩ | ⟨found, _⟩ | ⟨_, _, found, _⟩)
    · exact absurd loses (by decide +kernel)
    · exact known synced
    · cases found
    · cases found
  have adopted : Settled (sampleApproved.after sampleRenamed) (.adopt sampleFile) := by
    refine .of_stays rfl (fun _ _ _ => ?_) fun _ _ => Request.noConfusion
    rintro (⟨loses, _⟩ | ⟨moves, _⟩ | ⟨found, _⟩ | ⟨_, _, found, _⟩)
    · cases loses
    · cases moves
    · cases found
    · cases found
  obtain ⟨once, _, ends⟩ := approvals_expire_for_good (.loaded sampleFile)
    ((Relation.ReflTransGen.single deleted).tail approved) .refl
    (show sampleApproval ∈ sampleApproved.issued by decide +kernel)
  exact ⟨by decide +kernel, once, ends sampleRenamed _ trivial renamed
    (.renamed (by decide +kernel)) (.single (.call _ trivial adopted))⟩

end History

end Hane.Session
