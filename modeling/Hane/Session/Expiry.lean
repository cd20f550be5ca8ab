import Hane.Session.Requests

/-! What each operation of a session does to the live approval. -/

namespace Hane.Session

open Hane.Document Hane.Editing

-- What a call does to the live approval

/-- A call that hands out no approval: it expires the live one, or leaves the document it is for
in place, perhaps edited.
-/
structure Follows (before after : DocumentSession) : Prop where
  serial : after.approvalSerial = before.approvalSerial
  live : after.liveApproval = none ∨ after.liveApproval = before.liveApproval
  generation : after.liveApproval.isSome → after.generation = before.generation
  revision : after.liveApproval.isSome → before.revision ≤ after.revision

/-- Such a call after which no expired approval is current again: the version to resolve may go
away, but none comes up under the live approval.
-/
structure Expires (before after : DocumentSession) : Prop extends Follows before after where
  version : after.liveApproval.isSome → ∀ shown,
    after.currentExternalFingerprint = some shown
    → before.currentExternalFingerprint = some shown

namespace Expires

variable {before middle after : DocumentSession}

theorem refl (session : DocumentSession) : Expires session session :=
  ⟨⟨rfl, .inr rfl, fun _ => rfl, fun _ => Nat.le_refl _⟩, fun _ _ same => same⟩

theorem kill (serial : after.approvalSerial = before.approvalSerial)
    (killed : after.liveApproval = none) : Expires before after := by
  have never : ¬ after.liveApproval.isSome := by simp [killed]
  exact ⟨⟨serial, .inl killed, fun live => absurd live never, fun live => absurd live never⟩,
    fun live => absurd live never⟩

theorem keep (serial : after.approvalSerial = before.approvalSerial)
    (live : after.liveApproval = before.liveApproval)
    (generation : after.generation = before.generation)
    (revision : before.revision ≤ after.revision)
    (version : ∀ shown, after.currentExternalFingerprint = some shown
      → before.currentExternalFingerprint = some shown)
    : Expires before after :=
  ⟨⟨serial, .inr live, fun _ => generation, fun _ => revision⟩, fun _ => version⟩

theorem trans (first : Expires before middle) (second : Expires middle after)
    : Expires before after := by
  have alive : after.liveApproval.isSome → middle.liveApproval.isSome := by
    intro live
    rcases second.live with killed | same
    · simp [killed] at live
    · rwa [← same]
  refine ⟨⟨second.serial.trans first.serial, ?_, ?_, ?_⟩, ?_⟩
  · rcases second.live with killed | same
    · exact .inl killed
    · rw [same]
      exact first.live
  · intro live
    exact (second.generation live).trans (first.generation (alive live))
  · intro live
    exact Nat.le_trans (first.revision (alive live)) (second.revision live)
  · intro live shown current
    exact first.version (alive live) shown (second.version live shown current)

end Expires

/-- Where an approval is still current, the external version, the path and the presence of the file
are the ones it was given for.
-/
def StillShown (before after : DocumentSession) : Prop :=
  after.liveApproval.isSome → ∀ shown, after.currentExternalFingerprint = some shown
    → before.external.sameVersion after.external = true
      ∧ after.file.path = before.file.path
      ∧ after.file.presence = before.file.presence

namespace StillShown

variable {before after : DocumentSession}

theorem kill (killed : after.liveApproval = none) : StillShown before after := by
  intro live
  rw [killed] at live
  cases live

theorem present (synced : after.external = .inSync) (present : after.file.presence = .present)
    : StillShown before after := by
  intro _ shown current
  simp only [DocumentSession.currentExternalFingerprint, synced, present] at current
  cases current

theorem keep (external : after.external = before.external)
    (path : after.file.path = before.file.path)
    (presence : after.file.presence = before.file.presence)
    : StillShown before after := by
  intro _ shown current
  refine ⟨?_, path, presence⟩
  rw [external]
  cases state : before.external <;> rw [state] at external <;>
    simp [DocumentSession.currentExternalFingerprint, ExternalState.sameVersion, external]
      at current ⊢

theorem set {state : ExternalState} (file : FileState)
    (path : file.path = before.file.path)
    (presence : before.external.sameVersion state = true → state ≠ .inSync
      → file.presence = before.file.presence)
    (present : state = .inSync → file.presence = .present)
    : StillShown before { before.setExternal state with file } := by
  by_cases same : before.external.sameVersion state = true
  · by_cases synced : state = .inSync
    · exact .present synced (present synced)
    · exact fun _ _ _ => ⟨same, path, presence same synced⟩
  · exact .kill (if_neg same)

end StillShown

/-- Two states of one version are of one kind, with one fingerprint, by cases on both. -/
theorem ExternalState.sameVersion_cases {old new : ExternalState}
    (same : old.sameVersion new = true)
    : old = new ∨ ∃ seen newer, old = .changed seen ∧ new = .changed newer
        ∧ seen.fingerprint = newer.fingerprint := by
  cases old <;> cases new <;> simp only [ExternalState.sameVersion] at same
  case inSync.inSync => exact .inl rfl
  case missing.missing => exact .inl rfl
  case changed.changed seen newer =>
    exact .inr ⟨seen, newer, rfl, rfl, of_decide_eq_true same⟩
  all_goals cases same

namespace DocumentSession

variable (session : DocumentSession)

theorem setExternal_expires (state : ExternalState)
    : Expires session (session.setExternal state) := by
  by_cases same : session.external.sameVersion state = true
  · refine .keep rfl (if_pos same) rfl (Nat.le_refl _) ?_
    intro shown current
    rcases ExternalState.sameVersion_cases same with rfl | ⟨seen, newer, old, rfl, fingerprint⟩
    · exact current
    · simpa only [currentExternalFingerprint, setExternal, old, fingerprint] using current
  · exact .kill rfl (if_neg same)

theorem present_expires {file : FileState} (present : file.presence = .present)
    : Expires session { session with file } := by
  refine .keep rfl rfl rfl (Nat.le_refl _) ?_
  intro shown current
  cases state : session.external <;>
    simp only [currentExternalFingerprint, state, present] at current ⊢
  · simp at current
  all_goals exact current

theorem samePresence_expires {file : FileState}
    (same : file.presence = session.file.presence)
    : Expires session { session with file } := by
  refine .keep rfl rfl rfl (Nat.le_refl _) ?_
  intro shown current
  simpa only [currentExternalFingerprint, same] using current

theorem adopt_expires (loaded : LoadedFile) : Expires session (session.adopt loaded) :=
  .kill rfl rfl

theorem replaceWithDisk_expires (clock : Clock) (observed : ObservedFile)
    : Expires session (session.replaceWithDisk clock observed) :=
  .kill rfl rfl

-- One lemma for each operation

theorem startWrite_expires (path : Path) (guard : OverwriteGuard)
    : Expires session (session.startWrite path guard).2 :=
  .keep rfl rfl rfl (Nat.le_refl _) fun _ same => same

theorem requestConfirmedOverwrite_expires (approval : ResolutionApproval)
    : Expires session (session.requestConfirmedOverwrite approval).2 := by
  unfold requestConfirmedOverwrite
  split
  · exact .refl _
  split
  · exact .refl _
  split
  · exact .refl _
  · exact .kill rfl rfl

theorem requestSave_expires (inspected : Path → Path → Bool) (intent : SaveIntent)
    : Expires session (session.requestSave inspected intent).2 := by
  have queued : ∀ pending, Expires session { session with pendingSave := some pending } :=
    fun pending => .keep rfl rfl rfl (Nat.le_refl _) fun _ same => same
  unfold requestSave
  split
  · split
    · exact queued _
    · rename_i approval _
      have overwritten := session.requestConfirmedOverwrite_expires approval
      split <;> simpa only [*] using overwritten
  · split
    · exact .refl _
    · split
      · exact queued _
      · rename_i path guard _ _
        exact session.startWrite_expires path guard

/-- A write that reached the disk leaves the file present. -/
theorem landed_expires (saved : SavedFile) : Expires session (session.landed saved) := by
  unfold landed
  dsimp only
  split
  · exact .kill rfl rfl
  · exact .trans (session.present_expires rfl)
      (.keep rfl rfl rfl (Nat.le_refl _) fun _ same => same)

theorem finishSave_expires (ticket : SaveTicket) (result : Except SaveFailure SavedFile)
    : Expires session (session.finishSave ticket result).2 := by
  have freed : Expires session { session with inFlight := none, inFlightTarget := none } :=
    .keep rfl rfl rfl (Nat.le_refl _) fun _ same => same
  unfold finishSave
  split
  · exact .refl _
  split
  · rename_i saved
    have landed := freed.trans (landed_expires _ saved)
    dsimp only
    split
    · exact landed.trans (.keep rfl rfl rfl (Nat.le_refl _) fun _ same => same)
    · exact landed
  · exact freed
  · exact freed

theorem beginRename_expires : Expires session session.beginRename.2 := by
  unfold beginRename
  split
  · exact .refl _
  · exact .keep rfl rfl rfl (Nat.le_refl _) fun _ same => same

theorem finishRename_expires (ticket : SaveTicket)
    : Expires session (session.finishRename ticket) := by
  unfold finishRename
  split
  · exact .keep rfl rfl rfl (Nat.le_refl _) fun _ same => same
  · exact .refl _

theorem beginExternalCheck_expires : Expires session session.beginExternalCheck.2 := by
  unfold beginExternalCheck
  split
  · exact .refl _
  split <;> exact .keep rfl rfl rfl (Nat.le_refl _) fun _ same => same

theorem abandonExternalCheck_expires (ticket : ExternalCheckTicket)
    : Expires session (session.abandonExternalCheck ticket) := by
  unfold abandonExternalCheck
  split
  · exact .keep rfl rfl rfl (Nat.le_refl _) fun _ same => same
  · exact .refl _

theorem prepareFile_presence (file : FileState) (observed : ObservedFile)
    (localFingerprint : Option ContentFingerprint)
    : (prepareFile file observed localFingerprint).presence = file.presence := by
  unfold prepareFile
  dsimp only
  split <;> split <;> rfl

theorem applyObserved_expires (clock : Clock) (ticket : ExternalCheckTicket)
    (observed : ObservedFile) (localFingerprint : Option ContentFingerprint)
    : Expires session (session.applyObserved clock ticket observed localFingerprint).2 := by
  have prepared := session.samePresence_expires
    (prepareFile_presence session.file observed localFingerprint)
  refine prepared.trans ?_
  unfold applyObserved
  dsimp only
  split
  · exact .trans (present_expires _ rfl) (setExternal_expires _ _)
  split
  · exact replaceWithDisk_expires _ clock observed
  · exact .trans (present_expires _ rfl) (setExternal_expires _ _)

theorem gone_expires
    : Expires session
        { session.setExternal .missing with
          file := (session.setExternal .missing).file.markMissing } :=
  (session.setExternal_expires .missing).trans
    (.keep rfl rfl rfl (Nat.le_refl _) fun _ same => same)

theorem finishExternalCheck_expires (clock : Clock) (ticket : ExternalCheckTicket)
    (result : ExternalCheckResult)
    : Expires session (session.finishExternalCheck clock ticket result).2 := by
  have freed : Expires session { session with checkInFlight := none } :=
    .keep rfl rfl rfl (Nat.le_refl _) fun _ same => same
  unfold finishExternalCheck
  split
  · exact .refl _
  refine freed.trans ?_
  dsimp only
  split
  · exact .refl _
  split
  · exact .keep rfl rfl rfl (Nat.le_refl _) fun _ same => same
  split
  · exact gone_expires _
  · exact setExternal_expires _ _
  · exact applyObserved_expires _ clock ticket _ _

theorem applyConfirmedReload_expires (clock : Clock) (approval : ResolutionApproval)
    : Expires session (session.applyConfirmedReload clock approval).2 := by
  unfold applyConfirmedReload
  split
  · exact .refl _
  split
  · exact .refl _
  split
  · exact .kill rfl rfl
  · exact .refl _

theorem beginConfirmedReload_expires (approval : ResolutionApproval)
    : Expires session (session.beginConfirmedReload approval).2 := by
  unfold beginConfirmedReload
  split
  · exact .refl _
  split
  · exact .refl _
  split
  · exact .keep rfl rfl rfl (Nat.le_refl _) fun _ same => same
  · exact .refl _

theorem finishConfirmedReload_expires (clock : Clock) (request : ReloadVerifyRequest)
    (disk : DiskVersion)
    : Expires session (session.finishConfirmedReload clock request disk).2 := by
  have freed : Expires session { session with verifyInFlight := none } :=
    .keep rfl rfl rfl (Nat.le_refl _) fun _ same => same
  unfold finishConfirmedReload
  split
  · exact .refl _
  refine freed.trans ?_
  dsimp only
  split
  · exact .refl _
  split
  · split
    · exact replaceWithDisk_expires _ clock _
    · exact .trans (present_expires _ rfl) (setExternal_expires _ _)
  · exact gone_expires _
  · exact setExternal_expires _ _

theorem moveFile_expires (identity : FileIdentity) (target : Path)
    : Expires session (session.moveFile identity target) :=
  session.present_expires rfl

theorem applyFolderRename_expires (source target : Path)
    : Expires session (session.applyFolderRename source target).2 := by
  unfold applyFolderRename
  split
  · exact .refl _
  split
  · exact .refl _
  · exact session.moveFile_expires _ _

-- What leaves the version and the file as they were

theorem requestConfirmedOverwrite_stillShown (approval : ResolutionApproval)
    : StillShown session (session.requestConfirmedOverwrite approval).2 := by
  unfold requestConfirmedOverwrite
  split
  · exact .keep rfl rfl rfl
  split
  · exact .keep rfl rfl rfl
  split <;> exact .keep rfl rfl rfl

theorem requestSave_stillShown (inspected : Path → Path → Bool) (intent : SaveIntent)
    : StillShown session (session.requestSave inspected intent).2 := by
  unfold requestSave
  split
  · split
    · exact .keep rfl rfl rfl
    · rename_i approval _
      have overwritten := session.requestConfirmedOverwrite_stillShown approval
      split <;> simpa only [*] using overwritten
  · split
    · exact .keep rfl rfl rfl
    · split <;> exact .keep rfl rfl rfl

/-- A write that reached the disk resolves every version but the one in sync. -/
theorem landed_stillShown (saved : SavedFile) : StillShown session (session.landed saved) := by
  unfold landed
  dsimp only
  split
  · exact .kill rfl
  · rename_i synced
    refine .present ?_ rfl
    cases state : session.external <;>
      simp [externalStatus, state, FileState.setBaseline, FileState.setIdentity] at synced ⊢

theorem finishSave_stillShown (ticket : SaveTicket) (result : Except SaveFailure SavedFile)
    : StillShown session (session.finishSave ticket result).2 := by
  unfold finishSave
  split
  · exact .keep rfl rfl rfl
  split
  · rename_i saved
    have landed := landed_stillShown
      { session with inFlight := none, inFlightTarget := none } saved
    dsimp only
    split <;> exact landed
  · exact .keep rfl rfl rfl
  · exact .keep rfl rfl rfl

theorem prepareFile_path (file : FileState) (observed : ObservedFile)
    (localFingerprint : Option ContentFingerprint)
    : (prepareFile file observed localFingerprint).path = file.path := by
  have followed : ∀ canonical, (file.refreshCanonical canonical).path = file.path := by
    intro canonical
    unfold FileState.refreshCanonical FileState.path
    cases file.identity <;> rfl
  unfold prepareFile
  dsimp only
  split <;> split <;> first | rfl | exact followed _

theorem applyObserved_stillShown (clock : Clock) (ticket : ExternalCheckTicket)
    (observed : ObservedFile) (localFingerprint : Option ContentFingerprint)
    (known : isSameVersion (prepareFile session.file observed localFingerprint) observed = false
      → (!session.isDirty && session.revision == ticket.revision && session.editor.ime.isNone
          && session.inFlight.isNone) = false
      → (∃ seen, session.external = .changed seen
          ∧ seen.fingerprint = observed.fingerprint)
      → session.file.presence = .present)
    : StillShown session
        (session.applyObserved clock ticket observed localFingerprint).2 := by
  have path := prepareFile_path session.file observed localFingerprint
  unfold applyObserved
  dsimp only
  split
  · exact .set _ path (fun _ other => absurd rfl other) fun _ => rfl
  split
  · exact .kill rfl
  · rename_i other kept
    refine .set _ path (fun same _ => ?_) fun synced => nomatch synced
    refine (known (eq_false_of_ne_true other) (eq_false_of_ne_true kept) ?_).symm
    rcases ExternalState.sameVersion_cases same with
      same | ⟨seen, newer, state, same, fingerprint⟩
    · exact ⟨_, same, rfl⟩
    · obtain rfl := ExternalState.changed.inj same
      exact ⟨seen, state, fingerprint⟩

theorem gone_stillShown (known : session.external = .missing → session.file.presence = .missing)
    : StillShown session
        { session.setExternal .missing with
          file := (session.setExternal .missing).file.markMissing } := by
  refine .set _ rfl (fun same _ => ?_) fun synced => nomatch synced
  rcases ExternalState.sameVersion_cases same with same | ⟨_, _, _, same, _⟩
  · exact (known same).symm
  · cases same

theorem moveFile_stillShown (identity : FileIdentity) (target : Path)
    (synced : session.external = .inSync)
    : StillShown session (session.moveFile identity target) :=
  .present synced rfl

end DocumentSession

end Hane.Session
