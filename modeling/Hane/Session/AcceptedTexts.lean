import Hane.Editing.CaretRuns
import Hane.Session.Requests

/-! A session that shows no unsaved edits has the text it last accepted, and takes a text from the
disk only where no edit is lost, or where the user said so.
-/

namespace Hane.Session

open Hane.Document Hane.Editing

theorem edits_cases {before after : RopeBuffer} (edits : RopeBuffer.Edits before after)
    : after = before ∨ before.revision < after.revision := by
  induction edits with
  | refl => exact .inl rfl
  | tail edits edited _ =>
      obtain ⟨range, replacement, summary, ran⟩ := edited
      have earlier := RopeBuffer.Edits.revision_le edits
      obtain ⟨_, _, _, _, _, _, rfl⟩ := RopeBuffer.edit_cases ran
      exact .inr (Nat.lt_succ_of_le earlier)

-- Texts

namespace DocumentSession

def text (session : DocumentSession) : Text := session.editor.document.fullText

end DocumentSession

def DiskVersion.text : DiskVersion → Option Text
  | .present observed => some observed.document.fullText
  | _ => none

def ExternalState.text : ExternalState → Option Text
  | .changed observed => some observed.document.fullText
  | _ => none

/-- The text a call makes the accepted one, where `reserved` is that of the document when the save
slot was last taken.
-/
def Request.accepts (session : DocumentSession) (reserved : Text) : Request → Option Text
  | adopt loaded => some loaded.document.fullText
  | finishSave ticket result =>
    if (session.finishSave ticket result).1 = .saved then some reserved else none
  | finishCheck clock ticket result =>
    if (session.finishExternalCheck clock ticket result).1 = .reloaded then result.disk.text
    else none
  | reload clock approval =>
    if (session.applyConfirmedReload clock approval).1 = .reloaded then session.external.text
    else none
  | finishReload clock request disk =>
    if (session.finishConfirmedReload clock request disk).1 = .reloaded then disk.text else none
  | _ => none

/-- The write a call starts. -/
def Request.writes (session : DocumentSession) : Request → Option SaveJob
  | save inspected intent =>
    match (session.requestSave inspected intent).1 with
    | .write job => some job
    | _ => none
  | overwrite approval => (session.requestConfirmedOverwrite approval).1
  | _ => none

/-- A session with the text it last accepted, and its own text when its save slot was last taken. -/
structure Watched where
  session : DocumentSession
  accepted : Text
  reserved : Text

namespace Watched

def after (watched : Watched) (request : Request) : Watched where
  session := request.run watched.session
  accepted := (request.accepts watched.session watched.reserved).getD watched.accepted
  reserved :=
    if watched.session.inFlight.isNone && (request.run watched.session).inFlight.isSome then
      watched.session.text
    else watched.reserved

/-- A session that was just made. -/
inductive Started : Watched → Prop where
  | untitled (text reserved : Text) : Started ⟨.untitled text, text, reserved⟩
  | loaded (loaded : LoadedFile) (reserved : Text)
      : Started ⟨.fromLoaded loaded, loaded.document.fullText, reserved⟩

/-- One call. -/
inductive Step (watched : Watched) : Watched → Prop where
  | call (request : Request) (possible : request.Possible watched.session)
      : Step watched (watched.after request)

/-- Any number of calls in any order. -/
abbrev Run : Watched → Watched → Prop := Relation.ReflTransGen Step

end Watched

-- What a call does to the text

/-- A call other than an edit that brings another text into the document. -/
inductive Request.Replaces (session : DocumentSession) : Request → Text → Prop where
  | adopted (loaded : LoadedFile) : Replaces session (.adopt loaded) loaded.document.fullText
  | clean {clock : Clock} {ticket : ExternalCheckTicket} {result : ExternalCheckResult}
      {observed : ObservedFile}
      : result.disk = .present observed
        → session.isDirty = false
        → session.inFlight = none
        → Replaces session (.finishCheck clock ticket result) observed.document.fullText
  | confirmed {clock : Clock} {approval : ResolutionApproval} {observed : ObservedExternal}
      : session.approvalIsCurrent approval .discardAndReload = true
        → session.external = .changed observed
        → approval.shown = some observed.fingerprint
        → session.inFlight = none
        → Replaces session (.reload clock approval) observed.document.fullText
  | verified {clock : Clock} {request : ReloadVerifyRequest} {observed : ObservedFile}
      : session.approvalIsCurrent request.approval .discardAndReload = true
        → request.approval.shown = some observed.fingerprint
        → session.inFlight = none
        → Replaces session (.finishReload clock request (.present observed))
            observed.document.fullText

/-- A call that leaves the document and when it was saved, and at most takes or frees the slot. -/
structure Marked (session next : DocumentSession) : Prop where
  document : next.editor.document = session.editor.document
  saved : next.savedRevision = session.savedRevision
  slot : next.inFlight = session.inFlight
    ∨ next.inFlight = none
    ∨ session.inFlight = none ∧ next.inFlight = some session.nextTicket

/-- Such a call that learns nothing of the content of the file. -/
structure Unlearned (session next : DocumentSession) : Prop extends Marked session next where
  baseline : next.file.baseline = session.file.baseline
  external : ∀ observed, next.external = .changed observed → session.external = .changed observed

/-- What a call does to the text and the marks that tell whether it is saved. -/
inductive Turn (session : DocumentSession) (reserved : Text) (request : Request)
    (next : DocumentSession) : Prop where
  | keeps
      : Marked session next
        → request.accepts session reserved = none
        → Turn session reserved request next
  | edits {editor : Editor}
      : request = .edit editor
        → RopeBuffer.Edits session.editor.document next.editor.document
        → next.savedRevision = session.savedRevision
        → next.inFlight = session.inFlight
        → request.accepts session reserved = none
        → Turn session reserved request next
  | saves {ticket : SaveTicket}
      : next.editor.document = session.editor.document
        → session.inFlight = some ticket
        → session.revision = ticket.revision
        → next.savedRevision = ticket.revision
        → next.inFlight = none
        → request.accepts session reserved = some reserved
        → Turn session reserved request next
  | replaces {text : Text}
      : request.Replaces session text
        → next.text = text
        → next.savedRevision = next.revision
        → next.inFlight = none
        → request.accepts session reserved = some text
        → Turn session reserved request next

theorem reloadedEditor_document (before : Selection) (document : RopeBuffer) (clock : Clock)
    : (DocumentSession.reloadedEditor before document clock).document = document := by
  have settled : ((Editor.fromDocument document).settle clock).document = document :=
    (Editor.fromDocument document).breakGroup.commitComposition_document clock.composed
  unfold DocumentSession.reloadedEditor
  dsimp only
  rcases (Editor.fromDocument document).setSelection_cases
      ⟨DocumentSession.nearestValidOffset document before.anchor,
        DocumentSession.nearestValidOffset document before.active⟩ clock with
    ⟨problem, refused⟩ | ⟨-, taken⟩
  · rw [refused]
    exact settled
  · rw [taken]
    exact settled

namespace DocumentSession

variable (session : DocumentSession)

theorem replaceWithDisk_text (clock : Clock) (observed : ObservedFile)
    : (session.replaceWithDisk clock observed).text = observed.document.fullText :=
  congrArg RopeBuffer.fullText (reloadedEditor_document session.editor.selection _ clock)

theorem requestConfirmedOverwrite_unlearned (approval : ResolutionApproval)
    : Unlearned session (session.requestConfirmedOverwrite approval).2 := by
  unfold requestConfirmedOverwrite
  by_cases busy : session.inFlight.isSome = true
  · rw [if_pos busy]
    exact ⟨⟨rfl, rfl, .inl rfl⟩, rfl, fun _ same => same⟩
  · rw [if_neg busy]
    have free : session.inFlight = none := by simpa using busy
    split
    · exact ⟨⟨rfl, rfl, .inl rfl⟩, rfl, fun _ same => same⟩
    · split
      · exact ⟨⟨rfl, rfl, .inl rfl⟩, rfl, fun _ same => same⟩
      · exact ⟨⟨rfl, rfl, .inr (.inr ⟨free, rfl⟩)⟩, rfl, fun _ same => same⟩

theorem requestSave_unlearned (inspected : Path → Path → Bool) (intent : SaveIntent)
    : Unlearned session (session.requestSave inspected intent).2 := by
  unfold requestSave
  split
  case h_1 approval =>
    have unlearned := session.requestConfirmedOverwrite_unlearned approval
    split
    · exact ⟨⟨rfl, rfl, .inl rfl⟩, rfl, fun _ same => same⟩
    · generalize session.requestConfirmedOverwrite approval = outcome at unlearned
      obtain ⟨job, next⟩ := outcome
      cases job <;> exact unlearned
  case h_2 =>
    split
    · exact ⟨⟨rfl, rfl, .inl rfl⟩, rfl, fun _ same => same⟩
    · by_cases busy : session.inFlight.isSome = true
      · rw [if_pos busy]
        exact ⟨⟨rfl, rfl, .inl rfl⟩, rfl, fun _ same => same⟩
      · rw [if_neg busy]
        exact ⟨⟨rfl, rfl, .inr (.inr ⟨by simpa using busy, rfl⟩)⟩, rfl, fun _ same => same⟩

/-- A write takes the free slot with a snapshot of the document. -/
structure Snapshots (session : DocumentSession) (job : SaveJob) (next : DocumentSession)
    : Prop where
  free : session.inFlight = none
  document : job.document = session.editor.document
  slot : next.inFlight = some job.ticket

variable {session}

theorem requestConfirmedOverwrite_snapshots {approval : ResolutionApproval} {job : SaveJob}
    {next : DocumentSession}
    (ran : session.requestConfirmedOverwrite approval = (some job, next))
    : Snapshots session job next := by
  unfold requestConfirmedOverwrite at ran
  by_cases busy : session.inFlight.isSome = true
  · rw [if_pos busy] at ran
    cases ran
  · rw [if_neg busy] at ran
    split at ran
    · cases ran
    · split at ran
      · cases ran
      · cases ran
        exact ⟨by simpa using busy, rfl, rfl⟩

theorem requestSave_snapshots {inspected : Path → Path → Bool} {intent : SaveIntent}
    {job : SaveJob} {next : DocumentSession}
    (ran : session.requestSave inspected intent = (.write job, next))
    : Snapshots session job next := by
  unfold requestSave at ran
  split at ran
  case h_1 approval =>
    split at ran
    · cases ran
    · split at ran
      case h_1 job' started confirmed =>
        cases ran
        exact requestConfirmedOverwrite_snapshots confirmed
      · cases ran
  case h_2 =>
    split at ran
    · cases ran
    · by_cases busy : session.inFlight.isSome = true
      · rw [if_pos busy] at ran
        cases ran
      · rw [if_neg busy] at ran
        cases ran
        exact ⟨by simpa using busy, rfl, rfl⟩

theorem writes_snapshots {request : Request} {job : SaveJob}
    (writes : request.writes session = some job)
    : Snapshots session job (request.run session) := by
  cases request with
  | save inspected intent =>
      simp only [Request.writes] at writes
      split at writes
      case h_1 other decided =>
        cases writes
        exact requestSave_snapshots (Prod.ext decided rfl)
      · cases writes
  | overwrite approval => exact requestConfirmedOverwrite_snapshots (Prod.ext writes rfl)
  | _ => cases writes

variable (session)

theorem beginRename_unlearned : Unlearned session session.beginRename.2 := by
  unfold beginRename
  by_cases busy : session.inFlight.isSome = true
  · rw [if_pos busy]
    exact ⟨⟨rfl, rfl, .inl rfl⟩, rfl, fun _ same => same⟩
  · rw [if_neg busy]
    exact ⟨⟨rfl, rfl, .inr (.inr ⟨by simpa using busy, rfl⟩)⟩, rfl, fun _ same => same⟩

theorem finishRename_unlearned (ticket : SaveTicket)
    : Unlearned session (session.finishRename ticket) := by
  unfold finishRename
  split
  · exact ⟨⟨rfl, rfl, .inr (.inl rfl)⟩, rfl, fun _ same => same⟩
  · exact ⟨⟨rfl, rfl, .inl rfl⟩, rfl, fun _ same => same⟩

theorem landed_marked (saved : SavedFile) : Marked session (session.landed saved) := by
  unfold landed
  dsimp only
  split
  · exact ⟨rfl, rfl, .inl rfl⟩
  · exact ⟨rfl, rfl, .inl rfl⟩

theorem applyFileEvent_unlearned (event : FileEvent)
    : Unlearned session (session.applyFileEvent event).2 := by
  unfold applyFileEvent
  repeat' split
  all_goals exact ⟨⟨rfl, rfl, .inl rfl⟩, rfl, fun _ same => same⟩

theorem applyFolderDelete_unlearned (folder : Path)
    : Unlearned session (session.applyFolderDelete folder).2 := by
  unfold applyFolderDelete
  split
  all_goals exact ⟨⟨rfl, rfl, .inl rfl⟩, rfl, fun _ same => same⟩

theorem applyFolderRename_unlearned (source target : Path)
    : Unlearned session (session.applyFolderRename source target).2 := by
  unfold applyFolderRename
  repeat' split
  all_goals exact ⟨⟨rfl, rfl, .inl rfl⟩, rfl, fun _ same => same⟩

theorem beginExternalCheck_unlearned : Unlearned session session.beginExternalCheck.2 := by
  unfold beginExternalCheck
  repeat' split
  all_goals exact ⟨⟨rfl, rfl, .inl rfl⟩, rfl, fun _ same => same⟩

theorem abandonExternalCheck_unlearned (ticket : ExternalCheckTicket)
    : Unlearned session (session.abandonExternalCheck ticket) := by
  unfold abandonExternalCheck
  split
  all_goals exact ⟨⟨rfl, rfl, .inl rfl⟩, rfl, fun _ same => same⟩

theorem approveResolution_unlearned (kind : ResolutionKind) (shown : Option ContentFingerprint)
    : Unlearned session (session.approveResolution kind shown).2 := by
  unfold approveResolution
  split
  all_goals exact ⟨⟨rfl, rfl, .inl rfl⟩, rfl, fun _ same => same⟩

theorem beginConfirmedReload_unlearned (approval : ResolutionApproval)
    : Unlearned session (session.beginConfirmedReload approval).2 := by
  unfold beginConfirmedReload
  repeat' split
  all_goals exact ⟨⟨rfl, rfl, .inl rfl⟩, rfl, fun _ same => same⟩

variable (reserved : Text)

/-- A write whose snapshot is still the document makes it saved; every other result changes
neither the text nor when it was saved.
-/
theorem finishSave_turn (ticket : SaveTicket) (result : Except SaveFailure SavedFile)
    : Turn session reserved (.finishSave ticket result) (session.finishSave ticket result).2 := by
  by_cases here : session.inFlight = some ticket
  · cases result with
    | error failure =>
        have ran : (session.finishSave ticket (.error failure)).2
              = { session with inFlight := none, inFlightTarget := none }
            ∧ (session.finishSave ticket (.error failure)).1 ≠ .saved := by
          rw [finishSave, if_neg (not_not_intro here)]
          cases failure with
          | externalChange => exact ⟨rfl, by rintro ⟨⟩⟩
          | io error => exact ⟨rfl, by rintro ⟨⟩⟩
        refine .keeps ⟨?_, ?_, .inr (.inl ?_)⟩ (if_neg ran.2)
        all_goals rw [ran.1]
    | ok saved =>
        let free : DocumentSession := { session with inFlight := none, inFlightTarget := none }
        have marked := free.landed_marked saved
        have slot : (free.landed saved).inFlight = none := by
          rcases marked.slot with same | empty | ⟨-, taken⟩
          · exact same
          · exact empty
          · unfold landed at taken
            dsimp only at taken
            split at taken <;> cases taken
        by_cases same : (free.landed saved).revision = ticket.revision
        · have ran : session.finishSave ticket (.ok saved)
              = (.saved, { free.landed saved with savedRevision := ticket.revision }) := by
            rw [finishSave, if_neg (not_not_intro here)]
            exact if_pos same
          rw [ran]
          refine .saves marked.document here ?_ rfl slot ?_
          · rw [← same]
            exact (congrArg RopeBuffer.revision marked.document).symm
          · exact if_pos (congrArg Prod.fst ran)
        · have ran : session.finishSave ticket (.ok saved) = (.savedStale, free.landed saved) := by
            rw [finishSave, if_neg (not_not_intro here)]
            exact if_neg same
          have other : (session.finishSave ticket (.ok saved)).1 ≠ .saved := by
            rw [ran]
            rintro ⟨⟩
          rw [ran]
          exact .keeps ⟨marked.document, marked.saved, .inr (.inl slot)⟩ (if_neg other)
  · have ran : session.finishSave ticket result = (.superseded, session) := by
      rw [finishSave, if_pos here]
    have other : (session.finishSave ticket result).1 ≠ .saved := by
      rw [ran]
      rintro ⟨⟩
    rw [ran]
    exact .keeps ⟨rfl, rfl, .inl rfl⟩ (if_neg other)

/-- A call that takes over a text from the disk, in a session whose save slot is free. -/
structure Takes (session : DocumentSession) (text : Text) (next : DocumentSession) : Prop where
  free : session.inFlight = none
  text : next.text = text
  saved : next.savedRevision = next.revision
  slot : next.inFlight = none

theorem replaceWithDisk_takes (clock : Clock) (observed : ObservedFile)
    (free : session.inFlight = none)
    : Takes session observed.document.fullText (session.replaceWithDisk clock observed) :=
  ⟨free, session.replaceWithDisk_text clock observed, rfl, free⟩

/-- A read version is taken over only without unsaved edits. -/
theorem applyObserved_cases (clock : Clock) (ticket : ExternalCheckTicket)
    (observed : ObservedFile) (fingerprint : Option ContentFingerprint)
    : Marked session (session.applyObserved clock ticket observed fingerprint).2
          ∧ (session.applyObserved clock ticket observed fingerprint).1 ≠ .reloaded
      ∨ session.isDirty = false
        ∧ (session.applyObserved clock ticket observed fingerprint).1 = .reloaded
        ∧ Takes session observed.document.fullText
            (session.applyObserved clock ticket observed fingerprint).2 := by
  unfold applyObserved
  dsimp only
  split
  · exact .inl ⟨⟨rfl, rfl, .inl rfl⟩, by rintro ⟨⟩⟩
  · split
    case isTrue replace =>
      simp only [Bool.and_eq_true, Bool.not_eq_true', Option.isNone_iff_eq_none] at replace
      refine .inr ⟨replace.1.1.1, rfl, ?_⟩
      let prepared : DocumentSession :=
        { session with file := prepareFile session.file observed fingerprint }
      have takes := prepared.replaceWithDisk_takes clock observed replace.2
      exact ⟨takes.free, takes.text, takes.saved, takes.slot⟩
    case isFalse => exact .inl ⟨⟨rfl, rfl, .inl rfl⟩, by rintro ⟨⟩⟩

theorem finishExternalCheck_cases (clock : Clock) (ticket : ExternalCheckTicket)
    (result : ExternalCheckResult)
    : Marked session (session.finishExternalCheck clock ticket result).2
          ∧ (session.finishExternalCheck clock ticket result).1 ≠ .reloaded
      ∨ session.isDirty = false
        ∧ (session.finishExternalCheck clock ticket result).1 = .reloaded
        ∧ ∃ observed,
            result.disk = .present observed
            ∧ Takes session observed.document.fullText
                (session.finishExternalCheck clock ticket result).2 := by
  unfold finishExternalCheck
  split
  · exact .inl ⟨⟨rfl, rfl, .inl rfl⟩, by rintro ⟨⟩⟩
  · dsimp only
    split
    · exact .inl ⟨⟨rfl, rfl, .inl rfl⟩, by rintro ⟨⟩⟩
    · split
      · exact .inl ⟨⟨rfl, rfl, .inl rfl⟩, by rintro ⟨⟩⟩
      · split
        · exact .inl ⟨⟨rfl, rfl, .inl rfl⟩, by rintro ⟨⟩⟩
        · exact .inl ⟨⟨rfl, rfl, .inl rfl⟩, by rintro ⟨⟩⟩
        case h_3 observed present =>
          let checked : DocumentSession := { session with checkInFlight := none }
          rcases checked.applyObserved_cases clock ticket observed result.localFingerprint with
            ⟨marked, other⟩ | ⟨clean, reloaded, takes⟩
          · exact .inl ⟨⟨marked.document, marked.saved, marked.slot⟩, other⟩
          · refine .inr ⟨clean, reloaded, observed, present, ?_⟩
            exact ⟨takes.free, takes.text, takes.saved, takes.slot⟩

theorem finishExternalCheck_turn (clock : Clock) (ticket : ExternalCheckTicket)
    (result : ExternalCheckResult)
    : Turn session reserved (.finishCheck clock ticket result)
        (session.finishExternalCheck clock ticket result).2 := by
  rcases session.finishExternalCheck_cases clock ticket result with
    ⟨marked, other⟩ | ⟨clean, reloaded, observed, present, takes⟩
  · exact .keeps marked (if_neg other)
  · refine .replaces (.clean present clean takes.free) takes.text takes.saved takes.slot ?_
    rw [Request.accepts, if_pos reloaded, present, DiskVersion.text]

theorem approvalIsCurrent_shown {approval : ResolutionApproval} {kind : ResolutionKind}
    {observed : ObservedExternal} (current : session.approvalIsCurrent approval kind = true)
    (changed : session.external = .changed observed)
    : approval.shown = some observed.fingerprint := by
  have shown : session.currentExternalFingerprint = some approval.shown :=
    (of_decide_eq_true current).2.2.2.2
  rw [currentExternalFingerprint, changed] at shown
  exact (Option.some.inj shown).symm

theorem applyConfirmedReload_turn (clock : Clock) (approval : ResolutionApproval)
    : Turn session reserved (.reload clock approval)
        (session.applyConfirmedReload clock approval).2 := by
  have cases :
      (session.applyConfirmedReload clock approval).1 ≠ .reloaded
          ∧ (session.applyConfirmedReload clock approval).2 = session
        ∨ (session.applyConfirmedReload clock approval).1 = .reloaded
          ∧ ∃ observed,
              session.external = .changed observed
              ∧ session.approvalIsCurrent approval .discardAndReload = true
              ∧ Takes session observed.document.fullText
                  (session.applyConfirmedReload clock approval).2 := by
    unfold applyConfirmedReload
    split
    · exact .inl ⟨by rintro ⟨⟩, rfl⟩
    case isFalse idle =>
      split
      · exact .inl ⟨by rintro ⟨⟩, rfl⟩
      case isFalse current =>
        split
        case h_1 observed changed =>
          have free : session.inFlight = none := by
            simp only [isBusy, Bool.or_eq_true, not_or, Option.not_isSome_iff_eq_none] at idle
            exact idle.2
          refine .inr ⟨rfl, observed, changed, by simpa using current, ?_⟩
          let cleared : DocumentSession := { session with external := .inSync }
          have takes := cleared.replaceWithDisk_takes clock
            ⟨observed.document, observed.fingerprint, observed.stamp, none⟩ free
          exact ⟨takes.free, takes.text, takes.saved, takes.slot⟩
        · exact .inl ⟨by rintro ⟨⟩, rfl⟩
  rcases cases with ⟨other, same⟩ | ⟨reloaded, observed, changed, current, takes⟩
  · rw [same]
    exact .keeps ⟨rfl, rfl, .inl rfl⟩ (if_neg other)
  · refine .replaces
      (.confirmed current changed (session.approvalIsCurrent_shown current changed) takes.free)
      takes.text takes.saved takes.slot ?_
    rw [Request.accepts, if_pos reloaded, changed, ExternalState.text]

theorem finishConfirmedReload_turn (clock : Clock) (request : ReloadVerifyRequest)
    (disk : DiskVersion)
    : Turn session reserved (.finishReload clock request disk)
        (session.finishConfirmedReload clock request disk).2 := by
  have cases :
      (session.finishConfirmedReload clock request disk).1 ≠ .reloaded
          ∧ Marked session (session.finishConfirmedReload clock request disk).2
        ∨ (session.finishConfirmedReload clock request disk).1 = .reloaded
          ∧ ∃ observed,
              disk = .present observed
              ∧ session.approvalIsCurrent request.approval .discardAndReload = true
              ∧ request.approval.shown = some observed.fingerprint
              ∧ Takes session observed.document.fullText
                  (session.finishConfirmedReload clock request disk).2 := by
    unfold finishConfirmedReload
    split
    · exact .inl ⟨by rintro ⟨⟩, rfl, rfl, .inl rfl⟩
    · dsimp only
      split
      · exact .inl ⟨by rintro ⟨⟩, rfl, rfl, .inl rfl⟩
      case isFalse idle =>
        split
        case h_1 observed =>
          split
          case isTrue taken =>
            rw [Bool.and_eq_true, decide_eq_true_eq] at taken
            have free : session.inFlight = none := by
              simp only [isBusy, Bool.or_eq_true, not_or, Option.not_isSome_iff_eq_none] at idle
              exact idle.2
            let verified : DocumentSession := { session with verifyInFlight := none }
            have takes := verified.replaceWithDisk_takes clock observed free
            exact .inr ⟨rfl, observed, rfl, taken.1, taken.2, takes.free, takes.text, takes.saved,
              takes.slot⟩
          · exact .inl ⟨by rintro ⟨⟩, rfl, rfl, .inl rfl⟩
        · exact .inl ⟨by rintro ⟨⟩, rfl, rfl, .inl rfl⟩
        · exact .inl ⟨by rintro ⟨⟩, rfl, rfl, .inl rfl⟩
  rcases cases with ⟨other, marked⟩ | ⟨reloaded, observed, rfl, current, shown, takes⟩
  · exact .keeps marked (if_neg other)
  · refine .replaces (.verified current shown takes.free) takes.text takes.saved takes.slot ?_
    rw [Request.accepts, if_pos reloaded, DiskVersion.text]

end DocumentSession

/-- What a call does, by case on it. -/
theorem Request.turn {session : DocumentSession} {request : Request} (reserved : Text)
    (possible : request.Possible session)
    : Turn session reserved request (request.run session) := by
  cases request with
  | adopt loaded => exact .replaces (.adopted loaded) rfl rfl rfl rfl
  | edit next => exact .edits rfl possible rfl rfl rfl
  | noteEdit => exact .keeps ⟨rfl, rfl, .inl rfl⟩ rfl
  | save inspected intent =>
      exact .keeps (session.requestSave_unlearned inspected intent).toMarked rfl
  | overwrite approval =>
      exact .keeps (session.requestConfirmedOverwrite_unlearned approval).toMarked rfl
  | finishSave ticket result => exact session.finishSave_turn reserved ticket result
  | takePendingSave => exact .keeps ⟨rfl, rfl, .inl rfl⟩ rfl
  | beginRename => exact .keeps session.beginRename_unlearned.toMarked rfl
  | finishRename ticket => exact .keeps (session.finishRename_unlearned ticket).toMarked rfl
  | fileEvent event => exact .keeps (session.applyFileEvent_unlearned event).toMarked rfl
  | folderDelete folder => exact .keeps (session.applyFolderDelete_unlearned folder).toMarked rfl
  | folderRename source target =>
      exact .keeps (session.applyFolderRename_unlearned source target).toMarked rfl
  | takeRecheck => exact .keeps ⟨rfl, rfl, .inl rfl⟩ rfl
  | beginCheck => exact .keeps session.beginExternalCheck_unlearned.toMarked rfl
  | abandonCheck ticket => exact .keeps (session.abandonExternalCheck_unlearned ticket).toMarked rfl
  | finishCheck clock ticket result =>
      exact session.finishExternalCheck_turn reserved clock ticket result
  | approve kind shown => exact .keeps (session.approveResolution_unlearned kind shown).toMarked rfl
  | reload clock approval => exact session.applyConfirmedReload_turn reserved clock approval
  | beginReload approval =>
      exact .keeps (session.beginConfirmedReload_unlearned approval).toMarked rfl
  | finishReload clock request disk =>
      exact session.finishConfirmedReload_turn reserved clock request disk

-- Runs

namespace Watched

/-- What every call keeps: the text at the saved revision is the accepted one, and while a write
runs, the text at its revision is the one that was reserved.
-/
structure Faithful (watched : Watched) : Prop where
  saved : watched.session.savedRevision ≤ watched.session.revision
  clean : watched.session.revision = watched.session.savedRevision
    → watched.session.text = watched.accepted
  slot : ∀ ticket, watched.session.inFlight = some ticket
    → ticket.revision ≤ watched.session.revision
      ∧ (watched.session.revision = ticket.revision
        → watched.session.text = watched.reserved)

theorem Started.faithful {watched : Watched} (started : Started watched) : watched.Faithful := by
  cases started with
  | untitled text reserved =>
      refine ⟨Nat.le_refl _, fun _ => ?_, by rintro ticket ⟨⟩⟩
      exact List.append_nil text
  | loaded => exact ⟨Nat.le_refl _, fun _ => rfl, by rintro ticket ⟨⟩⟩

theorem reserved_slot {watched : Watched} {request : Request} {ticket : SaveTicket}
    (marked : Marked watched.session (request.run watched.session))
    (taken : (watched.after request).session.inFlight = some ticket)
    : watched.session.inFlight = some ticket ∧ (watched.after request).reserved = watched.reserved
      ∨ ticket.revision = watched.session.revision
        ∧ (watched.after request).reserved = watched.session.text := by
  have taken : (request.run watched.session).inFlight = some ticket := taken
  rcases marked.slot with same | free | ⟨free, fresh⟩
  · have held : watched.session.inFlight = some ticket := same.symm.trans taken
    refine .inl ⟨held, ?_⟩
    rw [after, held]
    rfl
  · rw [free] at taken
    cases taken
  · rw [fresh] at taken
    cases taken
    refine .inr ⟨rfl, ?_⟩
    rw [after, free, fresh]
    rfl

/-- A call that leaves the document keeps what is known of its text. -/
theorem Faithful.marked {watched : Watched} {request : Request} (faithful : watched.Faithful)
    (marked : Marked watched.session (request.run watched.session))
    (silent : request.accepts watched.session watched.reserved = none)
    : (watched.after request).Faithful := by
  have accepted : (watched.after request).accepted = watched.accepted := by
    rw [Watched.after, silent, Option.getD_none]
  have revision : (watched.after request).session.revision = watched.session.revision :=
    congrArg RopeBuffer.revision marked.document
  have text : (watched.after request).session.text = watched.session.text :=
    congrArg RopeBuffer.fullText marked.document
  have saved : (watched.after request).session.savedRevision = watched.session.savedRevision :=
    marked.saved
  refine ⟨?_, ?_, ?_⟩
  · rw [revision, saved]
    exact faithful.saved
  · rw [revision, saved, text, accepted]
    exact faithful.clean
  · intro ticket taken
    rw [revision, text]
    rcases reserved_slot marked taken with ⟨held, reserved⟩ | ⟨current, reserved⟩
    · rw [reserved]
      exact faithful.slot ticket held
    · rw [reserved]
      exact ⟨Nat.le_of_eq current, fun _ => rfl⟩

theorem Faithful.after {watched : Watched} {request : Request} (faithful : watched.Faithful)
    (possible : request.Possible watched.session) : (watched.after request).Faithful := by
  cases request.turn watched.reserved possible with
  | keeps marked silent => exact faithful.marked marked silent
  | edits _ edited saved slot silent =>
      rcases edits_cases edited with same | later
      · exact faithful.marked ⟨same, saved, .inl slot⟩ silent
      · have later : watched.session.revision < (watched.after request).session.revision := later
        have saved : (watched.after request).session.savedRevision
            = watched.session.savedRevision := saved
        have before := faithful.saved
        refine ⟨by omega, fun clean => by omega, fun ticket taken => ?_⟩
        have held := (faithful.slot ticket (slot.symm.trans taken)).1
        exact ⟨by omega, fun current => by omega⟩
  | @saves ticket document held current saved slot accepts =>
      have revision : (watched.after request).session.revision = watched.session.revision :=
        congrArg RopeBuffer.revision document
      have text : (watched.after request).session.text = watched.session.text :=
        congrArg RopeBuffer.fullText document
      have accepted : (watched.after request).accepted = watched.reserved := by
        rw [Watched.after, accepts, Option.getD_some]
      have saved : (watched.after request).session.savedRevision = ticket.revision := saved
      refine ⟨?_, fun _ => ?_, fun other taken => ?_⟩
      · rw [revision, saved, current]
      · rw [text, accepted]
        exact (faithful.slot ticket held).2 current
      · cases slot.symm.trans taken
  | @replaces replacement _ text saved slot accepts =>
      have accepted : (watched.after request).accepted = replacement := by
        rw [Watched.after, accepts, Option.getD_some]
      refine ⟨Nat.le_of_eq saved, fun _ => ?_, fun other taken => ?_⟩
      · rw [accepted]
        exact text
      · cases slot.symm.trans taken

theorem Faithful.run {start watched : Watched} (faithful : start.Faithful)
    (run : Run start watched) : watched.Faithful := by
  induction run with
  | refl => exact faithful
  | tail _ step ih =>
      cases step with
      | call request possible => exact ih.after possible

/-- Whatever is asked of a session in whatever order: without unsaved edits its text is the one it
last accepted, which is that of the file it opened or took over, or that of the document when the
slot was taken for a write that landed. Apart from edits, the text changes only by opening a file,
by a check while nothing is unsaved, and by a reload under an approval for exactly this document,
revision and version.
-/
theorem accepted_texts {start watched : Watched} (started : Started start)
    (run : Run start watched)
    : (watched.session.isDirty = false → watched.session.text = watched.accepted)
      ∧ (∀ request job, request.writes watched.session = some job
        → (watched.after request).session.inFlight = some job.ticket
          ∧ (watched.after request).reserved = job.document.fullText)
      ∧ ∀ request, request.Possible watched.session
          → (watched.after request).session.text ≠ watched.session.text
          → (∃ next, request = .edit next)
            ∨ request.Replaces watched.session (watched.after request).session.text := by
  have faithful := started.faithful.run run
  refine ⟨fun clean => faithful.clean ?_, ?_, ?_⟩
  · simpa [DocumentSession.isDirty] using clean
  · intro request job writes
    obtain ⟨free, document, slot⟩ := DocumentSession.writes_snapshots writes
    refine ⟨slot, ?_⟩
    rw [after, free, slot, document]
    rfl
  · intro request possible other
    cases request.turn watched.reserved possible with
    | keeps marked => exact absurd (congrArg RopeBuffer.fullText marked.document) other
    | @edits next is => exact .inl ⟨next, is⟩
    | saves document => exact absurd (congrArg RopeBuffer.fullText document) other
    | replaces cause text => exact .inr (text ▸ cause)

/-- A letter is typed behind another one. -/
def typedDocument : RopeBuffer :=
  (((RopeBuffer.fromText ['a']).edit ⟨1, 1⟩ ['b']).toOption.map Prod.snd).getD
    (RopeBuffer.fromText ['a'])

def typedStart : Watched := ⟨.untitled ['a'], ['a'], []⟩

def typedEdit : Request := .edit { typedStart.session.editor with document := typedDocument }

def typedSave : Request := .save (fun _ _ => false) (.to [.rootDir, .normal "f"])

def typedLanding : Request :=
  .finishSave ⟨0, 1, 1⟩ (.ok ⟨.lexical [.rootDir, .normal "f"], none, none⟩)

/-- A typed letter is saved. -/
theorem accepted_texts_typed
    : (((typedStart.after typedEdit).after typedSave).after typedLanding).session.text
        = ['a', 'b']
      ∧ (((typedStart.after typedEdit).after typedSave).after typedLanding).session.text
        = (((typedStart.after typedEdit).after typedSave).after typedLanding).accepted := by
  have edited : RopeBuffer.Edits typedStart.session.editor.document typedDocument :=
    .single ⟨⟨1, 1⟩, ['b'], _, rfl⟩
  have typed : Run typedStart (typedStart.after typedEdit) := .single (.call typedEdit edited)
  have started : Run typedStart ((typedStart.after typedEdit).after typedSave) :=
    typed.tail (.call typedSave trivial)
  have landed := started.tail (.call typedLanding trivial)
  exact ⟨by decide +kernel, (accepted_texts (.untitled ['a'] []) landed).1 (by decide +kernel)⟩

end Watched

end Hane.Session
