import Hane.Ai.Connect
import Mathlib.Logic.Function.Basic

/-! What the stores may answer, what a crash inside a call may leave, and what each piece of the
credential programs does to them.
-/

namespace Hane.Ai

open Hane.Foundations

/-- An entry that left the journal, with what was stored at that moment. -/
structure DroppedOperation where
  operation : CredentialOperation
  settings : Option AiSettings
  secrets : CredentialRef → Option String

/-- The settings file as it is read, the earlier contents that a loss of power may bring back,
the journal, the secrets, the references given out and the entries dropped so far.
-/
structure CredentialState where
  settings : Option AiSettings
  unsynced : List (Option AiSettings)
  journal : List CredentialOperation
  secrets : CredentialRef → Option String
  issued : List CredentialRef
  dropped : List DroppedOperation

/-- The credential reference of a settings file; a missing file has none. -/
def referenceOf (contents : Option AiSettings) : Option CredentialRef :=
  (contents.getD .default).credentialRef

/-- Two entries are of one operation, whatever its progress. -/
def CredentialOperation.SameOperation (left right : CredentialOperation) : Prop :=
  left.kind = right.kind ∧ left.newCredentialRef = right.newCredentialRef
    ∧ left.oldCredentialRef = right.oldCredentialRef

instance (left right : CredentialOperation) : Decidable (left.SameOperation right) := by
  unfold CredentialOperation.SameOperation
  infer_instance

namespace CredentialState

/-- A replacement of the settings that may not survive a loss of power. -/
def swapping (state : CredentialState) (settings : AiSettings) : CredentialState :=
  { state with settings := some settings, unsynced := state.settings :: state.unsynced }

/-- A replacement of the settings that survives. -/
def syncing (state : CredentialState) (settings : AiSettings) : CredentialState :=
  { state with settings := some settings, unsynced := [] }

def storing (state : CredentialState) (operations : List CredentialOperation) : CredentialState :=
  { state with
    journal := operations
    dropped :=
      (state.journal.filter fun operation => ¬ operations.any (operation.SameOperation ·)).map
          (fun operation => ⟨operation, state.settings, state.secrets⟩)
        ++ state.dropped }

def keeping (state : CredentialState) (credentialRef : CredentialRef) (secret : String)
    : CredentialState :=
  { state with secrets := Function.update state.secrets credentialRef (some secret) }

def removing (state : CredentialState) (credentialRef : CredentialRef) : CredentialState :=
  { state with secrets := Function.update state.secrets credentialRef none }

def issuing (state : CredentialState) (credentialRef : CredentialRef) : CredentialState :=
  { state with issued := credentialRef :: state.issued }

end CredentialState

/-- The answers of the outside. Where operations may fail, any call but the issuing of a reference
may; a failed change of a secret may have taken effect, and a replacement that reports a failed
sync has.
-/
inductive CredentialAnswers (mayFail : Prop)
    : CredentialState → (call : CredentialCall) → call.Answer → CredentialState → Prop where
  | acquired (state : CredentialState)
      : CredentialAnswers mayFail state .tryAcquireExclusive (.ok true) state
  | refused (state : CredentialState) (outcome : Except IoError Bool) (fails : mayFail)
      : CredentialAnswers mayFail state .tryAcquireExclusive outcome state
  | settingsRead (state : CredentialState)
      : CredentialAnswers mayFail state .readSettings (.ok state.settings) state
  | settingsUnread (state : CredentialState) (error : IoError) (fails : mayFail)
      : CredentialAnswers mayFail state .readSettings (.error error) state
  | settingsReplaced (state : CredentialState) (settings : AiSettings)
      : CredentialAnswers mayFail state (.replaceSettings settings) (.ok ())
          (state.syncing settings)
  | settingsKept (state : CredentialState) (settings : AiSettings) (error : IoError)
      (fails : mayFail)
      : CredentialAnswers mayFail state (.replaceSettings settings)
          (.error (.notPersisted error)) state
  | settingsSwapped (state : CredentialState) (settings : AiSettings) (error : IoError)
      (fails : mayFail)
      : CredentialAnswers mayFail state (.replaceSettings settings)
          (.error (.renameSucceededSyncFailed error)) (state.swapping settings)
  | journalRead (state : CredentialState)
      : CredentialAnswers mayFail state .readJournal (.ok state.journal) state
  | journalUnread (state : CredentialState) (error : IoError) (fails : mayFail)
      : CredentialAnswers mayFail state .readJournal (.error error) state
  | journalReplaced (state : CredentialState) (operations : List CredentialOperation)
      : CredentialAnswers mayFail state (.replaceJournal operations) (.ok ())
          (state.storing operations)
  | journalKept (state : CredentialState) (operations : List CredentialOperation)
      (error : IoError) (fails : mayFail)
      : CredentialAnswers mayFail state (.replaceJournal operations)
          (.error (.notPersisted error)) state
  | journalUnsynced (state : CredentialState) (operations : List CredentialOperation)
      (error : IoError) (fails : mayFail)
      : CredentialAnswers mayFail state (.replaceJournal operations)
          (.error (.renameSucceededSyncFailed error)) (state.storing operations)
  | generated (state : CredentialState) (credentialRef : CredentialRef)
      (fresh : credentialRef ∉ state.issued)
      : CredentialAnswers mayFail state .generate credentialRef (state.issuing credentialRef)
  | secretSet (state : CredentialState) (credentialRef : CredentialRef) (secret : String)
      : CredentialAnswers mayFail state (.set credentialRef secret) (.ok ())
          (state.keeping credentialRef secret)
  | secretUnsure (state final : CredentialState) (credentialRef : CredentialRef)
      (secret : String) (error : CredentialStoreError) (fails : mayFail)
      (either : final = state ∨ final = state.keeping credentialRef secret)
      : CredentialAnswers mayFail state (.set credentialRef secret) (.error error) final
  | secretDeleted (state : CredentialState) (credentialRef : CredentialRef)
      : CredentialAnswers mayFail state (.delete credentialRef) (.ok ())
          (state.removing credentialRef)
  | deletionUnsure (state final : CredentialState) (credentialRef : CredentialRef)
      (error : CredentialStoreError) (fails : mayFail)
      (either : final = state ∨ final = state.removing credentialRef)
      : CredentialAnswers mayFail state (.delete credentialRef) (.error error) final

/-- A crash inside a call that changes something: the change is there, unsynced if it is to the
settings.
-/
inductive CredentialTears : CredentialState → CredentialCall → CredentialState → Prop where
  | swapped (state : CredentialState) (settings : AiSettings)
      : CredentialTears state (.replaceSettings settings) (state.swapping settings)
  | journaled (state : CredentialState) (operations : List CredentialOperation)
      : CredentialTears state (.replaceJournal operations) (state.storing operations)
  | kept (state : CredentialState) (credentialRef : CredentialRef) (secret : String)
      : CredentialTears state (.set credentialRef secret) (state.keeping credentialRef secret)
  | removed (state : CredentialState) (credentialRef : CredentialRef)
      : CredentialTears state (.delete credentialRef) (state.removing credentialRef)

def credentialOutside (mayFail : Prop) : Outside CredentialState CredentialCall.Answer :=
  ⟨CredentialAnswers mayFail, fun state call torn => mayFail ∧ CredentialTears state call torn⟩

/-- A program over the stores, verified against the outside. -/
abbrev Does {ε α : Type} (mayFail : Prop) (kept : CredentialState → Prop)
    (fine : α → CredentialState → Prop) (failed : ε → CredentialState → Prop)
    (program : Asking ε α) (state : CredentialState) : Prop :=
  Program.Performs (credentialOutside mayFail) kept fine failed program state

section Calls

variable {mayFail : Prop} {kept : CredentialState → Prop} {state : CredentialState}

theorem does_caught {ε ε' α : Type} {fine : α → CredentialState → Prop}
    {failed : ε → CredentialState → Prop} {failing : ε' → CredentialState → Prop}
    {program : Asking ε α} (does : Does mayFail kept fine failed program state)
    : Does mayFail kept (Program.byOutcome fine failed) failing (caught program) state :=
  Program.Ensures.map does fun _ _ _ reached => reached

theorem does_succeeds {ε ε' α : Type} {fine : CredentialState → Prop}
    {failed : CredentialState → Prop} {failing : ε' → CredentialState → Prop}
    {program : Asking ε α}
    (does : Does mayFail kept (fun _ => fine) (fun _ => failed) program state)
    : Does mayFail kept (fun ok final => if ok then fine final else failed final) failing
        (succeeds program) state := by
  apply Program.Ensures.map does
  intro outcome final _ reached
  cases outcome with
  | ok value => simpa [Program.byOutcome, Except.isOk, Except.toBool] using reached
  | error problem => simpa [Program.byOutcome, Except.isOk, Except.toBool] using reached

theorem does_succeeds_either {ε ε' α : Type} {post : CredentialState → Prop}
    {failing : ε' → CredentialState → Prop} {program : Asking ε α}
    (does : Does mayFail kept (fun _ => post) (fun _ => post) program state)
    : Does mayFail kept (fun _ => post) failing (succeeds program) state := by
  refine (does_succeeds does).mono ?_ fun _ _ _ => id
  intro ok final _ reached
  cases ok with
  | true => exact reached
  | false => exact reached

theorem ensures_ask {call : CredentialCall} (holds : kept state)
    (torn : ∀ final, CredentialTears state call final → kept final)
    (answered : ∀ answer final, CredentialAnswers mayFail state call answer final → kept final)
    : Program.Ensures (credentialOutside mayFail) kept (CredentialAnswers mayFail state call)
        (ask call) state :=
  ⟨holds, fun final tears => torn final tears.2,
    fun answer final answers => ⟨answered answer final answers, answers⟩⟩

theorem does_load (holds : kept state)
    : Does mayFail kept
        (fun settings final => final = state ∧ settings = state.settings.getD .default)
        (fun _ final => final = state) AiSettingsStore.load state := by
  refine Program.Performs.bind (fun contents final => final = state ∧ contents = state.settings)
    ⟨holds, nofun, ?_⟩ ?_
  · intro answer final answers
    cases answers with
    | settingsRead => exact ⟨holds, rfl, rfl⟩
    | settingsUnread => exact ⟨holds, rfl⟩
  · intro contents final same reached
    obtain ⟨rfl, rfl⟩ := reached
    cases found : final.settings with
    | none => exact .pure holds ⟨rfl, rfl⟩
    | some settings =>
        apply Program.Performs.ite
        · intro newer
          exact ⟨holds, rfl⟩
        · intro supported
          exact .pure holds ⟨rfl, rfl⟩

theorem does_pendingOperations (holds : kept state)
    : Does mayFail kept (fun operations final => final = state ∧ operations = state.journal)
        (fun _ final => final = state) CredentialJournal.pendingOperations state := by
  refine ⟨holds, nofun, ?_⟩
  intro answer final answers
  cases answers with
  | journalRead => exact ⟨holds, rfl, rfl⟩
  | journalUnread => exact ⟨holds, rfl⟩

/-- A journal that was read and is written anew: whatever is reported, the entries are the old
ones or the new ones.
-/
theorem does_rewrite {change : List CredentialOperation → List CredentialOperation}
    (holds : kept state) (stored : kept (state.storing (change state.journal)))
    : Does mayFail kept (fun _ final => final = state.storing (change state.journal))
        (fun _ final => final = state ∨ final = state.storing (change state.journal))
        (do
          let operations ← CredentialJournal.pendingOperations
          CredentialJournal.write (change operations)) state := by
  refine Program.Performs.bind (fun operations final => final = state ∧ operations = state.journal)
    ((does_pendingOperations holds).mono (fun _ _ _ => id) fun _ _ _ => .inl) ?_
  intro operations final _ reached
  obtain ⟨rfl, rfl⟩ := reached
  apply Program.Ensures.map (ensures_ask holds _ _)
  · intro answer after _ answers
    cases answers with
    | journalReplaced => rfl
    | journalKept => exact .inl rfl
    | journalUnsynced => exact .inr rfl
  · intro torn tears
    cases tears with
    | journaled => exact stored
  · intro answer after answers
    cases answers with
    | journalReplaced => exact stored
    | journalKept => exact holds
    | journalUnsynced => exact stored

theorem does_setSecret {credentialRef : CredentialRef} {secret : String} (holds : kept state)
    (stored : kept (state.keeping credentialRef secret))
    : Does mayFail kept (fun _ final => final = state.keeping credentialRef secret)
        (fun _ final => final = state ∨ final = state.keeping credentialRef secret)
        (setSecret credentialRef secret) state := by
  refine ⟨holds, ?_, ?_⟩
  · intro torn tears
    cases tears.2 with
    | kept => exact stored
  · intro answer final answers
    cases answers with
    | secretSet => exact ⟨stored, rfl⟩
    | secretUnsure _ _ _ error fails either =>
        rcases either with rfl | rfl
        · exact ⟨holds, .inl rfl⟩
        · exact ⟨stored, .inr rfl⟩

theorem does_deleteSecret {credentialRef : CredentialRef} (holds : kept state)
    (removed : kept (state.removing credentialRef))
    : Does mayFail kept (fun _ final => final = state.removing credentialRef)
        (fun _ final => mayFail ∧ (final = state ∨ final = state.removing credentialRef))
        (deleteSecret credentialRef) state := by
  refine ⟨holds, ?_, ?_⟩
  · intro torn tears
    cases tears.2 with
    | removed => exact removed
  · intro answer final answers
    cases answers with
    | secretDeleted => exact ⟨removed, rfl⟩
    | deletionUnsure _ _ error fails either =>
        rcases either with rfl | rfl
        · exact ⟨holds, fails, .inl rfl⟩
        · exact ⟨removed, fails, .inr rfl⟩

/-- How a guarded write of the settings may fail: unconfirmed, or with nothing written. -/
inductive WriteFails (mayFail : Prop) (store : AiSettingsStore) (owner guard : LockGuard)
    (expectedRevision : Nat) (newSettings : AiSettings) (state : CredentialState)
    : SaveError → CredentialState → Prop where
  | unconfirmed (error : IoError) (fails : mayFail)
      : WriteFails mayFail store owner guard expectedRevision newSettings state
          (.persistedDurabilityUnconfirmed error)
          (state.swapping
            (AiSettingsStore.stamped (state.settings.getD .default) newSettings))
  | io (error : IoError)
      : WriteFails mayFail store owner guard expectedRevision newSettings state (.io error) state
  | refused {error : SaveError} (confirmed : ∀ failure, error ≠ .persistedDurabilityUnconfirmed failure)
      (mismatch : owner.path ≠ store.ownerLockPath ∨ guard.path ≠ store.lockPath
        ∨ (state.settings.getD .default).revision ≠ expectedRevision)
      : WriteFails mayFail store owner guard expectedRevision newSettings state error state

theorem does_writeWhileLocked {store : AiSettingsStore} {owner guard : LockGuard}
    {expectedRevision : Nat} {newSettings : AiSettings} (holds : kept state)
    (swapped :
      kept (state.swapping (AiSettingsStore.stamped (state.settings.getD .default) newSettings)))
    (synced :
      kept (state.syncing (AiSettingsStore.stamped (state.settings.getD .default) newSettings)))
    : Does mayFail kept
        (fun saved final =>
          saved = AiSettingsStore.stamped (state.settings.getD .default) newSettings
            ∧ final = state.syncing saved)
        (WriteFails mayFail store owner guard expectedRevision newSettings state)
        (store.writeWhileLocked owner guard expectedRevision newSettings) state := by
  apply Program.Performs.ite
  · intro stranger
    exact ⟨holds, .refused nofun (.inl stranger)⟩
  intro _
  apply Program.Performs.ite
  · intro stranger
    exact ⟨holds, .refused nofun (.inr (.inl stranger))⟩
  intro _
  refine Program.Performs.bind
    (fun settings final => final = state ∧ settings = state.settings.getD .default)
    (.adapt ((does_load holds).mono (fun _ _ _ => id) ?_)) ?_
  · intro error final _ same
    rw [same]
    exact .io error
  intro current final _ reached
  obtain ⟨rfl, rfl⟩ := reached
  apply Program.Performs.ite
  · intro conflict
    exact ⟨holds, .refused nofun (.inr (.inr conflict))⟩
  intro _
  apply Program.Ensures.map (ensures_ask holds _ _)
  · intro answer after _ answers
    cases answers with
    | settingsReplaced => exact ⟨rfl, rfl⟩
    | settingsKept _ error fails => exact .io error
    | settingsSwapped _ error fails => exact .unconfirmed error fails
  · intro torn tears
    cases tears with
    | swapped => exact swapped
  · intro answer after answers
    cases answers with
    | settingsReplaced => exact synced
    | settingsKept => exact holds
    | settingsSwapped => exact swapped

theorem does_tryAcquireExclusive {store : AiSettingsStore} (holds : kept state)
    : Does mayFail kept
        (fun guard final => final = state ∧ ∀ held, guard = some held → held.path = store.lockPath)
        (fun _ final => final = state) store.tryAcquireExclusive state := by
  refine Program.Performs.bind (fun _ final => final = state) ⟨holds, nofun, ?_⟩ ?_
  · intro answer final answers
    cases answers with
    | acquired => exact ⟨holds, rfl⟩
    | refused =>
        refine ⟨holds, ?_⟩
        cases answer <;> rfl
  · intro acquired final _ same
    subst same
    refine .pure holds ⟨rfl, ?_⟩
    intro held found
    cases acquired with
    | true =>
        cases found
        rfl
    | false => cases found

theorem does_acquireExclusive {store : AiSettingsStore} (holds : kept state)
    : Does mayFail kept (fun guard final => final = state ∧ guard.path = store.lockPath)
        (fun _ final => final = state) (acquireExclusive store) state := by
  refine Program.Performs.bind
    (fun guard final => final = state ∧ ∀ held, guard = some held → held.path = store.lockPath)
    (.adapt (does_tryAcquireExclusive holds)) ?_
  intro guard final _ reached
  obtain ⟨rfl, path⟩ := reached
  cases guard with
  | none => exact ⟨holds, rfl⟩
  | some held => exact .pure holds ⟨rfl, path held rfl⟩

theorem does_isEmpty (holds : kept state)
    : Does mayFail kept (fun empty final => final = state ∧ empty = state.journal.isEmpty)
        (fun _ final => final = state) CredentialJournal.isEmpty state := by
  refine Program.Performs.bind _ (does_pendingOperations holds) ?_
  intro operations final _ reached
  obtain ⟨rfl, rfl⟩ := reached
  exact .pure holds ⟨rfl, rfl⟩

theorem does_rejectIfJournalPending (holds : kept state)
    : Does mayFail kept (fun _ final => final = state ∧ state.journal = [])
        (fun _ final => final = state) rejectIfJournalPending state := by
  refine Program.Performs.bind (fun empty final => final = state ∧ empty = state.journal.isEmpty)
    (.adapt (does_isEmpty holds)) ?_
  intro empty final _ reached
  obtain ⟨rfl, rfl⟩ := reached
  apply Program.Performs.ite
  · intro pending
    exact ⟨holds, rfl⟩
  · intro empty
    exact .pure holds ⟨rfl, by simpa using empty⟩

/-- What the checks of a credential operation establish: the journal is empty and the settings
are the expected ones.
-/
structure Checked (store : AiSettingsStore) (owner guard : LockGuard) (expectedRevision : Nat)
    (expectedRef : Option CredentialRef) (state : CredentialState) (current : AiSettings) : Prop where
  owner : owner.path = store.ownerLockPath
  guard : guard.path = store.lockPath
  journal : state.journal = []
  isCurrent : current = state.settings.getD .default
  revision : current.revision = expectedRevision
  credentialRef : referenceOf state.settings = expectedRef

theorem does_checkedCurrent {store : AiSettingsStore} {owner : LockGuard} {expectedRevision : Nat}
    {expectedRef : Option CredentialRef} (holds : kept state)
    : Does mayFail kept
        (fun checked final =>
          final = state
            ∧ Checked store owner checked.1 expectedRevision expectedRef state checked.2)
        (fun outcome final => (∃ error, outcome = .notCommitted error) ∧ final = state)
        (checkedCurrent store owner expectedRevision expectedRef) state := by
  have refusing {ε : Type} (error : ε → ConnectError) {α : Type} {fine : α → CredentialState → Prop}
      {program : Asking ε α} (does : Does mayFail kept fine (fun _ final => final = state) program state)
      : Does mayFail kept fine
          (fun outcome final => (∃ error, outcome = .notCommitted error) ∧ final = state)
          (orNotCommitted error program) state :=
    .adapt (does.mono (fun _ _ _ => id) fun problem _ _ same => ⟨⟨error problem, rfl⟩, same⟩)
  refine Program.Performs.bind (fun _ final => final = state ∧ owner.path = store.ownerLockPath)
    (refusing .save (.settled holds ?_ fun _ _ => rfl)) ?_
  · intro _ checked
    refine ⟨rfl, ?_⟩
    by_contra stranger
    simp [AiSettingsStore.checkOwner, stranger] at checked
  intro _ final _ reached
  obtain ⟨rfl, isOwner⟩ := reached
  refine Program.Performs.bind _ (refusing id (does_acquireExclusive holds)) ?_
  intro guard after _ reached
  obtain ⟨rfl, isGuard⟩ := reached
  refine Program.Performs.bind _ (refusing id (does_rejectIfJournalPending holds)) ?_
  intro _ after _ reached
  obtain ⟨rfl, empty⟩ := reached
  refine Program.Performs.bind _ (refusing .io (does_load holds)) ?_
  intro current after _ reached
  obtain ⟨rfl, isCurrent⟩ := reached
  apply Program.Performs.ite
  · intro conflict
    exact ⟨holds, ⟨_, rfl⟩, rfl⟩
  intro agrees
  apply Program.Performs.ite
  · intro mismatch
    exact ⟨holds, ⟨_, rfl⟩, rfl⟩
  · intro references
    refine .pure holds ⟨rfl, isOwner, isGuard, empty, isCurrent, not_not.mp agrees, ?_⟩
    rw [referenceOf, ← isCurrent]
    exact not_not.mp references

end Calls

end Hane.Ai
