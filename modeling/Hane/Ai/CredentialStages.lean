import Hane.Ai.CredentialWorld

/-! The states that a change, a removal and a recovery of the credential go through. -/

namespace Hane.Ai

open Hane.Foundations

/-- How far the settings have come to their new contents. -/
inductive Progress where
  | before
  | unconfirmed
  | after
deriving DecidableEq

def SaveOutcome.progress : SaveOutcome → Progress
  | .notCommitted _ => .before
  | .durabilityUnconfirmed _ _ => .unconfirmed
  | .committed _ _ => .after

/-- The state once a secret that is no longer referenced is deleted, if there is one. -/
def CredentialState.without (state : CredentialState) : Option CredentialRef → CredentialState
  | none => state
  | some credentialRef => state.removing credentialRef

@[simp] theorem CredentialState.journal_without (state : CredentialState)
    (obsolete : Option CredentialRef)
    : (state.without obsolete).journal = state.journal := by
  cases obsolete <;> rfl

/-- The two references of an entry name an operation. -/
structure CredentialOperation.Names (operation : CredentialOperation)
    (kind : JournalOperationKind) (newRef oldRef : Option CredentialRef) : Prop where
  kind : operation.kind = kind
  newRef : operation.newCredentialRef = newRef
  oldRef : operation.oldCredentialRef = oldRef

section Journal

variable {mayFail : Prop} {kept : CredentialState → Prop} {state : CredentialState}
  {operation : CredentialOperation} {kind : JournalOperationKind}
  {newRef oldRef : Option CredentialRef}

theorem does_begin (journal : state.journal = []) (holds : kept state)
    (stored : kept (state.storing [operation]))
    : Does mayFail kept (fun _ final => final = state.storing [operation])
        (fun _ final => final = state ∨ final = state.storing [operation])
        (CredentialJournal.begin operation) state := by
  have rewrites := @does_rewrite mayFail _ _ (· ++ [operation]) holds
  simp only [journal, List.nil_append] at rewrites
  exact rewrites stored

theorem does_complete (journal : state.journal = [operation])
    (names : operation.Names kind newRef oldRef) (holds : kept state)
    (stored : kept (state.storing []))
    : Does mayFail kept (fun _ final => final = state.storing [])
        (fun _ final => final = state ∨ final = state.storing [])
        (CredentialJournal.complete newRef oldRef) state := by
  have emptied : ([operation].filter fun entry =>
      ¬ (entry.newCredentialRef = newRef ∧ entry.oldCredentialRef = oldRef)) = [] := by
    simp [names.newRef, names.oldRef]
  have rewrites := @does_rewrite mayFail kept state (fun entries => entries.filter fun entry =>
    ¬ (entry.newCredentialRef = newRef ∧ entry.oldCredentialRef = oldRef)) holds
  simp only [journal, emptied] at rewrites
  exact rewrites stored

theorem does_mark {isMatch : CredentialOperation → Bool} (journal : state.journal = [operation])
    (names : operation.Names kind newRef oldRef) (holds : kept state)
    (stored : ∀ marked, CredentialOperation.Names marked kind newRef oldRef
      → kept (state.storing [marked]))
    : Does mayFail kept
        (fun _ final => ∃ marked, CredentialOperation.Names marked kind newRef oldRef
          ∧ final = state.storing [marked])
        (fun _ final => final = state ∨ ∃ marked,
          CredentialOperation.Names marked kind newRef oldRef ∧ final = state.storing [marked])
        (CredentialJournal.markSettingsSwappedMatching isMatch) state := by
  obtain ⟨marked, isMarked⟩ : ∃ marked, marked
      = if operation.state = .pendingNew ∧ isMatch operation then
          { operation with state := .settingsSwapped }
        else
          operation := ⟨_, rfl⟩
  have same : marked.Names kind newRef oldRef := by
    rw [isMarked]
    split
    · exact ⟨names.kind, names.newRef, names.oldRef⟩
    · exact names
  have rewrites := @does_rewrite mayFail kept state (fun entries => entries.map fun entry =>
    if entry.state = .pendingNew ∧ isMatch entry then
      { entry with state := .settingsSwapped }
    else
      entry) holds
  simp only [journal, List.map_cons, List.map_nil, ← isMarked] at rewrites
  refine (rewrites (stored marked same)).mono ?_ ?_
  · intro _ final _ reached
    exact ⟨marked, same, reached⟩
  · intro _ final _ reached
    exact reached.imp_right fun stored => ⟨marked, same, stored⟩

theorem does_isDeleted {ε : Type} {failing : ε → CredentialState → Prop}
    {obsolete : Option CredentialRef} (holds : kept state) (removed : kept (state.without obsolete))
    : Does mayFail kept
        (fun deleted final => (final = state.without obsolete ∨ final = state)
          ∧ (deleted = true → final = state.without obsolete)
          ∧ (deleted = false → mayFail))
        failing (isDeleted obsolete) state := by
  cases obsolete with
  | none => exact .pure holds ⟨.inl rfl, fun _ => rfl, nofun⟩
  | some target =>
      refine (does_succeeds (does_deleteSecret holds removed)).mono ?_ fun _ _ _ => id
      intro deleted final _ reached
      cases deleted with
      | true => exact ⟨.inl reached, fun _ => reached, nofun⟩
      | false => exact ⟨reached.2.symm, nofun, fun _ => reached.1⟩

/-- The cleanup deletes the old secret, completes the entry, or stops on the way. -/
theorem does_cleanUp {failing : SaveOutcome → CredentialState → Prop}
    (journal : state.journal = [operation]) (names : operation.Names kind newRef oldRef)
    (holds : kept state) (removed : kept (state.without oldRef))
    (stored : kept ((state.without oldRef).storing []))
    : Does mayFail kept
        (fun _ final => final = state ∨ final = state.without oldRef
          ∨ final = (state.without oldRef).storing [])
        failing (cleanUp newRef oldRef) state := by
  refine Program.Performs.bind _ (does_isDeleted holds removed) ?_
  intro deleted final holds reached
  cases deleted with
  | false =>
      refine .pure holds ?_
      rcases reached.1 with done | left
      · exact .inr (.inl done)
      · exact .inl left
  | true =>
      obtain ⟨-, reached, -⟩ := reached
      cases reached rfl
      have entry : (state.without oldRef).journal = [operation] := by
        rw [CredentialState.journal_without, journal]
      refine Program.Performs.bind
        (fun _ final => final = state.without oldRef ∨ final = (state.without oldRef).storing [])
        ?_ fun _ final holds reached => .pure holds (.inr reached)
      refine (does_succeeds ((does_complete entry names removed stored).mono
        (fun _ _ _ => id) fun _ _ _ => id)).mono ?_ fun _ _ _ => id
      intro completed final _ reached
      cases completed with
      | true => exact .inr reached
      | false => exact reached

/-- Deleting and completing is done, or stops on the way because something failed. -/
theorem does_deleteAndComplete {obsolete : Option CredentialRef}
    (journal : state.journal = [operation]) (names : operation.Names kind newRef oldRef)
    (holds : kept state) (removed : kept (state.without obsolete))
    (stored : kept ((state.without obsolete).storing []))
    : Does mayFail kept
        (fun deleted final => (deleted = true → final = (state.without obsolete).storing [])
          ∧ (deleted = false
            → mayFail ∧ (final = state ∨ final = state.without obsolete)))
        (fun _ final => final = state ∨ final = state.without obsolete
          ∨ final = (state.without obsolete).storing [])
        (deleteAndComplete obsolete newRef oldRef) state := by
  refine Program.Performs.bind _ (does_isDeleted holds removed) ?_
  intro deleted final holds reached
  obtain ⟨either, success, failure⟩ := reached
  cases deleted with
  | false =>
      exact .pure holds ⟨nofun, fun _ => ⟨failure rfl, either.symm⟩⟩
  | true =>
      cases success rfl
      have entry : (state.without obsolete).journal = [operation] := by
        rw [CredentialState.journal_without, journal]
      refine Program.Performs.bind _ ((does_complete entry names removed stored).mono
        (fun _ _ _ => id) fun _ _ _ => .inr) ?_
      intro _ final holds reached
      exact .pure holds ⟨fun _ => reached, nofun⟩

end Journal

-- A change

section Update

variable (state : CredentialState) (expectedRef : Option CredentialRef) (newSecret : String)

/-- A change begins with an empty journal, against the expected reference, and with a reference
never given out before.
-/
structure UpdateBegins (operation : CredentialOperation) (newRef : CredentialRef) : Prop where
  journal : state.journal = []
  reference : referenceOf state.settings = expectedRef
  fresh : newRef ∉ state.issued
  names : operation.Names .update (some newRef) expectedRef

/-- The state with the entry in the journal and the new secret in the store. -/
def CredentialState.prepared (operation : CredentialOperation) (newRef : CredentialRef)
    : CredentialState :=
  ((state.issuing newRef).storing [operation]).keeping newRef newSecret

inductive UpdateStage : Progress → CredentialState → Prop where
  | untouched : UpdateStage .before state
  | issued {newRef : CredentialRef} : UpdateStage .before (state.issuing newRef)
  | begun {operation : CredentialOperation} {newRef : CredentialRef}
      (begins : UpdateBegins state expectedRef operation newRef)
      : UpdateStage .before ((state.issuing newRef).storing [operation])
  | prepared {operation : CredentialOperation} {newRef : CredentialRef}
      (begins : UpdateBegins state expectedRef operation newRef)
      : UpdateStage .before (state.prepared newSecret operation newRef)
  | removed {operation : CredentialOperation} {newRef : CredentialRef}
      (begins : UpdateBegins state expectedRef operation newRef)
      : UpdateStage .before ((state.prepared newSecret operation newRef).removing newRef)
  | swapped {operation : CredentialOperation} {newRef : CredentialRef} {settings : AiSettings}
      (begins : UpdateBegins state expectedRef operation newRef)
      (references : settings.credentialRef = some newRef)
      : UpdateStage .unconfirmed ((state.prepared newSecret operation newRef).swapping settings)
  | synced {operation : CredentialOperation} {newRef : CredentialRef} {settings : AiSettings}
      (begins : UpdateBegins state expectedRef operation newRef)
      (references : settings.credentialRef = some newRef)
      : UpdateStage .after ((state.prepared newSecret operation newRef).syncing settings)
  | marked {operation marked : CredentialOperation} {newRef : CredentialRef}
      {settings : AiSettings} (begins : UpdateBegins state expectedRef operation newRef)
      (references : settings.credentialRef = some newRef)
      (names : marked.Names .update (some newRef) expectedRef)
      : UpdateStage .after
          (((state.prepared newSecret operation newRef).syncing settings).storing [marked])
  | cleaned {operation marked : CredentialOperation} {newRef : CredentialRef}
      {settings : AiSettings} (begins : UpdateBegins state expectedRef operation newRef)
      (references : settings.credentialRef = some newRef)
      (names : marked.Names .update (some newRef) expectedRef)
      : UpdateStage .after
          ((((state.prepared newSecret operation newRef).syncing settings).storing
            [marked]).without expectedRef)
  | completed {operation marked : CredentialOperation} {newRef : CredentialRef}
      {settings : AiSettings} (begins : UpdateBegins state expectedRef operation newRef)
      (references : settings.credentialRef = some newRef)
      (names : marked.Names .update (some newRef) expectedRef)
      : UpdateStage .after
          (((((state.prepared newSecret operation newRef).syncing settings).storing
            [marked]).without expectedRef).storing [])

/-- Any state a change may be stopped in. -/
def UpdateReaches (final : CredentialState) : Prop :=
  ∃ progress, UpdateStage state expectedRef newSecret progress final

variable {state expectedRef newSecret}

theorem UpdateStage.reaches {progress : Progress} {final : CredentialState}
    (stage : UpdateStage state expectedRef newSecret progress final)
    : UpdateReaches state expectedRef newSecret final :=
  ⟨progress, stage⟩

end Update

theorem stamped_credentialRef (current newSettings : AiSettings)
    : (AiSettingsStore.stamped current newSettings).credentialRef = newSettings.credentialRef := rfl

theorem does_unconfirmed {mayFail : Prop} {kept : CredentialState → Prop} {state : CredentialState}
    {fine failed : SaveOutcome → CredentialState → Prop} {error : IoError} (holds : kept state)
    (reached : ∀ observed failure, fine (.durabilityUnconfirmed observed failure) state)
    : Does mayFail kept fine failed (unconfirmed error) state := by
  refine Program.Performs.bind (fun _ final => final = state)
    ((does_caught (does_load holds)).mono ?_ fun _ _ _ => id) ?_
  · intro observed final _ looked
    cases observed with
    | ok settings => exact looked.1
    | error problem => exact looked
  · intro observed final _ same
    subst same
    exact .pure holds (reached _ _)

theorem ensures_outcomeOf {mayFail : Prop} {kept : CredentialState → Prop} {state : CredentialState}
    {post : SaveOutcome → CredentialState → Prop} {program : Saving SaveOutcome}
    (does : Does mayFail kept post post program state)
    : Program.Ensures (credentialOutside mayFail) kept post (outcomeOf program) state := by
  apply Program.Ensures.map does
  intro outcome final _ reached
  cases outcome with
  | ok outcome => exact reached
  | error outcome => exact reached

/-- A change goes through its stages only, and ends where its outcome says. -/
theorem ensures_update {mayFail : Prop} (store : AiSettingsStore) (owner : LockGuard)
    (expected : ExpectedCredentialState) (newSecret : String)
    (buildNewSettings : CredentialRef → AiSettings) (state : CredentialState)
    : Program.Ensures (credentialOutside mayFail)
        (UpdateReaches state expected.credentialRef newSecret)
        (fun outcome final =>
          UpdateStage state expected.credentialRef newSecret outcome.progress final)
        (updateCustomCredentialDetailed store owner expected newSecret buildNewSettings) state := by
  have untouched : UpdateReaches state expected.credentialRef newSecret state :=
    UpdateStage.untouched.reaches
  apply ensures_outcomeOf
  refine Program.Performs.bind _ ((does_checkedCurrent untouched).mono (fun _ _ _ => id) ?_) ?_
  · intro outcome final _ refused
    obtain ⟨⟨error, rfl⟩, rfl⟩ := refused
    exact .untouched
  intro checkedState final _ reached
  obtain ⟨guard, current⟩ := checkedState
  obtain ⟨rfl, checked⟩ := reached
  refine Program.Performs.bind
    (fun newRef after => after = final.issuing newRef ∧ newRef ∉ final.issued) ?_ ?_
  · refine Program.Ensures.map (ensures_ask untouched ?_ ?_) ?_
    · intro torn tears
      cases tears
    · intro newRef after answers
      cases answers with
      | generated fresh => exact UpdateStage.issued.reaches
    · intro newRef after _ answers
      cases answers with
      | generated _ fresh => exact ⟨rfl, fresh⟩
  intro newRef after issued reached
  obtain ⟨rfl, fresh⟩ := reached
  apply Program.Performs.ite
  · intro invalid
    exact ⟨issued, .issued⟩
  intro valid
  have references : (buildNewSettings newRef).credentialRef = some newRef := not_not.mp valid
  let operation : CredentialOperation :=
    { kind := .update
      state := .pendingNew
      newCredentialRef := some newRef
      oldCredentialRef := expected.credentialRef
      settingsGenerationBefore := current.settingsGeneration }
  have empty : (final.issuing newRef).journal = [] := checked.journal
  have begins : UpdateBegins final expected.credentialRef operation newRef :=
    ⟨checked.journal, checked.credentialRef, fresh, ⟨rfl, rfl, rfl⟩⟩
  refine Program.Performs.bind
    (fun _ after => after = (final.issuing newRef).storing [operation])
    (.adapt ((does_begin empty issued (UpdateStage.begun begins).reaches).mono
      (fun _ _ _ => id) ?_)) ?_
  · intro _ after _ reached
    rcases reached with rfl | rfl
    · exact .issued
    · exact .begun begins
  intro _ after begun reached
  subst reached
  refine Program.Performs.bind
    (fun _ after => after = final.prepared newSecret operation newRef)
    (.adapt ((does_setSecret begun (UpdateStage.prepared begins).reaches).mono
      (fun _ _ _ => id) ?_)) ?_
  · intro _ after _ reached
    rcases reached with rfl | rfl
    · exact .begun begins
    · exact .prepared begins
  intro _ after prepared reached
  subst reached
  refine Program.Performs.bind _ (does_caught (does_writeWhileLocked prepared
    (UpdateStage.swapped begins ((stamped_credentialRef _ _).trans references)).reaches
    (UpdateStage.synced begins ((stamped_credentialRef _ _).trans references)).reaches)) ?_
  intro outcome after holds reached
  cases outcome with
  | error error =>
      have deletes (problem : SaveError)
          : Does mayFail (UpdateReaches final expected.credentialRef newSecret)
              (fun outcome after =>
                UpdateStage final expected.credentialRef newSecret (SaveOutcome.progress outcome) after)
              (fun outcome after =>
                UpdateStage final expected.credentialRef newSecret (SaveOutcome.progress outcome) after)
              (do
                let _ ← succeeds (deleteSecret newRef)
                return SaveOutcome.notCommitted (.save problem))
              (final.prepared newSecret operation newRef) := by
        refine Program.Performs.bind
          (fun _ => UpdateStage final expected.credentialRef newSecret .before)
          (does_succeeds_either ((does_deleteSecret prepared
            (UpdateStage.removed begins).reaches).mono ?_ ?_)) ?_
        · intro _ after _ reached
          subst reached
          exact .removed begins
        · intro _ after _ reached
          rcases reached with ⟨-, rfl | rfl⟩
          · exact .prepared begins
          · exact .removed begins
        · intro _ after holds reached
          exact .pure holds reached
      cases reached with
      | unconfirmed problem fails => exact does_unconfirmed holds fun _ _ => .swapped begins references
      | io problem => exact deletes (.io problem)
      | refused confirmed mismatch =>
          cases error with
          | persistedDurabilityUnconfirmed problem => exact absurd rfl (confirmed problem)
          | io problem => exact deletes _
          | busy => exact deletes _
          | revisionConflict => exact deletes _
          | pendingCredentialJournal => exact deletes _
          | credentialRefMutationRequiresJournal => exact deletes _
          | ownerLockMismatch => exact deletes _
          | settingsLockMismatch => exact deletes _
  | ok saved =>
      obtain ⟨isSaved, rfl⟩ := reached
      have references : saved.credentialRef = some newRef := isSaved ▸ references
      refine Program.Performs.bind
        (fun marked after => UpdateStage final expected.credentialRef newSecret .after after
          ∧ (marked = true → ∃ entry, CredentialOperation.Names entry .update (some newRef)
              expected.credentialRef
            ∧ after = ((final.prepared newSecret operation newRef).syncing saved).storing [entry]))
        ((does_succeeds ((does_mark rfl begins.names holds
          fun entry names => (UpdateStage.marked begins references names).reaches).mono
            (fun _ _ _ => id) fun _ _ _ => id)).mono ?_ fun _ _ _ => id) ?_
      · intro marked after _ reached
        cases marked with
        | true =>
            obtain ⟨entry, names, rfl⟩ := reached
            exact ⟨.marked begins references names, fun _ => ⟨entry, names, rfl⟩⟩
        | false =>
            refine ⟨?_, nofun⟩
            rcases reached with rfl | ⟨entry, names, rfl⟩
            · exact .synced begins references
            · exact .marked begins references names
      intro marked after holds reached
      obtain ⟨stage, entry⟩ := reached
      cases marked with
      | false => exact .pure holds stage
      | true =>
          obtain ⟨entry, names, rfl⟩ := entry rfl
          refine Program.Performs.bind _ (does_cleanUp rfl names holds
            (UpdateStage.cleaned begins references names).reaches
            (UpdateStage.completed begins references names).reaches) ?_
          intro pending after holds reached
          refine .pure holds ?_
          rcases reached with rfl | rfl | rfl
          · exact .marked begins references names
          · exact .cleaned begins references names
          · exact .completed begins references names

-- A removal

section Delete

variable (state : CredentialState) (oldRef : CredentialRef)

structure DeleteBegins (operation : CredentialOperation) : Prop where
  journal : state.journal = []
  reference : referenceOf state.settings = some oldRef
  names : operation.Names .delete none (some oldRef)

inductive DeleteStage : Progress → CredentialState → Prop where
  | untouched : DeleteStage .before state
  | begun {operation : CredentialOperation} (begins : DeleteBegins state oldRef operation)
      : DeleteStage .before (state.storing [operation])
  | swapped {operation : CredentialOperation} {settings : AiSettings}
      (begins : DeleteBegins state oldRef operation) (references : settings.credentialRef = none)
      : DeleteStage .unconfirmed ((state.storing [operation]).swapping settings)
  | synced {operation : CredentialOperation} {settings : AiSettings}
      (begins : DeleteBegins state oldRef operation) (references : settings.credentialRef = none)
      : DeleteStage .after ((state.storing [operation]).syncing settings)
  | marked {operation marked : CredentialOperation} {settings : AiSettings}
      (begins : DeleteBegins state oldRef operation) (references : settings.credentialRef = none)
      (names : marked.Names .delete none (some oldRef))
      : DeleteStage .after (((state.storing [operation]).syncing settings).storing [marked])
  | removed {operation marked : CredentialOperation} {settings : AiSettings}
      (begins : DeleteBegins state oldRef operation) (references : settings.credentialRef = none)
      (names : marked.Names .delete none (some oldRef))
      : DeleteStage .after
          ((((state.storing [operation]).syncing settings).storing [marked]).removing oldRef)
  | completed {operation marked : CredentialOperation} {settings : AiSettings}
      (begins : DeleteBegins state oldRef operation) (references : settings.credentialRef = none)
      (names : marked.Names .delete none (some oldRef))
      : DeleteStage .after
          (((((state.storing [operation]).syncing settings).storing
            [marked]).removing oldRef).storing [])

/-- Any state a removal may be stopped in. -/
def DeleteReaches (final : CredentialState) : Prop :=
  ∃ progress, DeleteStage state oldRef progress final

variable {state oldRef}

theorem DeleteStage.reaches {progress : Progress} {final : CredentialState}
    (stage : DeleteStage state oldRef progress final)
    : DeleteReaches state oldRef final :=
  ⟨progress, stage⟩

end Delete

/-- A removal goes through its stages only, and ends where its outcome says. -/
theorem ensures_delete {mayFail : Prop} (store : AiSettingsStore) (owner : LockGuard)
    (expectedRevision : Nat) (oldRef : CredentialRef) (newSettings : AiSettings)
    (state : CredentialState)
    : Program.Ensures (credentialOutside mayFail) (DeleteReaches state oldRef)
        (fun outcome final => DeleteStage state oldRef outcome.progress final)
        (deleteCustomCredentialDetailed store owner expectedRevision oldRef newSettings) state := by
  have untouched : DeleteReaches state oldRef state := DeleteStage.untouched.reaches
  apply ensures_outcomeOf
  refine Program.Performs.bind _ ((does_checkedCurrent untouched).mono (fun _ _ _ => id) ?_) ?_
  · intro outcome final _ refused
    obtain ⟨⟨error, rfl⟩, rfl⟩ := refused
    exact .untouched
  intro checkedState final _ reached
  obtain ⟨guard, current⟩ := checkedState
  obtain ⟨rfl, checked⟩ := reached
  apply Program.Performs.ite
  · intro invalid
    exact ⟨untouched, .untouched⟩
  intro valid
  have references : newSettings.credentialRef = none := not_not.mp valid
  let operation : CredentialOperation :=
    { kind := .delete
      state := .pendingNew
      newCredentialRef := none
      oldCredentialRef := some oldRef
      settingsGenerationBefore := current.settingsGeneration }
  have begins : DeleteBegins final oldRef operation :=
    ⟨checked.journal, checked.credentialRef, ⟨rfl, rfl, rfl⟩⟩
  refine Program.Performs.bind (fun _ after => after = final.storing [operation])
    (.adapt ((does_begin checked.journal untouched (DeleteStage.begun begins).reaches).mono
      (fun _ _ _ => id) ?_)) ?_
  · intro _ after _ reached
    rcases reached with rfl | rfl
    · exact .untouched
    · exact .begun begins
  intro _ after begun reached
  subst reached
  refine Program.Performs.bind _ (does_caught (does_writeWhileLocked begun
    (DeleteStage.swapped begins ((stamped_credentialRef _ _).trans references)).reaches
    (DeleteStage.synced begins ((stamped_credentialRef _ _).trans references)).reaches)) ?_
  intro outcome after holds reached
  cases outcome with
  | error error =>
      cases reached with
      | unconfirmed problem fails =>
          exact does_unconfirmed holds fun _ _ => .swapped begins references
      | io problem => exact .pure holds (.begun begins)
      | refused confirmed mismatch =>
          cases error with
          | persistedDurabilityUnconfirmed problem => exact absurd rfl (confirmed problem)
          | io problem => exact .pure holds (.begun begins)
          | busy => exact .pure holds (.begun begins)
          | revisionConflict => exact .pure holds (.begun begins)
          | pendingCredentialJournal => exact .pure holds (.begun begins)
          | credentialRefMutationRequiresJournal => exact .pure holds (.begun begins)
          | ownerLockMismatch => exact .pure holds (.begun begins)
          | settingsLockMismatch => exact .pure holds (.begun begins)
  | ok saved =>
      obtain ⟨isSaved, rfl⟩ := reached
      have references : saved.credentialRef = none := isSaved ▸ references
      refine Program.Performs.bind
        (fun marked after => DeleteStage final oldRef .after after
          ∧ (marked = true → ∃ entry, CredentialOperation.Names entry .delete none (some oldRef)
            ∧ after = ((final.storing [operation]).syncing saved).storing [entry]))
        ((does_succeeds ((does_mark rfl begins.names holds
          fun entry names => (DeleteStage.marked begins references names).reaches).mono
            (fun _ _ _ => id) fun _ _ _ => id)).mono ?_ fun _ _ _ => id) ?_
      · intro marked after _ reached
        cases marked with
        | true =>
            obtain ⟨entry, names, rfl⟩ := reached
            exact ⟨.marked begins references names, fun _ => ⟨entry, names, rfl⟩⟩
        | false =>
            refine ⟨?_, nofun⟩
            rcases reached with rfl | ⟨entry, names, rfl⟩
            · exact .synced begins references
            · exact .marked begins references names
      intro marked after holds reached
      obtain ⟨stage, entry⟩ := reached
      cases marked with
      | false => exact .pure holds stage
      | true =>
          obtain ⟨entry, names, rfl⟩ := entry rfl
          refine Program.Performs.bind _ (does_cleanUp rfl names holds
            (DeleteStage.removed begins references names).reaches
            (DeleteStage.completed begins references names).reaches) ?_
          intro pending after holds reached
          refine .pure holds ?_
          rcases reached with rfl | rfl | rfl
          · exact .marked begins references names
          · exact .removed begins references names
          · exact .completed begins references names

end Hane.Ai
