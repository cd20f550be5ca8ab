import Hane.Ai.CredentialStages

/-! The states that a recovery of the credential journal goes through. -/

namespace Hane.Ai

open Hane.Foundations

section Recovery

variable (state : CredentialState) (operation : CredentialOperation)

/-- How the references resolve an entry: the state the settings are then in, and the secret that
is no longer referenced.
-/
inductive Resolves : CredentialState → Option CredentialRef → Prop where
  | newSide (kind : operation.kind = .update)
      (reference : referenceOf state.settings = operation.newCredentialRef)
      : Resolves state operation.oldCredentialRef
  | oldSide (kind : operation.kind = .update)
      (other : referenceOf state.settings ≠ operation.newCredentialRef)
      (reference : referenceOf state.settings = operation.oldCredentialRef)
      : Resolves state operation.newCredentialRef
  | retried {settings : AiSettings} (kind : operation.kind = .delete)
      (reference : referenceOf state.settings = operation.oldCredentialRef)
      (references : settings.credentialRef = none)
      : Resolves (state.syncing settings) operation.oldCredentialRef
  | cleared (kind : operation.kind = .delete)
      (other : referenceOf state.settings ≠ operation.oldCredentialRef)
      (reference : referenceOf state.settings = none)
      : Resolves state operation.oldCredentialRef

/-- The stages of a recovery of one entry, and whether it is done. -/
inductive RecoveryStage : Bool → CredentialState → Prop where
  | waiting : RecoveryStage false state
  | swapped {settings : AiSettings} (kind : operation.kind = .delete)
      (reference : referenceOf state.settings = operation.oldCredentialRef)
      (references : settings.credentialRef = none)
      : RecoveryStage false (state.swapping settings)
  | resolving {base : CredentialState} {obsolete : Option CredentialRef}
      (resolves : Resolves state operation base obsolete)
      : RecoveryStage false base
  | removed {base : CredentialState} {obsolete : Option CredentialRef}
      (resolves : Resolves state operation base obsolete)
      : RecoveryStage false (base.without obsolete)
  | completed {base : CredentialState} {obsolete : Option CredentialRef}
      (resolves : Resolves state operation base obsolete)
      : RecoveryStage true ((base.without obsolete).storing [])

def RecoveryReaches (final : CredentialState) : Prop :=
  ∃ done, RecoveryStage state operation done final

/-- Neither side of an entry is what the settings reference. -/
def Undiagnosed : Prop :=
  (operation.kind = .update → referenceOf state.settings ≠ operation.newCredentialRef
    ∧ referenceOf state.settings ≠ operation.oldCredentialRef)
    ∧ (operation.kind = .delete → referenceOf state.settings ≠ operation.oldCredentialRef
      ∧ referenceOf state.settings ≠ none)

variable {state operation}

theorem RecoveryStage.reaches {done : Bool} {final : CredentialState}
    (stage : RecoveryStage state operation done final)
    : RecoveryReaches state operation final :=
  ⟨done, stage⟩

end Recovery

theorem withoutCredential_credentialRef (settings : AiSettings)
    : settings.withoutCredential.credentialRef = none := by
  simp only [AiSettings.credentialRef, AiSettings.withoutCredential]
  cases settings.custom <;> rfl

/-- What a recovery leaves when it does not fail: the entry resolved, unless something did fail
or neither side is referenced.
-/
def Recovered (mayFail : Prop) (state : CredentialState) (operation : CredentialOperation)
    (final : CredentialState) : Prop :=
  mayFail ∨ Undiagnosed state operation ∨ RecoveryStage state operation true final

/-- Resolving an entry whose sides are known. -/
theorem does_resolve {mayFail : Prop} {state base : CredentialState}
    {operation : CredentialOperation} {kind : JournalOperationKind}
    {newRef oldRef obsolete : Option CredentialRef} {outcome : RecoveryOutcome}
    (resolves : Resolves state operation base obsolete) (journal : base.journal = [operation])
    (names : operation.Names kind newRef oldRef)
    : Does mayFail (RecoveryReaches state operation)
        (fun _ final => Recovered mayFail state operation final) (fun _ _ => True)
        (outcome.counting <$> deleteAndComplete obsolete newRef oldRef) base := by
  refine Program.Performs.bind _ ((does_deleteAndComplete journal names
    (RecoveryStage.resolving resolves).reaches (RecoveryStage.removed resolves).reaches
    (RecoveryStage.completed resolves).reaches).mono (fun _ _ _ => id) fun _ _ _ _ => trivial) ?_
  intro deleted final holds reached
  obtain ⟨success, failure⟩ := reached
  refine .pure holds ?_
  cases deleted with
  | true =>
      cases success rfl
      exact .inr (.inr (.completed resolves))
  | false => exact .inl (failure rfl).1

/-- Retrying the replacement of the settings for a removal: it is done, it failed, or nothing was
written.
-/
theorem does_retrySettingsSwap {mayFail : Prop} {state : CredentialState}
    {operation : CredentialOperation} {store : AiSettingsStore} {owner guard : LockGuard}
    (isOwner : owner.path = store.ownerLockPath) (isGuard : guard.path = store.lockPath)
    (kind : operation.kind = .delete)
    (reference : referenceOf state.settings = operation.oldCredentialRef)
    : Does mayFail (RecoveryReaches state operation)
        (fun swapped final =>
          (swapped = true → ∃ settings : AiSettings, settings.credentialRef = none
            ∧ final = state.syncing settings)
          ∧ (swapped = false → mayFail))
        (fun _ _ => True)
        (retrySettingsSwap store owner guard (state.settings.getD .default)) state := by
  have references : (AiSettingsStore.stamped (state.settings.getD .default)
      (state.settings.getD .default).withoutCredential).credentialRef = none :=
    withoutCredential_credentialRef _
  refine Program.Performs.bind _ (does_caught (does_writeWhileLocked
    RecoveryStage.waiting.reaches (RecoveryStage.swapped kind reference references).reaches
    (RecoveryStage.resolving (.retried kind reference references)).reaches)) ?_
  intro outcome final holds reached
  cases outcome with
  | ok saved =>
      obtain ⟨isSaved, rfl⟩ := reached
      exact .pure holds ⟨fun _ => ⟨saved, isSaved ▸ references, rfl⟩, nofun⟩
  | error error =>
      cases reached with
      | unconfirmed problem fails => exact .pure holds ⟨nofun, fun _ => fails⟩
      | io problem => exact ⟨holds, trivial⟩
      | refused confirmed mismatch =>
          rcases mismatch with stranger | stranger | conflict
          · exact absurd isOwner stranger
          · exact absurd isGuard stranger
          · exact absurd rfl conflict

/-- One entry is resolved by the side the settings reference, or left where that is neither. -/
theorem does_recoverOperation {mayFail : Prop} {state : CredentialState}
    {operation : CredentialOperation} {store : AiSettingsStore} {owner guard : LockGuard}
    {outcome : RecoveryOutcome} (journal : state.journal = [operation])
    (shape : operation.kind = .delete → operation.newCredentialRef = none)
    (isOwner : owner.path = store.ownerLockPath) (isGuard : guard.path = store.lockPath)
    : Does mayFail (RecoveryReaches state operation)
        (fun _ final => Recovered mayFail state operation final) (fun _ _ => True)
        (recoverOperation (referenceOf state.settings)
          (fun _ => retrySettingsSwap store owner guard (state.settings.getD .default)) outcome
          operation) state := by
  cases kind : operation.kind with
  | update =>
      simp only [recoverOperation, kind]
      apply Program.Performs.ite
      · intro reference
        exact does_resolve (.newSide kind reference) journal ⟨kind, rfl, rfl⟩
      intro other
      apply Program.Performs.ite
      · intro reference
        exact does_resolve (.oldSide kind other reference) journal ⟨kind, rfl, rfl⟩
      · intro neither
        refine .pure RecoveryStage.waiting.reaches (.inr (.inl ⟨fun _ => ⟨other, neither⟩, ?_⟩))
        simp [kind]
  | delete =>
      simp only [recoverOperation, kind]
      apply Program.Performs.ite
      · intro reference
        refine Program.Performs.bind _
          (does_retrySettingsSwap isOwner isGuard kind reference) ?_
        intro swapped final holds reached
        obtain ⟨success, failure⟩ := reached
        cases swapped with
        | true =>
            obtain ⟨settings, references, rfl⟩ := success rfl
            exact does_resolve (.retried kind reference references) journal
              ⟨kind, shape kind, rfl⟩
        | false => exact .pure holds (.inl (failure rfl))
      intro other
      apply Program.Performs.ite
      · intro reference
        exact does_resolve (.cleared kind other reference) journal ⟨kind, shape kind, rfl⟩
      · intro neither
        refine .pure RecoveryStage.waiting.reaches (.inr (.inl ⟨?_, fun _ => ⟨other, neither⟩⟩))
        simp [kind]

/-- A recovery with one entry in the journal goes through its stages only. -/
theorem does_recoverAtStartup {mayFail : Prop} {store : AiSettingsStore} {owner : LockGuard}
    {state : CredentialState} {operation : CredentialOperation}
    (journal : state.journal = [operation])
    (shape : operation.kind = .delete → operation.newCredentialRef = none)
    : Does mayFail (RecoveryReaches state operation)
        (fun _ final => Recovered mayFail state operation final) (fun _ _ => True)
        (recoverAtStartup store owner) state := by
  have waiting : RecoveryReaches state operation state := RecoveryStage.waiting.reaches
  refine Program.Performs.bind (fun _ final => final = state ∧ owner.path = store.ownerLockPath)
    (.adapt (.settled waiting ?_ fun _ _ => trivial)) ?_
  · intro _ checked
    refine ⟨rfl, ?_⟩
    by_contra stranger
    simp [AiSettingsStore.checkOwner, stranger] at checked
  intro _ final _ reached
  obtain ⟨rfl, isOwner⟩ := reached
  refine Program.Performs.bind _
    ((does_acquireExclusive waiting).mono (fun _ _ _ => id) fun _ _ _ _ => trivial) ?_
  intro guard after _ reached
  obtain ⟨rfl, isGuard⟩ := reached
  refine Program.Performs.bind
    (fun settings after' => after' = after ∧ settings = after.settings.getD .default)
    (.adapt ((does_load waiting).mono (fun _ _ _ => id) fun _ _ _ _ => trivial)) ?_
  intro current after' _ reached
  obtain ⟨rfl, rfl⟩ := reached
  refine .adapt (Program.Performs.bind _
    ((does_pendingOperations waiting).mono (fun _ _ _ => id) fun _ _ _ _ => trivial) ?_)
  intro operations last _ reached
  obtain ⟨rfl, rfl⟩ := reached
  rw [journal]
  refine Program.Performs.bind _ (does_recoverOperation journal shape isOwner isGuard) ?_
  intro outcome last holds recovered
  exact .pure holds recovered

theorem does_recoverAtStartup_empty {mayFail : Prop} {store : AiSettingsStore}
    {owner : LockGuard} {state : CredentialState} (journal : state.journal = [])
    : Does mayFail (· = state) (fun _ _ => True) (fun _ _ => True)
        (recoverAtStartup store owner) state := by
  refine Program.Performs.bind (fun _ _ => True)
    (.adapt (.settled rfl (fun _ _ => trivial) fun _ _ => trivial)) ?_
  intro _ final holds _
  refine Program.Performs.bind (fun _ _ => True)
    ((@does_acquireExclusive mayFail (· = state) _ _ holds).mono (fun _ _ _ _ => trivial) fun _ _ _ _ => trivial) ?_
  intro guard final holds _
  refine Program.Performs.bind (fun _ _ => True)
    (.adapt ((@does_load mayFail (· = state) _ holds).mono (fun _ _ _ _ => trivial) fun _ _ _ _ => trivial)) ?_
  intro current final holds _
  refine .adapt (Program.Performs.bind _
    ((@does_pendingOperations mayFail (· = state) _ holds).mono (fun _ _ _ => id) fun _ _ _ _ => trivial) ?_)
  intro operations last same reached
  have empty : operations = [] := by
    rw [reached.2, holds, journal]
  subst empty
  exact .pure same trivial

end Hane.Ai
