import Hane.Ai.CredentialRuns

/-! What a change or removal of the credential reports, against what later recoveries do with the
entry it leaves behind.
-/

namespace Hane.Ai

open Hane.Foundations

/-- One recovery at startup, finished or stopped by a crash. -/
def RecoveryStep (state final : CredentialState) : Prop :=
  ∃ (store : AiSettingsStore) (owner : LockGuard)
    (ending : Ending (Except ConnectError RecoveryOutcome)),
    Program.Runs (credentialOutside True) (recoverAtStartup store owner).run state ending final

/-- Any number of recoveries. -/
abbrev Recoveries : CredentialState → CredentialState → Prop :=
  Relation.ReflTransGen RecoveryStep

/-- The settings' reference and the secret under it are those of before. -/
structure SameCredential (before state : CredentialState) : Prop where
  reference : referenceOf state.settings = referenceOf before.settings
  secret :
    ∀ credentialRef, referenceOf before.settings = some credentialRef
      → state.secrets credentialRef = before.secrets credentialRef

/-- At most one entry is pending, and it is a change between different references. -/
inductive OnlyChanges : List CredentialOperation → Prop where
  | idle : OnlyChanges []
  | pending {operation : CredentialOperation} (kind : operation.kind = .update)
      (differ : operation.newCredentialRef ≠ operation.oldCredentialRef)
      : OnlyChanges [operation]

/-- A recovery of at most one entry moves through that entry's stages. -/
theorem RecoveryStep.stage {state final : CredentialState} {operation : CredentialOperation}
    (step : RecoveryStep state final) (journal : state.journal = [operation])
    (shape : operation.kind = .delete → operation.newCredentialRef = none)
    : RecoveryReaches state operation final := by
  obtain ⟨store, owner, ending, runs⟩ := step
  exact ((does_recoverAtStartup journal shape).sound runs).1

theorem RecoveryStep.idle {state final : CredentialState} (step : RecoveryStep state final)
    (journal : state.journal = [])
    : final = state := by
  obtain ⟨store, owner, ending, runs⟩ := step
  exact ((does_recoverAtStartup_empty journal).sound runs).1

/-- What every recovery preserves holds after any number of them, by induction on the recoveries. -/
theorem recoveries_keep {kept : CredentialState → Prop} {state later : CredentialState}
    (step : ∀ before after, kept before → RecoveryStep before after → kept after)
    (holds : kept state) (recoveries : Recoveries state later)
    : kept later := by
  induction recoveries with
  | refl => exact holds
  | tail _ recovery ih => exact step _ _ ih recovery

theorem CredentialState.secrets_without {state : CredentialState} {credentialRef : CredentialRef}
    {obsolete : Option CredentialRef} (other : obsolete ≠ some credentialRef)
    : (state.without obsolete).secrets credentialRef = state.secrets credentialRef := by
  cases obsolete with
  | none => rfl
  | some target =>
      have differ : credentialRef ≠ target := fun same => other (same ▸ rfl)
      exact Function.update_of_ne differ _ _

theorem CredentialState.secrets_without_same {state : CredentialState}
    {credentialRef : CredentialRef} {obsolete : Option CredentialRef}
    (same : obsolete = some credentialRef)
    : (state.without obsolete).secrets credentialRef = none := by
  subst same
  exact Function.update_self _ _ _

@[simp] theorem CredentialState.settings_without (state : CredentialState)
    (obsolete : Option CredentialRef)
    : (state.without obsolete).settings = state.settings := by
  cases obsolete <;> rfl

-- Nothing but changes pending

/-- The credential is as before, and only a change is pending. -/
structure Unchanged (before state : CredentialState) : Prop where
  credential : SameCredential before state
  journal : OnlyChanges state.journal

/-- A recovery of a change deletes the side that the settings do not reference. -/
theorem Unchanged.recovery {before state final : CredentialState}
    (unchanged : Unchanged before state) (step : RecoveryStep state final)
    : Unchanged before final := by
  obtain ⟨⟨reference, secret⟩, journal⟩ := unchanged
  generalize entries : state.journal = operations at journal
  cases journal with
  | idle =>
      have same := step.idle entries
      subst same
      exact ⟨⟨reference, secret⟩, entries ▸ .idle⟩
  | @pending operation kind differ =>
      have change : OnlyChanges [operation] := .pending kind differ
      have resolved {base : CredentialState} {obsolete : Option CredentialRef}
          (resolves : Resolves state operation base obsolete)
          : base = state ∧ obsolete ≠ referenceOf state.settings := by
        cases resolves with
        | newSide _ same => exact ⟨rfl, same ▸ differ.symm⟩
        | oldSide _ _ same => exact ⟨rfl, same ▸ differ⟩
        | retried isDelete => cases kind.symm.trans isDelete
        | cleared isDelete => cases kind.symm.trans isDelete
      have without {obsolete : Option CredentialRef}
          (other : obsolete ≠ referenceOf state.settings)
          : SameCredential before (state.without obsolete) := by
        refine ⟨(congrArg referenceOf (state.settings_without obsolete)).trans reference, ?_⟩
        intro credentialRef isReferenced
        refine (CredentialState.secrets_without ?_).trans (secret credentialRef isReferenced)
        rw [← isReferenced, ← reference]
        exact other
      obtain ⟨done, stage⟩ := step.stage entries fun isDelete => by cases kind.symm.trans isDelete
      cases stage with
      | waiting => exact ⟨⟨reference, secret⟩, entries ▸ change⟩
      | swapped isDelete => cases kind.symm.trans isDelete
      | resolving resolves =>
          obtain ⟨rfl, -⟩ := resolved resolves
          exact ⟨⟨reference, secret⟩, entries ▸ change⟩
      | removed resolves =>
          obtain ⟨rfl, other⟩ := resolved resolves
          refine ⟨without other, ?_⟩
          rw [CredentialState.journal_without, entries]
          exact change
      | completed resolves =>
          obtain ⟨rfl, other⟩ := resolved resolves
          have kept := without other
          exact ⟨⟨kept.reference, kept.secret⟩, .idle⟩

theorem Unchanged.recoveries {before state later : CredentialState}
    (unchanged : Unchanged before state) (recoveries : Recoveries state later)
    : SameCredential before later :=
  (recoveries_keep (fun _ _ => Unchanged.recovery) unchanged recoveries).credential

-- The new settings in force

/-- The settings have the new reference with its secret, and the old secret goes with the entry. -/
structure InForce (kind : JournalOperationKind) (newRef oldRef : Option CredentialRef)
    (newSecret : String) (state : CredentialState) : Prop where
  reference : referenceOf state.settings = newRef
  secret :
    ∀ credentialRef, newRef = some credentialRef → state.secrets credentialRef = some newSecret
  journal :
    (state.journal = []
        ∧ ∀ credentialRef, oldRef = some credentialRef → state.secrets credentialRef = none)
      ∨ ∃ operation : CredentialOperation,
          state.journal = [operation] ∧ operation.Names kind newRef oldRef

section InForce

variable {kind : JournalOperationKind} {newRef oldRef : Option CredentialRef} {newSecret : String}
  {state final : CredentialState}

theorem InForce.without (inForce : InForce kind newRef oldRef newSecret state)
    (differ : newRef ≠ oldRef)
    : InForce kind newRef oldRef newSecret (state.without oldRef) := by
  refine ⟨(congrArg referenceOf (state.settings_without oldRef)).trans inForce.reference, ?_, ?_⟩
  · intro credentialRef isNew
    rw [CredentialState.secrets_without (isNew ▸ differ.symm)]
    exact inForce.secret credentialRef isNew
  · rw [CredentialState.journal_without]
    refine inForce.journal.imp_left fun idle => ⟨idle.1, fun credentialRef isOld => ?_⟩
    exact CredentialState.secrets_without_same isOld

/-- And the entry may then be dropped. -/
theorem InForce.completed (inForce : InForce kind newRef oldRef newSecret state)
    (differ : newRef ≠ oldRef)
    : InForce kind newRef oldRef newSecret ((state.without oldRef).storing []) := by
  have cleaned := inForce.without differ
  refine ⟨cleaned.reference, cleaned.secret, .inl ⟨rfl, ?_⟩⟩
  exact fun credentialRef isOld => CredentialState.secrets_without_same isOld

theorem Resolves.obsolete_of_inForce {operation : CredentialOperation} {base : CredentialState}
    {obsolete : Option CredentialRef} (resolves : Resolves state operation base obsolete)
    (reference : referenceOf state.settings = newRef) (differ : newRef ≠ oldRef)
    (names : operation.Names kind newRef oldRef)
    : base = state ∧ obsolete = oldRef := by
  cases resolves with
  | newSide => exact ⟨rfl, names.oldRef⟩
  | oldSide _ other => exact absurd (reference.trans names.newRef.symm) other
  | retried _ same => exact absurd ((reference.symm.trans same).trans names.oldRef) differ
  | cleared => exact ⟨rfl, names.oldRef⟩

theorem InForce.recovery (differ : newRef ≠ oldRef) (shape : kind = .delete → newRef = none)
    (inForce : InForce kind newRef oldRef newSecret state) (step : RecoveryStep state final)
    : InForce kind newRef oldRef newSecret final := by
  rcases inForce.journal with ⟨journal, -⟩ | ⟨operation, journal, names⟩
  · exact step.idle journal ▸ inForce
  · obtain ⟨done, stage⟩ := step.stage journal fun isDelete =>
      names.newRef.trans (shape (names.kind.symm.trans isDelete))
    cases stage with
    | waiting => exact inForce
    | swapped _ same =>
        exact absurd ((inForce.reference.symm.trans same).trans names.oldRef) differ
    | resolving resolves =>
        obtain ⟨rfl, -⟩ := resolves.obsolete_of_inForce inForce.reference differ names
        exact inForce
    | removed resolves =>
        obtain ⟨rfl, rfl⟩ := resolves.obsolete_of_inForce inForce.reference differ names
        exact inForce.without differ
    | completed resolves =>
        obtain ⟨rfl, rfl⟩ := resolves.obsolete_of_inForce inForce.reference differ names
        exact inForce.completed differ

/-- A recovery in which nothing fails leaves neither the entry nor the old secret. -/
theorem InForce.recovered (differ : newRef ≠ oldRef) (shape : kind = .delete → newRef = none)
    (inForce : InForce kind newRef oldRef newSecret state) {store : AiSettingsStore}
    {owner : LockGuard} {outcome : RecoveryOutcome}
    (runs : Program.Runs (credentialOutside False) (recoverAtStartup store owner).run state
      (.finished (.ok outcome)) final)
    : final.journal = []
      ∧ ∀ credentialRef, oldRef = some credentialRef → final.secrets credentialRef = none := by
  rcases inForce.journal with idle | ⟨operation, journal, names⟩
  · have same := ((does_recoverAtStartup_empty idle.1).sound runs).1
    exact same ▸ idle
  · obtain ⟨-, reached⟩ := (does_recoverAtStartup journal fun isDelete =>
      names.newRef.trans (shape (names.kind.symm.trans isDelete))).sound runs
    have known : ¬Undiagnosed state operation := by
      intro undiagnosed
      have reference := inForce.reference
      cases isKind : operation.kind with
      | update => exact (undiagnosed.1 isKind).1 (reference.trans names.newRef.symm)
      | delete =>
          exact (undiagnosed.2 isKind).2 (reference.trans (shape (names.kind.symm.trans isKind)))
    rcases reached outcome rfl with impossible | undiagnosed | stage
    · exact impossible.elim
    · exact absurd undiagnosed known
    · cases stage with
      | completed resolves =>
          obtain ⟨rfl, rfl⟩ := resolves.obsolete_of_inForce inForce.reference differ names
          exact ⟨rfl, fun credentialRef isOld => CredentialState.secrets_without_same isOld⟩

end InForce

-- A removal that a recovery may carry on

/-- The credential is as before, or gone; only its removal is pending. -/
structure Withdrawing (before : CredentialState) (oldRef : CredentialRef)
    (state : CredentialState) : Prop where
  credential : SameCredential before state ∨ referenceOf state.settings = none
  journal :
    state.journal = []
      ∨ ∃ operation : CredentialOperation,
          state.journal = [operation] ∧ operation.Names .delete none (some oldRef)

theorem Withdrawing.recovery {before state final : CredentialState} {oldRef : CredentialRef}
    (withdrawing : Withdrawing before oldRef state) (step : RecoveryStep state final)
    : Withdrawing before oldRef final := by
  rcases withdrawing.journal with journal | ⟨operation, journal, names⟩
  · exact step.idle journal ▸ withdrawing
  · have pending (after : CredentialState) (same : after.journal = state.journal)
        : after.journal = [] ∨ ∃ operation : CredentialOperation,
            after.journal = [operation] ∧ operation.Names .delete none (some oldRef) :=
      .inr ⟨operation, same.trans journal, names⟩
    have resolved {base : CredentialState} {obsolete : Option CredentialRef}
        (resolves : Resolves state operation base obsolete)
        : referenceOf base.settings = none ∧ base.journal = state.journal := by
      cases resolves with
      | newSide isUpdate => cases names.kind.symm.trans isUpdate
      | oldSide isUpdate => cases names.kind.symm.trans isUpdate
      | retried _ _ references => exact ⟨references, rfl⟩
      | cleared _ _ reference => exact ⟨reference, rfl⟩
    obtain ⟨done, stage⟩ := step.stage journal fun _ => names.newRef
    cases stage with
    | waiting => exact withdrawing
    | swapped _ _ references => exact ⟨.inr references, pending _ rfl⟩
    | resolving resolves =>
        obtain ⟨reference, same⟩ := resolved resolves
        exact ⟨.inr reference, pending _ same⟩
    | removed resolves =>
        obtain ⟨reference, same⟩ := resolved resolves
        refine ⟨.inr ?_, pending _ ?_⟩
        · rw [CredentialState.settings_without]
          exact reference
        · rw [CredentialState.journal_without]
          exact same
    | @completed base obsolete resolves =>
        refine ⟨.inr ?_, .inl rfl⟩
        change referenceOf (base.without obsolete).settings = none
        rw [CredentialState.settings_without]
        exact (resolved resolves).1

-- Reports

/-- What a change of the credential reports is what later recoveries make of it. -/
structure UpdateReported (before : CredentialState) (expectedRef : Option CredentialRef)
    (newSecret : String) (outcome : SaveOutcome) (state : CredentialState) : Prop where
  untouched :
    outcome.progress = .before → before.journal ≠ []
      → state.settings = before.settings ∧ state.secrets = before.secrets
          ∧ state.journal = before.journal
  notCommitted :
    outcome.progress = .before → OnlyChanges before.journal
      → ∀ later, Recoveries state later → SameCredential before later
  committed :
    outcome.progress = .after
      → ∃ newRef, newRef ∉ before.issued ∧ ∀ later, Recoveries state later
        → (referenceOf later.settings = some newRef ∧ later.secrets newRef = some newSecret)
          ∧ ∀ store owner recovered final,
              Program.Runs (credentialOutside False) (recoverAtStartup store owner).run later
                (.finished (.ok recovered)) final
              → final.journal = []
                ∧ ∀ oldRef, expectedRef = some oldRef → final.secrets oldRef = none

/-- The same for a removal, which recoveries may carry on once its entry is written. -/
structure DeleteReported (before : CredentialState) (oldRef : CredentialRef)
    (outcome : SaveOutcome) (state : CredentialState) : Prop where
  untouched :
    outcome.progress = .before
      → state.settings = before.settings ∧ state.secrets = before.secrets
          ∧ (before.journal ≠ [] → state.journal = before.journal)
  notCommitted :
    outcome.progress = .before → OnlyChanges state.journal
      → ∀ later, Recoveries state later → SameCredential before later
  withdrawing :
    outcome.progress = .before → before.journal = []
      → ∀ later, Recoveries state later
        → SameCredential before later ∨ referenceOf later.settings = none
  committed :
    outcome.progress = .after
      → ∀ later, Recoveries state later
        → referenceOf later.settings = none
          ∧ ∀ store owner recovered final,
              Program.Runs (credentialOutside False) (recoverAtStartup store owner).run later
                (.finished (.ok recovered)) final
              → final.journal = [] ∧ final.secrets oldRef = none

section Update

variable {state final : CredentialState} {expectedRef : Option CredentialRef} {newSecret : String}
  {operation : CredentialOperation} {newRef : CredentialRef}

theorem UpdateBegins.differ_of_issued (begins : UpdateBegins state expectedRef operation newRef)
    (issued : ∀ credentialRef, referenceOf state.settings = some credentialRef
      → credentialRef ∈ state.issued)
    : some newRef ≠ expectedRef := by
  intro same
  exact begins.fresh (issued newRef (begins.reference.trans same.symm))

theorem UpdateStage.unchanged {progress : Progress}
    (issued : ∀ credentialRef, referenceOf state.settings = some credentialRef
      → credentialRef ∈ state.issued)
    (stage : UpdateStage state expectedRef newSecret progress final) (isBefore : progress = .before)
    (changes : OnlyChanges state.journal)
    : Unchanged state final := by
  have change {operation : CredentialOperation} {newRef : CredentialRef}
      (begins : UpdateBegins state expectedRef operation newRef)
      : OnlyChanges [operation] := by
    refine .pending begins.names.kind ?_
    rw [begins.names.newRef, begins.names.oldRef]
    exact begins.differ_of_issued issued
  have elsewhere {operation : CredentialOperation} {newRef credentialRef : CredentialRef}
      (begins : UpdateBegins state expectedRef operation newRef)
      (isReferenced : referenceOf state.settings = some credentialRef)
      : credentialRef ≠ newRef := by
    intro same
    exact begins.fresh (same ▸ issued credentialRef isReferenced)
  have prepared {operation : CredentialOperation} {newRef : CredentialRef}
      (begins : UpdateBegins state expectedRef operation newRef)
      : Unchanged state (state.prepared newSecret operation newRef) := by
    refine ⟨⟨rfl, fun credentialRef isReferenced => ?_⟩, change begins⟩
    exact Function.update_of_ne (elsewhere begins isReferenced) _ _
  cases stage with
  | untouched => exact ⟨⟨rfl, fun _ _ => rfl⟩, changes⟩
  | issued => exact ⟨⟨rfl, fun _ _ => rfl⟩, changes⟩
  | begun begins => exact ⟨⟨rfl, fun _ _ => rfl⟩, change begins⟩
  | prepared begins => exact prepared begins
  | removed begins =>
      refine ⟨⟨rfl, fun credentialRef isReferenced => ?_⟩, change begins⟩
      refine Eq.trans ?_ ((prepared begins).credential.secret credentialRef isReferenced)
      exact Function.update_of_ne (elsewhere begins isReferenced) _ _
  | swapped | synced | marked | cleaned | completed => cases isBefore

/-- A committed change is in force at each of its stages. -/
theorem UpdateStage.inForce {progress : Progress}
    (issued : ∀ credentialRef, referenceOf state.settings = some credentialRef
      → credentialRef ∈ state.issued)
    (stage : UpdateStage state expectedRef newSecret progress final) (isAfter : progress = .after)
    : ∃ newRef, newRef ∉ state.issued ∧ some newRef ≠ expectedRef
      ∧ InForce .update (some newRef) expectedRef newSecret final := by
  have secret {operation : CredentialOperation} {newRef : CredentialRef}
      (credentialRef : CredentialRef) (same : some newRef = some credentialRef)
      : (state.prepared newSecret operation newRef).secrets credentialRef = some newSecret := by
    cases same
    exact Function.update_self _ _ _
  cases stage with
  | synced begins references =>
      exact ⟨_, begins.fresh, begins.differ_of_issued issued,
        references, secret, .inr ⟨_, rfl, begins.names⟩⟩
  | marked begins references names =>
      exact ⟨_, begins.fresh, begins.differ_of_issued issued,
        references, secret, .inr ⟨_, rfl, names⟩⟩
  | cleaned begins references names =>
      have differ := begins.differ_of_issued issued
      exact ⟨_, begins.fresh, differ,
        InForce.without ⟨references, secret, .inr ⟨_, rfl, names⟩⟩ differ⟩
  | completed begins references names =>
      have differ := begins.differ_of_issued issued
      exact ⟨_, begins.fresh, differ,
        InForce.completed ⟨references, secret, .inr ⟨_, rfl, names⟩⟩ differ⟩
  | untouched | issued | begun | prepared | removed | swapped => cases isAfter

/-- A change reports what later recoveries make of it. -/
theorem UpdateStage.reported {outcome : SaveOutcome}
    (issued : ∀ credentialRef, referenceOf state.settings = some credentialRef
      → credentialRef ∈ state.issued)
    (stage : UpdateStage state expectedRef newSecret outcome.progress final)
    : UpdateReported state expectedRef newSecret outcome final := by
  generalize isProgress : outcome.progress = progress at stage
  refine ⟨fun isBefore busy => ?_, fun isBefore changes later recoveries => ?_, fun isAfter => ?_⟩
  · rw [isProgress] at isBefore
    cases stage with
    | untouched => exact ⟨rfl, rfl, rfl⟩
    | issued => exact ⟨rfl, rfl, rfl⟩
    | begun begins => exact absurd begins.journal busy
    | prepared begins => exact absurd begins.journal busy
    | removed begins => exact absurd begins.journal busy
    | swapped | synced | marked | cleaned | completed => cases isBefore
  · exact (stage.unchanged issued (isProgress.symm.trans isBefore) changes).recoveries recoveries
  · obtain ⟨newRef, fresh, differ, inForce⟩ := stage.inForce issued (isProgress.symm.trans isAfter)
    refine ⟨newRef, fresh, fun later recoveries => ?_⟩
    have shape : JournalOperationKind.update = .delete → some newRef = none := nofun
    have stays := recoveries_keep (fun _ _ => InForce.recovery differ shape) inForce recoveries
    refine ⟨⟨stays.reference, stays.secret newRef rfl⟩, ?_⟩
    intro store owner recovered last runs
    exact stays.recovered differ shape runs

end Update

section Delete

variable {state final : CredentialState} {oldRef : CredentialRef}

theorem DeleteStage.withdrawing {progress : Progress}
    (stage : DeleteStage state oldRef progress final) (isBefore : progress = .before)
    (idle : state.journal = [])
    : Withdrawing state oldRef final := by
  cases stage with
  | untouched => exact ⟨.inl ⟨rfl, fun _ _ => rfl⟩, .inl idle⟩
  | begun begins => exact ⟨.inl ⟨rfl, fun _ _ => rfl⟩, .inr ⟨_, rfl, begins.names⟩⟩
  | swapped | synced | marked | removed | completed => cases isBefore

/-- A committed removal is in force at each of its stages. -/
theorem DeleteStage.inForce {progress : Progress}
    (stage : DeleteStage state oldRef progress final) (isAfter : progress = .after)
    : InForce .delete none (some oldRef) "" final := by
  have differ : none ≠ some oldRef := nofun
  cases stage with
  | synced begins references => exact ⟨references, nofun, .inr ⟨_, rfl, begins.names⟩⟩
  | marked begins references names => exact ⟨references, nofun, .inr ⟨_, rfl, names⟩⟩
  | removed begins references names =>
      exact InForce.without ⟨references, nofun, .inr ⟨_, rfl, names⟩⟩ differ
  | completed begins references names =>
      exact InForce.completed ⟨references, nofun, .inr ⟨_, rfl, names⟩⟩ differ
  | untouched | begun | swapped => cases isAfter

/-- A removal reports what later recoveries make of it. -/
theorem DeleteStage.reported {outcome : SaveOutcome}
    (stage : DeleteStage state oldRef outcome.progress final)
    : DeleteReported state oldRef outcome final := by
  generalize isProgress : outcome.progress = progress at stage
  refine ⟨fun isBefore => ?_, fun isBefore changes later recoveries => ?_,
    fun isBefore idle later recoveries => ?_, fun isAfter later recoveries => ?_⟩
  · rw [isProgress] at isBefore
    cases stage with
    | untouched => exact ⟨rfl, rfl, fun _ => rfl⟩
    | begun begins => exact ⟨rfl, rfl, fun busy => absurd begins.journal busy⟩
    | swapped | synced | marked | removed | completed => cases isBefore
  · have unchanged : Unchanged state final := by
      rw [isProgress] at isBefore
      refine ⟨?_, changes⟩
      cases stage with
      | untouched => exact ⟨rfl, fun _ _ => rfl⟩
      | begun => exact ⟨rfl, fun _ _ => rfl⟩
      | swapped | synced | marked | removed | completed => cases isBefore
    exact unchanged.recoveries recoveries
  · exact (recoveries_keep (fun _ _ => Withdrawing.recovery)
      (stage.withdrawing (isProgress.symm.trans isBefore) idle) recoveries).credential
  · have differ : none ≠ some oldRef := nofun
    have inForce := stage.inForce (isProgress.symm.trans isAfter)
    have stays :=
      recoveries_keep (fun _ _ => InForce.recovery differ fun _ => rfl) inForce recoveries
    refine ⟨stays.reference, ?_⟩
    intro store owner recovered last runs
    obtain ⟨journal, gone⟩ := stays.recovered differ (fun _ => rfl) runs
    exact ⟨journal, gone oldRef rfl⟩

end Delete

/-- Whatever fails in a change or a removal, and however often: a change reported as not committed
stays undone through every later recovery, a removal reported so is undone or carried on, and a
change or removal reported as committed stays done, with nothing of the old state left once a
recovery succeeds.
-/
theorem reports_kept {state : CredentialState}
    (issued : ∀ credentialRef, referenceOf state.settings = some credentialRef
      → credentialRef ∈ state.issued)
    : (∀ store owner (expected : ExpectedCredentialState) newSecret buildNewSettings outcome final,
          Program.Runs (credentialOutside True)
            (updateCustomCredentialDetailed store owner expected newSecret buildNewSettings) state
            (.finished outcome) final
          → UpdateReported state expected.credentialRef newSecret outcome final)
      ∧ ∀ store owner expectedRevision oldRef newSettings outcome final,
          Program.Runs (credentialOutside True)
            (deleteCustomCredentialDetailed store owner expectedRevision oldRef newSettings) state
            (.finished outcome) final
          → DeleteReported state oldRef outcome final := by
  refine ⟨?_, ?_⟩
  · intro store owner expected newSecret buildNewSettings outcome final runs
    obtain ⟨-, stage⟩ := (ensures_update _ _ _ _ _ _).sound runs
    exact (stage outcome rfl).reported issued
  · intro store owner expectedRevision oldRef newSettings outcome final runs
    obtain ⟨-, stage⟩ := (ensures_delete _ _ _ _ _ _).sound runs
    exact (stage outcome rfl).reported

-- A removal reported as not committed, and a change whose old secret stays

/-- Everything succeeds, except for replacing the settings and deleting secrets where refused. -/
def refusingHandler (isWritable isErasable : Bool) (state : CredentialState)
    : (call : CredentialCall) → call.Answer × CredentialState
  | .tryAcquireExclusive => (.ok true, state)
  | .readSettings => (.ok state.settings, state)
  | .replaceSettings settings =>
      if isWritable then
        (.ok (), state.syncing settings)
      else
        (.error (.notPersisted "disk full"), state)
  | .readJournal => (.ok state.journal, state)
  | .replaceJournal operations => (.ok (), state.storing operations)
  | .generate => (longerRef state.issued, state.issuing (longerRef state.issued))
  | .set credentialRef secret => (.ok (), state.keeping credentialRef secret)
  | .delete credentialRef =>
      if isErasable then
        (.ok (), state.removing credentialRef)
      else
        (.error (.unavailable "keyring locked"), state)

theorem refusingHandler_allowed {mayFail : Prop} {isWritable isErasable : Bool}
    (fails : (isWritable && isErasable) = false → mayFail) (state : CredentialState)
    (call : CredentialCall)
    : CredentialAnswers mayFail state call (refusingHandler isWritable isErasable state call).1
        (refusingHandler isWritable isErasable state call).2 := by
  cases call with
  | tryAcquireExclusive => exact .acquired state
  | readSettings => exact .settingsRead state
  | replaceSettings settings =>
      cases isWritable with
      | true => exact .settingsReplaced state settings
      | false => exact .settingsKept state settings _ (fails rfl)
  | readJournal => exact .journalRead state
  | replaceJournal operations => exact .journalReplaced state operations
  | generate => exact .generated state _ (longerRef_notMem state.issued)
  | set credentialRef secret => exact .secretSet state credentialRef secret
  | delete credentialRef =>
      cases isErasable with
      | true => exact .secretDeleted state credentialRef
      | false =>
          exact .deletionUnsure state state credentialRef _ (fails (Bool.and_false _)) (.inl rfl)

def recoveredBy (isErasable : Bool) (state : CredentialState) : CredentialState :=
  ((recoverAtStartup sampleStore sampleOwner).run.run (refusingHandler true isErasable) state).2

theorem recoveries_recoveredBy (isErasable : Bool) (state : CredentialState)
    : Recoveries state (recoveredBy isErasable state) :=
  .single ⟨sampleStore, sampleOwner, _,
    Program.runs_run (refusingHandler_allowed fun _ => trivial) _ state⟩

/-- A removal whose settings are not replaced. -/
def refusedRemoval : SaveOutcome × CredentialState :=
  (deleteCustomCredentialDetailed sampleStore sampleOwner 0 ⟨"cred"⟩ (sampleSettings none)).run
    (refusingHandler false true) sampleState

theorem refusedRemoval_runs
    : Program.Runs (credentialOutside True)
        (deleteCustomCredentialDetailed sampleStore sampleOwner 0 ⟨"cred"⟩ (sampleSettings none))
        sampleState (.finished refusedRemoval.1) refusedRemoval.2 :=
  Program.runs_run (refusingHandler_allowed fun _ => trivial) _ sampleState

/-- A change that is committed while the old secret cannot be deleted. -/
def lockedChange : SaveOutcome × CredentialState :=
  (updateCustomCredentialDetailed sampleStore sampleOwner ⟨0, some ⟨"cred"⟩⟩ "new key"
    fun newRef => sampleSettings (some newRef)).run (refusingHandler true false) sampleState

theorem lockedChange_runs
    : Program.Runs (credentialOutside True)
        (updateCustomCredentialDetailed sampleStore sampleOwner ⟨0, some ⟨"cred"⟩⟩ "new key"
          fun newRef => sampleSettings (some newRef))
        sampleState (.finished lockedChange.1) lockedChange.2 :=
  Program.runs_run (refusingHandler_allowed fun _ => trivial) _ sampleState

/-- A recovery follows the refused removal; two follow the change, of which the first cannot
delete the old secret either.
-/
theorem reports_kept_recovered
    : (SameCredential sampleState (recoveredBy true refusedRemoval.2)
        ∨ referenceOf (recoveredBy true refusedRemoval.2).settings = none)
      ∧ ∃ newRef, newRef ∉ sampleState.issued
        ∧ (referenceOf (recoveredBy false lockedChange.2).settings = some newRef
            ∧ (recoveredBy false lockedChange.2).secrets newRef = some "new key")
        ∧ (recoveredBy true (recoveredBy false lockedChange.2)).journal = []
        ∧ (recoveredBy true (recoveredBy false lockedChange.2)).secrets ⟨"cred"⟩ = none := by
  obtain ⟨changes, removals⟩ := reports_kept sampleState_atRest.issued
  constructor
  · exact (removals _ _ _ _ _ _ _ refusedRemoval_runs).withdrawing (by decide +kernel) rfl _
      (recoveries_recoveredBy true _)
  · obtain ⟨newRef, fresh, kept⟩ :=
      (changes _ _ _ _ _ _ _ lockedChange_runs).committed (by decide +kernel)
    obtain ⟨inForce, cleaned⟩ := kept _ (recoveries_recoveredBy false lockedChange.2)
    obtain ⟨recovered, finished⟩ : ∃ recovered,
        ((recoverAtStartup sampleStore sampleOwner).run.run (refusingHandler true true)
          (recoveredBy false lockedChange.2)).1 = .ok recovered :=
      ⟨_, rfl⟩
    have runs : Program.Runs (credentialOutside False) _ _ _ _ :=
      Program.runs_run (@refusingHandler_allowed False true true nofun)
        (recoverAtStartup sampleStore sampleOwner).run (recoveredBy false lockedChange.2)
    obtain ⟨emptied, erased⟩ := cleaned _ _ _ _ (finished ▸ runs)
    exact ⟨newRef, fresh, inForce, emptied, erased _ rfl⟩

/-- The removal was reported as not committed, and a later recovery completes it. -/
theorem recovery_completes_removal
    : ∃ error final,
        Program.Runs (credentialOutside True)
          (deleteCustomCredentialDetailed sampleStore sampleOwner 0 ⟨"cred"⟩ (sampleSettings none))
          sampleState (.finished (.notCommitted error)) refusedRemoval.2
        ∧ Recoveries refusedRemoval.2 final
        ∧ referenceOf sampleState.settings = some ⟨"cred"⟩
        ∧ referenceOf final.settings = none
        ∧ final.secrets ⟨"cred"⟩ = none := by
  have refused : refusedRemoval.1 = .notCommitted (.save (.io "disk full")) := by
    decide +kernel
  exact ⟨.save (.io "disk full"), recoveredBy true refusedRemoval.2, refused ▸ refusedRemoval_runs,
    recoveries_recoveredBy true _, rfl, by decide +kernel, by decide +kernel⟩

end Hane.Ai
