import Hane.Ai.CredentialSafety
import Mathlib.Algebra.Order.Group.Nat
import Mathlib.Algebra.Ring.Nat
import Mathlib.Algebra.Order.BigOperators.Group.List
import Mathlib.Algebra.Order.Monoid.Canonical.Basic

/-! Runs of credential operations, with crashes and losses of power between and inside them. -/

namespace Hane.Ai

open Hane.Foundations

-- What each operation keeps

theorem CredentialOperation.Names.sameOperation {left right : CredentialOperation}
    {kind : JournalOperationKind} {newRef oldRef : Option CredentialRef}
    (names : left.Names kind newRef oldRef) (names' : right.Names kind newRef oldRef)
    : left.SameOperation right :=
  ⟨names.kind.trans names'.kind.symm, names.newRef.trans names'.newRef.symm,
    names.oldRef.trans names'.oldRef.symm⟩

theorem CredentialOperation.Names.sides_update {operation : CredentialOperation}
    {newRef oldRef : Option CredentialRef} (names : operation.Names .update newRef oldRef)
    : operation.sides = [newRef, oldRef] := by
  simp [CredentialOperation.sides, names.kind, names.newRef, names.oldRef]

theorem CredentialOperation.Names.sides_delete {operation : CredentialOperation}
    {newRef oldRef : Option CredentialRef} (names : operation.Names .delete newRef oldRef)
    : operation.sides = [oldRef, none] := by
  simp [CredentialOperation.sides, names.kind, names.oldRef]

section Update

variable {state : CredentialState} {expectedRef : Option CredentialRef} {newSecret : String}
  {operation : CredentialOperation} {newRef : CredentialRef}

theorem UpdateBegins.differ (begins : UpdateBegins state expectedRef operation newRef)
    (orderly : Orderly state)
    : expectedRef ≠ some newRef := by
  intro same
  apply begins.fresh
  apply orderly.issued
  exact orderly.stored state.settings List.mem_cons_self newRef (begins.reference.trans same)

theorem UpdateBegins.begun (begins : UpdateBegins state expectedRef operation newRef)
    (orderly : Orderly state)
    : Orderly ((state.issuing newRef).storing [operation]) := by
  apply (orderly.issuing newRef).begin begins.journal
  · refine ⟨fun _ => ⟨newRef, begins.names.newRef, ?_⟩, fun kind => ?_⟩
    · rw [begins.names.oldRef]
      exact begins.differ orderly
    · simp [begins.names.kind] at kind
  · rw [begins.names.sides_update]
    change referenceOf state.settings ∈ _
    simp [begins.reference]

theorem UpdateBegins.prepared (begins : UpdateBegins state expectedRef operation newRef)
    (orderly : Orderly state)
    : Orderly (state.prepared newSecret operation newRef) := by
  apply (begins.begun orderly).keeping newSecret rfl
  · simp [begins.names.sides_update]
  · exact List.mem_cons_self

theorem UpdateBegins.references (begins : UpdateBegins state expectedRef operation newRef)
    (orderly : Orderly state) {contents : Option AiSettings}
    (member : contents ∈ (state.prepared newSecret operation newRef).contents)
    : referenceOf contents = expectedRef :=
  (List.mem_singleton.mp ((orderly.within_of_idle begins.journal).references contents member)).trans
    begins.reference

theorem UpdateBegins.replaced (begins : UpdateBegins state expectedRef operation newRef)
    (orderly : Orderly state) {settings : AiSettings}
    (references : settings.credentialRef = some newRef)
    : Orderly ((state.prepared newSecret operation newRef).swapping settings)
      ∧ Orderly ((state.prepared newSecret operation newRef).syncing settings) := by
  apply (begins.prepared orderly).replacing_pending rfl
  · simp [begins.names.sides_update, references]
  · intro credentialRef reference
    rw [references, Option.some.injEq] at reference
    subst reference
    simp [CredentialState.prepared, CredentialState.keeping]

theorem UpdateBegins.oneSided (begins : UpdateBegins state expectedRef operation newRef)
    (orderly : Orderly state) {settings : AiSettings} {marked : CredentialOperation}
    (references : settings.credentialRef = some newRef)
    (names : marked.Names .update (some newRef) expectedRef)
    : OneSided (((state.prepared newSecret operation newRef).syncing settings).storing [marked])
        marked expectedRef := by
  have reference : referenceOf (some settings) = some newRef := references
  refine ⟨rfl, ?_, ?_, ?_⟩
  · intro side member
    change side = referenceOf (some settings) ∨ side = expectedRef
    rw [reference]
    simpa [names.sides_update] using member
  · intro credentialRef same
    change referenceOf (some settings) ≠ some credentialRef
    rw [reference, ← same]
    exact (begins.differ orderly).symm
  · intro earlier member
    cases member

theorem UpdateBegins.marked (begins : UpdateBegins state expectedRef operation newRef)
    (orderly : Orderly state) {settings : AiSettings} {marked : CredentialOperation}
    (references : settings.credentialRef = some newRef)
    (names : marked.Names .update (some newRef) expectedRef)
    : Orderly (((state.prepared newSecret operation newRef).syncing settings).storing [marked]) :=
  (begins.replaced orderly references).2.mark rfl (begins.names.sameOperation names)

/-- Every stage of a change keeps the invariant. -/
theorem Orderly.update (orderly : Orderly state) {progress : Progress} {final : CredentialState}
    (stage : UpdateStage state expectedRef newSecret progress final)
    : Orderly final := by
  cases stage with
  | untouched => exact orderly
  | issued => exact orderly.issuing _
  | begun begins => exact begins.begun orderly
  | prepared begins => exact begins.prepared orderly
  | removed begins =>
      apply (begins.prepared orderly).removing rfl
      intro contents member
      rw [begins.references orderly member]
      exact begins.differ orderly
  | swapped begins references => exact (begins.replaced orderly references).1
  | synced begins references => exact (begins.replaced orderly references).2
  | marked begins references names => exact begins.marked orderly references names
  | cleaned begins references names =>
      exact (begins.marked orderly references names).without
        (begins.oneSided orderly references names)
  | completed begins references names =>
      exact (begins.marked orderly references names).complete
        (begins.oneSided orderly references names)

end Update

section Delete

variable {state : CredentialState} {oldRef : CredentialRef} {operation : CredentialOperation}

theorem DeleteBegins.begun (begins : DeleteBegins state oldRef operation)
    (orderly : Orderly state)
    : Orderly (state.storing [operation]) := by
  apply orderly.begin begins.journal
  · refine ⟨fun kind => ?_, fun _ => ⟨begins.names.newRef, oldRef, begins.names.oldRef⟩⟩
    simp [begins.names.kind] at kind
  · simp [begins.names.sides_delete, begins.reference]

theorem DeleteBegins.replaced (begins : DeleteBegins state oldRef operation)
    (orderly : Orderly state) {settings : AiSettings} (references : settings.credentialRef = none)
    : Orderly ((state.storing [operation]).swapping settings)
      ∧ Orderly ((state.storing [operation]).syncing settings) := by
  apply (begins.begun orderly).replacing_pending rfl
  · simp [begins.names.sides_delete, references]
  · intro credentialRef reference
    simp [references] at reference

theorem DeleteBegins.oneSided {settings : AiSettings} {marked : CredentialOperation}
    (references : settings.credentialRef = none)
    (names : marked.Names .delete none (some oldRef))
    : OneSided (((state.storing [operation]).syncing settings).storing [marked]) marked
        (some oldRef) := by
  have reference : referenceOf (some settings) = none := references
  refine ⟨rfl, ?_, ?_, ?_⟩
  · intro side member
    change side = referenceOf (some settings) ∨ side = some oldRef
    rw [reference]
    simpa [names.sides_delete, or_comm] using member
  · intro credentialRef _
    change referenceOf (some settings) ≠ some credentialRef
    simp [reference]
  · intro earlier member
    cases member

/-- Every stage of a removal keeps the invariant. -/
theorem Orderly.delete (orderly : Orderly state) {progress : Progress} {final : CredentialState}
    (stage : DeleteStage state oldRef progress final)
    : Orderly final := by
  cases stage with
  | untouched => exact orderly
  | begun begins => exact begins.begun orderly
  | swapped begins references => exact (begins.replaced orderly references).1
  | synced begins references => exact (begins.replaced orderly references).2
  | marked begins references names =>
      exact (begins.replaced orderly references).2.mark rfl (begins.names.sameOperation names)
  | removed begins references names =>
      have marked := (begins.replaced orderly references).2.mark rfl
        (begins.names.sameOperation names)
      exact marked.without (DeleteBegins.oneSided references names)
  | completed begins references names =>
      have marked := (begins.replaced orderly references).2.mark rfl
        (begins.names.sameOperation names)
      exact marked.complete (DeleteBegins.oneSided references names)

end Delete

section Recovery

variable {state base : CredentialState} {operation : CredentialOperation}
  {obsolete : Option CredentialRef}

/-- With an entry whose settings are settled, every way to resolve it is one-sided. -/
theorem Resolves.oneSided (resolves : Resolves state operation base obsolete)
    (orderly : Orderly state) (journal : state.journal = [operation]) (settled : state.Settled)
    : Orderly base ∧ OneSided base operation obsolete := by
  obtain ⟨shaped, within⟩ := orderly.pending journal
  cases resolves with
  | newSide kind reference =>
      obtain ⟨newRef, isNew, differ⟩ := shaped.update kind
      refine ⟨orderly, journal, ?_, ?_, settled⟩
      · intro side member
        simpa [CredentialOperation.sides, kind, reference] using member
      · intro credentialRef isOld same
        rw [reference, isNew] at same
        exact differ (isOld.trans same.symm)
  | oldSide kind other reference =>
      refine ⟨orderly, journal, ?_, ?_, settled⟩
      · intro side member
        simpa [CredentialOperation.sides, kind, reference, or_comm] using member
      · intro credentialRef isNew same
        exact other (same.trans isNew.symm)
  | @retried settings kind reference references =>
      have none : referenceOf (some settings) = none := references
      obtain ⟨-, oldRef, isOld⟩ := shaped.delete kind
      have replaced : Orderly (state.swapping settings) ∧ Orderly (state.syncing settings) :=
        orderly.replacing_pending journal (by simp [CredentialOperation.sides, kind, references])
          (by simp [references])
      refine ⟨replaced.2, journal, ?_, ?_, ?_⟩
      · intro side member
        change side = referenceOf (some settings) ∨ _
        rw [none]
        simpa [CredentialOperation.sides, kind, or_comm] using member
      · intro credentialRef _ same
        have impossible := none.symm.trans same
        cases impossible
      · intro earlier member
        cases member
  | cleared kind other reference =>
      refine ⟨orderly, journal, ?_, ?_, settled⟩
      · intro side member
        simpa [CredentialOperation.sides, kind, reference, or_comm] using member
      · intro credentialRef _ same
        have impossible := reference.symm.trans same
        cases impossible

/-- Every stage of a recovery of settled settings keeps the invariant. -/
theorem Orderly.recover {done : Bool} {final : CredentialState} (orderly : Orderly state)
    (journal : state.journal = [operation]) (settled : state.Settled)
    (stage : RecoveryStage state operation done final)
    : Orderly final := by
  cases stage with
  | waiting => exact orderly
  | swapped kind reference references =>
      refine (orderly.replacing_pending journal ?_ ?_).1
      · simp [CredentialOperation.sides, kind, references]
      · intro credentialRef reference
        simp [references] at reference
  | resolving resolves => exact (resolves.oneSided orderly journal settled).1
  | removed resolves =>
      obtain ⟨kept, oneSided⟩ := resolves.oneSided orderly journal settled
      exact kept.without oneSided
  | completed resolves =>
      obtain ⟨kept, oneSided⟩ := resolves.oneSided orderly journal settled
      exact kept.complete oneSided

/-- An entry that accounts for the settings has a side they reference. -/
theorem Orderly.not_undiagnosed (orderly : Orderly state) (journal : state.journal = [operation])
    : ¬ Undiagnosed state operation := by
  intro neither
  obtain ⟨-, within⟩ := orderly.pending journal
  have side := within.references state.settings List.mem_cons_self
  cases kind : operation.kind with
  | update =>
      obtain ⟨notNew, notOld⟩ := neither.1 kind
      simp [CredentialOperation.sides, kind, notNew, notOld] at side
  | delete =>
      obtain ⟨notOld, notNone⟩ := neither.2 kind
      simp [CredentialOperation.sides, kind, notOld, notNone] at side

end Recovery

/-- A save outside any credential operation keeps the invariant at every point. -/
theorem Orderly.save {mayFail : Prop} {state : CredentialState} (orderly : Orderly state)
    (store : AiSettingsStore) (owner : LockGuard) (expectedRevision : Nat)
    (newSettings : AiSettings)
    : Does mayFail Orderly (fun _ _ => True) (fun _ _ => True)
        (store.save owner expectedRevision newSettings CredentialJournal.isEmpty) state := by
  refine Program.Performs.bind (fun _ final => final = state)
    (.settled orderly (fun _ _ => rfl) fun _ _ => trivial) ?_
  intro _ final _ same
  subst same
  refine Program.Performs.bind
    (fun guard after => after = final ∧ ∀ held, guard = some held → held.path = store.lockPath)
    (.adapt ((does_tryAcquireExclusive orderly).mono (fun _ _ _ => id) fun _ _ _ _ => trivial)) ?_
  intro guard after _ reached
  obtain ⟨rfl, -⟩ := reached
  cases guard with
  | none => exact ⟨orderly, trivial⟩
  | some guard =>
      refine Program.Performs.bind
        (fun empty last => last = after ∧ empty = after.journal.isEmpty)
        (.adapt ((does_isEmpty orderly).mono (fun _ _ _ => id) fun _ _ _ _ => trivial)) ?_
      intro empty last _ reached
      obtain ⟨rfl, rfl⟩ := reached
      apply Program.Performs.ite
      · intro pending
        exact ⟨orderly, trivial⟩
      intro empty
      have journal : last.journal = [] := by simpa using empty
      refine Program.Performs.bind
        (fun current after => after = last ∧ current = last.settings.getD .default)
        (.adapt ((does_load orderly).mono (fun _ _ _ => id) fun _ _ _ _ => trivial)) ?_
      intro current after _ reached
      obtain ⟨rfl, rfl⟩ := reached
      apply Program.Performs.ite
      · intro conflict
        exact ⟨orderly, trivial⟩
      intro _
      apply Program.Performs.ite
      · intro mutation
        exact ⟨orderly, trivial⟩
      intro same
      obtain ⟨swapped, synced⟩ := @Orderly.replacing_idle after orderly
        (AiSettingsStore.stamped (after.settings.getD .default) newSettings) journal
        (not_not.mp same).symm
      exact (does_writeWhileLocked orderly swapped synced).mono (fun _ _ _ _ => trivial)
        fun _ _ _ _ => trivial

-- Runs

/-- One operation under the settings lock, finished or stopped by a crash, or a loss of power. A
recovery starts in the states it is allowed in.
-/
inductive CredentialStep (allowed : CredentialState → Prop)
    : CredentialState → CredentialState → Prop where
  | update {state final : CredentialState} {ending : Ending SaveOutcome} (store : AiSettingsStore)
      (owner : LockGuard) (expected : ExpectedCredentialState) (newSecret : String)
      (buildNewSettings : CredentialRef → AiSettings)
      (runs : Program.Runs (credentialOutside True)
        (updateCustomCredentialDetailed store owner expected newSecret buildNewSettings) state
        ending final)
      : CredentialStep allowed state final
  | delete {state final : CredentialState} {ending : Ending SaveOutcome} (store : AiSettingsStore)
      (owner : LockGuard) (expectedRevision : Nat) (oldRef : CredentialRef)
      (newSettings : AiSettings)
      (runs : Program.Runs (credentialOutside True)
        (deleteCustomCredentialDetailed store owner expectedRevision oldRef newSettings) state
        ending final)
      : CredentialStep allowed state final
  | save {state final : CredentialState} {ending : Ending (Except SaveError AiSettings)}
      (store : AiSettingsStore) (owner : LockGuard) (expectedRevision : Nat)
      (newSettings : AiSettings)
      (runs : Program.Runs (credentialOutside True)
        (store.save owner expectedRevision newSettings CredentialJournal.isEmpty).run state ending
        final)
      : CredentialStep allowed state final
  | recover {state final : CredentialState} {ending : Ending (Except ConnectError RecoveryOutcome)}
      (store : AiSettingsStore) (owner : LockGuard) (permitted : allowed state)
      (runs : Program.Runs (credentialOutside True) (recoverAtStartup store owner).run state ending
        final)
      : CredentialStep allowed state final
  | powerLoss {state : CredentialState} {found : Option AiSettings}
      (member : found ∈ state.contents)
      : CredentialStep allowed state { state with settings := found, unsynced := [] }

/-- One step keeps the invariant when recoveries start from settled settings. -/
theorem Orderly.step {state final : CredentialState} (orderly : Orderly state)
    (step : CredentialStep CredentialState.Settled state final)
    : Orderly final := by
  cases step with
  | update store owner expected newSecret buildNewSettings runs =>
      obtain ⟨⟨progress, stage⟩, -⟩ := (ensures_update _ _ _ _ _ _).sound runs
      exact orderly.update stage
  | delete store owner expectedRevision oldRef newSettings runs =>
      obtain ⟨⟨progress, stage⟩, -⟩ := (ensures_delete _ _ _ _ _ _).sound runs
      exact orderly.delete stage
  | save store owner expectedRevision newSettings runs =>
      exact ((orderly.save store owner expectedRevision newSettings).sound runs).1
  | recover store owner settled runs =>
      cases orderly.accounted with
      | idle journal within =>
          have same := ((does_recoverAtStartup_empty journal).sound runs).1
          exact same ▸ orderly
      | pending journal shaped within =>
          obtain ⟨⟨done, stage⟩, -⟩ :=
            (does_recoverAtStartup journal fun kind => (shaped.delete kind).1).sound runs
          exact orderly.recover journal settled stage
  | powerLoss member => exact orderly.powerLoss member

/-- Nothing is under way: the journal is empty, the settings are synced, and the only secret is
the referenced one.
-/
structure AtRest (state : CredentialState) : Prop where
  journal : state.journal = []
  unsynced : state.unsynced = []
  dropped : state.dropped = []
  secrets :
    ∀ credentialRef,
      state.secrets credentialRef ≠ none ↔ referenceOf state.settings = some credentialRef
  issued :
    ∀ credentialRef, referenceOf state.settings = some credentialRef
      → credentialRef ∈ state.issued

theorem AtRest.orderly {state : CredentialState} (atRest : AtRest state) : Orderly state := by
  have contents : state.contents = [state.settings] := by
    rw [CredentialState.contents, atRest.unsynced]
  refine {
    stored := ?_
    accounted := .idle atRest.journal ⟨?_, ?_⟩
    issued := fun credentialRef kept =>
      atRest.issued credentialRef ((atRest.secrets credentialRef).mp kept)
    dropped := ?_
  }
  · intro found member credentialRef reference
    rw [contents, List.mem_singleton] at member
    subst member
    exact (atRest.secrets credentialRef).mpr reference
  · intro found member
    rw [contents, List.mem_singleton] at member
    subst member
    exact List.mem_singleton.mpr rfl
  · intro credentialRef kept
    exact List.mem_singleton.mpr ((atRest.secrets credentialRef).mp kept).symm
  · intro entry member
    rw [atRest.dropped] at member
    cases member

/-- Whatever the settings may turn out to reference has its secret, and an entry left the journal
only when no secret of it was kept but the referenced one.
-/
structure CredentialsKept (state : CredentialState) : Prop where
  stored :
    ∀ contents ∈ state.contents, ∀ credentialRef, referenceOf contents = some credentialRef
      → state.secrets credentialRef ≠ none
  dropped :
    ∀ entry ∈ state.dropped, ∀ credentialRef,
      some credentialRef = entry.operation.newCredentialRef
        ∨ some credentialRef = entry.operation.oldCredentialRef
      → entry.secrets credentialRef ≠ none
      → referenceOf entry.settings = some credentialRef

/-- Runs keep the invariant, by induction on the steps. -/
theorem Orderly.steps {start state : CredentialState} (orderly : Orderly start)
    (run : Relation.ReflTransGen (CredentialStep CredentialState.Settled) start state)
    : Orderly state := by
  induction run with
  | refl => exact orderly
  | tail _ step ih => exact ih.step step

theorem Orderly.recovered {state final : CredentialState} (orderly : Orderly state)
    (settled : state.Settled) {store : AiSettingsStore} {owner : LockGuard}
    {outcome : RecoveryOutcome}
    (runs : Program.Runs (credentialOutside False) (recoverAtStartup store owner).run state
      (.finished (.ok outcome)) final)
    : final.journal = []
      ∧ ∀ credentialRef, final.secrets credentialRef ≠ none
        → referenceOf final.settings = some credentialRef := by
  have done (after : CredentialState) (journal : after.journal = []) (kept : Orderly after)
      : after.journal = [] ∧ ∀ credentialRef, after.secrets credentialRef ≠ none
        → referenceOf after.settings = some credentialRef := by
    refine ⟨journal, fun credentialRef secret => ?_⟩
    exact (List.mem_singleton.mp ((kept.within_of_idle journal).secrets credentialRef secret)).symm
  cases orderly.accounted with
  | idle journal within =>
      have same := ((does_recoverAtStartup_empty journal).sound runs).1
      exact same ▸ done state journal orderly
  | pending journal shaped within =>
      obtain ⟨-, reached⟩ :=
        (does_recoverAtStartup journal fun kind => (shaped.delete kind).1).sound runs
      rcases reached outcome rfl with impossible | neither | stage
      · exact impossible.elim
      · exact absurd neither (orderly.not_undiagnosed journal)
      · have kept := orderly.recover journal settled stage
        cases stage with
        | completed resolves => exact done _ rfl kept

/-- In every run from rest whose recoveries start from settled settings, every secret the settings
may need is in the store at every moment, no entry leaves the journal before its secrets, and a
recovery in which nothing fails leaves no entry and no secret but the referenced one.
-/
theorem credentials_kept {start state : CredentialState} (atRest : AtRest start)
    (run : Relation.ReflTransGen (CredentialStep CredentialState.Settled) start state)
    : CredentialsKept state
      ∧ ∀ store owner outcome final, state.Settled
        → Program.Runs (credentialOutside False) (recoverAtStartup store owner).run state
            (.finished (.ok outcome)) final
        → final.journal = []
          ∧ ∀ credentialRef, final.secrets credentialRef ≠ none
            → referenceOf final.settings = some credentialRef := by
  have orderly := atRest.orderly.steps run
  refine ⟨⟨orderly.stored, orderly.dropped⟩, ?_⟩
  intro store owner outcome final settled runs
  exact orderly.recovered settled runs

-- A recovery before the settings are durable

/-- A reference longer than every one given out. -/
def longerRef (issued : List CredentialRef) : CredentialRef :=
  ⟨String.ofList (List.replicate ((issued.map (·.id.length)).sum + 1) 'c')⟩

theorem longerRef_notMem (issued : List CredentialRef) : longerRef issued ∉ issued := by
  intro member
  have bound : (longerRef issued).id.length ≤ (issued.map (·.id.length)).sum :=
    List.single_le_sum (fun _ _ => Nat.zero_le _) _ (List.mem_map_of_mem member)
  simp only [longerRef, String.length_ofList, List.length_replicate] at bound
  omega

/-- Everything succeeds but the sync of the settings, and the journal where it is not writable. -/
def unsyncedHandler (isWritable : Bool) (state : CredentialState)
    : (call : CredentialCall) → call.Answer × CredentialState
  | .tryAcquireExclusive => (.ok true, state)
  | .readSettings => (.ok state.settings, state)
  | .replaceSettings settings =>
      (.error (.renameSucceededSyncFailed "fsync"), state.swapping settings)
  | .readJournal => (.ok state.journal, state)
  | .replaceJournal operations =>
      if isWritable then
        (.ok (), state.storing operations)
      else
        (.error (.notPersisted "disk full"), state)
  | .generate => (longerRef state.issued, state.issuing (longerRef state.issued))
  | .set credentialRef secret => (.ok (), state.keeping credentialRef secret)
  | .delete credentialRef => (.ok (), state.removing credentialRef)

theorem unsyncedHandler_allowed (isWritable : Bool) (state : CredentialState) (call : CredentialCall)
    : CredentialAnswers True state call (unsyncedHandler isWritable state call).1
        (unsyncedHandler isWritable state call).2 := by
  cases call with
  | tryAcquireExclusive => exact .acquired state
  | readSettings => exact .settingsRead state
  | replaceSettings settings => exact .settingsSwapped state settings _ trivial
  | readJournal => exact .journalRead state
  | replaceJournal operations =>
      cases isWritable with
      | true => exact .journalReplaced state operations
      | false => exact .journalKept state operations _ trivial
  | generate => exact .generated state _ (longerRef_notMem state.issued)
  | set credentialRef secret => exact .secretSet state credentialRef secret
  | delete credentialRef => exact .secretDeleted state credentialRef

def sampleStore : AiSettingsStore := ⟨"ai-settings.lock", "runtime-owner.lock"⟩

def sampleOwner : LockGuard := ⟨"runtime-owner.lock"⟩

/-- Settings whose custom connection has a credential. -/
def sampleSettings (credentialRef : Option CredentialRef) : AiSettings :=
  { AiSettings.default with
    custom := some ⟨"custom", "Custom", "https://example.com", "model", credentialRef⟩ }

/-- At rest with one credential. -/
def sampleState : CredentialState where
  settings := some (sampleSettings (some ⟨"cred"⟩))
  unsynced := []
  journal := []
  secrets := Function.update (fun _ => none) ⟨"cred"⟩ (some "key")
  issued := [⟨"cred"⟩]
  dropped := []

theorem sampleState_atRest : AtRest sampleState := by
  refine ⟨rfl, rfl, rfl, ?_, ?_⟩
  · intro credentialRef
    by_cases same : credentialRef = ⟨"cred"⟩
    · simp [same, sampleState, sampleSettings, referenceOf, AiSettings.credentialRef]
    · simp [same, Ne.symm same, sampleState, sampleSettings, referenceOf,
        AiSettings.credentialRef]
  · intro credentialRef reference
    have same : some ⟨"cred"⟩ = some credentialRef := reference
    simp [sampleState, Option.some.inj same]

/-- A change of the credential whose settings are replaced but not synced. -/
def unsyncedState : CredentialState :=
  ((updateCustomCredentialDetailed sampleStore sampleOwner ⟨0, some ⟨"cred"⟩⟩ "new key"
    fun newRef => sampleSettings (some newRef)).run (unsyncedHandler true) sampleState).2

theorem unsyncedState_reached (allowed : CredentialState → Prop)
    : CredentialStep allowed sampleState unsyncedState :=
  .update sampleStore sampleOwner ⟨0, some ⟨"cred"⟩⟩ "new key" _
    (Program.runs_run (unsyncedHandler_allowed true) _ sampleState)

/-- The same once power was lost and the old settings are back. -/
def revertedState : CredentialState :=
  { unsyncedState with settings := some (sampleSettings (some ⟨"cred"⟩)), unsynced := [] }

theorem credentials_kept_reverted
    : CredentialsKept revertedState
      ∧ ∀ store owner outcome final, revertedState.Settled
        → Program.Runs (credentialOutside False) (recoverAtStartup store owner).run revertedState
            (.finished (.ok outcome)) final
        → final.journal = []
          ∧ ∀ credentialRef, final.secrets credentialRef ≠ none
            → referenceOf final.settings = some credentialRef :=
  credentials_kept sampleState_atRest
    ((Relation.ReflTransGen.single (unsyncedState_reached _)).tail
      (.powerLoss (by decide +kernel)))

/-- The state after a recovery from there in the same boot, whose journal write fails. -/
def recoveredState : CredentialState :=
  ((recoverAtStartup sampleStore sampleOwner).run.run (unsyncedHandler false) unsyncedState).2

/-- A recovery before the settings are durable deletes the secret that they reference once power
is lost.
-/
theorem recovery_loses_secret
    : ∃ final,
        Relation.ReflTransGen (CredentialStep fun _ => True) sampleState final
        ∧ referenceOf final.settings = some ⟨"cred"⟩
        ∧ final.secrets ⟨"cred"⟩ = none := by
  refine ⟨{ recoveredState with settings := some (sampleSettings (some ⟨"cred"⟩)), unsynced := [] },
    ((Relation.ReflTransGen.single (unsyncedState_reached _)).tail ?_).tail
      (.powerLoss (by decide +kernel)), by decide +kernel, by decide +kernel⟩
  exact .recover sampleStore sampleOwner trivial
    (Program.runs_run (unsyncedHandler_allowed false) _ unsyncedState)

end Hane.Ai
