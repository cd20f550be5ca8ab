import Hane.Ai.RecoveryStages
import Mathlib.Logic.Relation

/-! No secret the settings may need is lost, and none is left behind, through any run of changes,
removals, saves, recoveries, crashes and losses of power.
-/

namespace Hane.Ai

open Hane.Foundations

/-- The references the settings may have while an entry is pending. -/
def CredentialOperation.sides (operation : CredentialOperation) : List (Option CredentialRef) :=
  match operation.kind with
  | .update => [operation.newCredentialRef, operation.oldCredentialRef]
  | .delete => [operation.oldCredentialRef, none]

/-- An entry names the references of its kind, and the two of a change differ. -/
structure CredentialOperation.Shaped (operation : CredentialOperation) : Prop where
  update :
    operation.kind = .update → ∃ newRef, operation.newCredentialRef = some newRef
      ∧ operation.oldCredentialRef ≠ some newRef
  delete :
    operation.kind = .delete → operation.newCredentialRef = none
      ∧ ∃ oldRef, operation.oldCredentialRef = some oldRef

namespace CredentialState

/-- Everything the settings file may turn out to contain. -/
def contents (state : CredentialState) : List (Option AiSettings) :=
  state.settings :: state.unsynced

/-- No loss of power brings back settings with another reference. -/
def Settled (state : CredentialState) : Prop :=
  ∀ earlier ∈ state.unsynced, referenceOf earlier = referenceOf state.settings

end CredentialState

/-- References and secrets are among the given ones. -/
structure Within (sides : List (Option CredentialRef)) (state : CredentialState) : Prop where
  references : ∀ contents ∈ state.contents, referenceOf contents ∈ sides
  secrets : ∀ credentialRef, state.secrets credentialRef ≠ none → some credentialRef ∈ sides

/-- At most one entry is pending, and it accounts for everything. -/
inductive Accounted (state : CredentialState) : Prop where
  | idle (journal : state.journal = []) (within : Within [referenceOf state.settings] state)
  | pending {operation : CredentialOperation} (journal : state.journal = [operation])
      (shaped : operation.Shaped) (within : Within operation.sides state)

structure Orderly (state : CredentialState) : Prop where
  stored :
    ∀ contents ∈ state.contents, ∀ credentialRef, referenceOf contents = some credentialRef
      → state.secrets credentialRef ≠ none
  accounted : Accounted state
  issued : ∀ credentialRef, state.secrets credentialRef ≠ none → credentialRef ∈ state.issued
  dropped :
    ∀ entry ∈ state.dropped, ∀ credentialRef,
      some credentialRef = entry.operation.newCredentialRef
        ∨ some credentialRef = entry.operation.oldCredentialRef
      → entry.secrets credentialRef ≠ none
      → referenceOf entry.settings = some credentialRef

-- Single changes

section Orderly

variable {state : CredentialState} {operation : CredentialOperation} (orderly : Orderly state)

include orderly

theorem Orderly.within_of_idle (journal : state.journal = [])
    : Within [referenceOf state.settings] state := by
  cases orderly.accounted with
  | idle _ within => exact within
  | pending journal' => simp [journal] at journal'

theorem Orderly.pending (journal : state.journal = [operation])
    : operation.Shaped ∧ Within operation.sides state := by
  cases orderly.accounted with
  | idle journal' => simp [journal] at journal'
  | pending journal' shaped within =>
      rw [journal, List.singleton_inj] at journal'
      subst journal'
      exact ⟨shaped, within⟩

theorem Orderly.issuing (credentialRef : CredentialRef) : Orderly (state.issuing credentialRef) := by
  refine {
    stored := orderly.stored
    accounted := ?_
    issued := fun other kept => List.mem_cons_of_mem _ (orderly.issued other kept)
    dropped := orderly.dropped
  }
  cases orderly.accounted with
  | idle journal within => exact .idle journal ⟨within.references, within.secrets⟩
  | pending journal shaped within =>
      exact .pending journal shaped ⟨within.references, within.secrets⟩

theorem Orderly.begin (journal : state.journal = []) (shaped : operation.Shaped)
    (side : referenceOf state.settings ∈ operation.sides)
    : Orderly (state.storing [operation]) := by
  have within := orderly.within_of_idle journal
  refine {
    stored := orderly.stored
    accounted := .pending rfl shaped ⟨?_, ?_⟩
    issued := orderly.issued
    dropped := ?_
  }
  · intro contents member
    have same := List.mem_singleton.mp (within.references contents member)
    exact same ▸ side
  · intro credentialRef kept
    have same := List.mem_singleton.mp (within.secrets credentialRef kept)
    exact same ▸ side
  · intro entry member
    simp only [CredentialState.storing, journal, List.filter_nil, List.map_nil,
      List.nil_append] at member
    exact orderly.dropped entry member

theorem Orderly.mark {marked : CredentialOperation} (journal : state.journal = [operation])
    (same : operation.SameOperation marked)
    : Orderly (state.storing [marked]) := by
  obtain ⟨shaped, within⟩ := orderly.pending journal
  have ⟨kind, newRef, oldRef⟩ := same
  refine {
    stored := orderly.stored
    accounted := .pending rfl ⟨?_, ?_⟩ ⟨?_, ?_⟩
    issued := orderly.issued
    dropped := ?_
  }
  · rw [← kind, ← newRef, ← oldRef]
    exact shaped.update
  · rw [← kind, ← newRef, ← oldRef]
    exact shaped.delete
  · simp only [CredentialOperation.sides, ← kind, ← newRef, ← oldRef]
    exact within.references
  · simp only [CredentialOperation.sides, ← kind, ← newRef, ← oldRef]
    exact within.secrets
  · intro entry member
    apply orderly.dropped entry
    simpa [CredentialState.storing, journal, same] using member

theorem Orderly.keeping {credentialRef : CredentialRef} (secret : String)
    (journal : state.journal = [operation]) (side : some credentialRef ∈ operation.sides)
    (given : credentialRef ∈ state.issued)
    : Orderly (state.keeping credentialRef secret) := by
  obtain ⟨shaped, within⟩ := orderly.pending journal
  have elsewhere (other : CredentialRef) (kept : (state.keeping credentialRef secret).secrets other ≠ none)
      : other = credentialRef ∨ state.secrets other ≠ none := by
    by_cases same : other = credentialRef
    · exact .inl same
    · right
      simpa [CredentialState.keeping, Function.update_of_ne same] using kept
  refine {
    stored := ?_
    accounted := .pending journal shaped ⟨within.references, ?_⟩
    issued := ?_
    dropped := orderly.dropped
  }
  · intro contents member other reference
    by_cases same : other = credentialRef
    · simp [CredentialState.keeping, same]
    · simpa [CredentialState.keeping, Function.update_of_ne same]
        using orderly.stored contents member other reference
  · intro other kept
    rcases elsewhere other kept with rfl | before
    · exact side
    · exact within.secrets other before
  · intro other kept
    rcases elsewhere other kept with rfl | before
    · exact given
    · exact orderly.issued other before

theorem Orderly.removing {credentialRef : CredentialRef} (journal : state.journal = [operation])
    (unreferenced : ∀ contents ∈ state.contents, referenceOf contents ≠ some credentialRef)
    : Orderly (state.removing credentialRef) := by
  obtain ⟨shaped, within⟩ := orderly.pending journal
  have before (other : CredentialRef) (kept : (state.removing credentialRef).secrets other ≠ none)
      : state.secrets other ≠ none := by
    by_cases same : other = credentialRef
    · simp [CredentialState.removing, same] at kept
    · simpa [CredentialState.removing, Function.update_of_ne same] using kept
  refine {
    stored := ?_
    accounted := .pending journal shaped
      ⟨within.references, fun other kept => within.secrets other (before other kept)⟩
    issued := fun other kept => orderly.issued other (before other kept)
    dropped := orderly.dropped
  }
  intro contents member other reference
  have same : other ≠ credentialRef := fun same => unreferenced contents member (same ▸ reference)
  simpa [CredentialState.removing, Function.update_of_ne same]
    using orderly.stored contents member other reference

theorem Orderly.replacing {settings : AiSettings}
    (accounted : Accounted (state.swapping settings) ∧ Accounted (state.syncing settings))
    (kept : ∀ credentialRef, settings.credentialRef = some credentialRef
      → state.secrets credentialRef ≠ none)
    : Orderly (state.swapping settings) ∧ Orderly (state.syncing settings) := by
  refine ⟨⟨?_, accounted.1, orderly.issued, orderly.dropped⟩,
    ⟨?_, accounted.2, orderly.issued, orderly.dropped⟩⟩
  · intro contents member credentialRef reference
    rcases List.mem_cons.mp member with rfl | earlier
    · exact kept credentialRef reference
    · exact orderly.stored contents earlier credentialRef reference
  · intro contents member credentialRef reference
    have same := List.mem_singleton.mp member
    subst same
    exact kept credentialRef reference

theorem Orderly.replacing_pending {settings : AiSettings} (journal : state.journal = [operation])
    (side : settings.credentialRef ∈ operation.sides)
    (kept : ∀ credentialRef, settings.credentialRef = some credentialRef
      → state.secrets credentialRef ≠ none)
    : Orderly (state.swapping settings) ∧ Orderly (state.syncing settings) := by
  obtain ⟨shaped, within⟩ := orderly.pending journal
  refine orderly.replacing ⟨.pending journal shaped ⟨?_, within.secrets⟩,
    .pending journal shaped ⟨?_, within.secrets⟩⟩ kept
  · intro contents member
    rcases List.mem_cons.mp member with rfl | earlier
    · exact side
    · exact within.references contents earlier
  · intro contents member
    have same := List.mem_singleton.mp member
    subst same
    exact side

theorem Orderly.replacing_idle {settings : AiSettings} (journal : state.journal = [])
    (same : settings.credentialRef = referenceOf state.settings)
    : Orderly (state.swapping settings) ∧ Orderly (state.syncing settings) := by
  have within := orderly.within_of_idle journal
  have reference : referenceOf (some settings) = referenceOf state.settings := same
  refine orderly.replacing ⟨.idle journal ⟨?_, ?_⟩, .idle journal ⟨?_, ?_⟩⟩ ?_
  · intro contents member
    rcases List.mem_cons.mp member with rfl | earlier
    · exact List.mem_singleton.mpr rfl
    · exact List.mem_singleton.mpr
        ((List.mem_singleton.mp (within.references contents earlier)).trans reference.symm)
  · intro credentialRef kept
    exact List.mem_singleton.mpr
      ((List.mem_singleton.mp (within.secrets credentialRef kept)).trans reference.symm)
  · intro contents member
    have here := List.mem_singleton.mp member
    subst here
    exact List.mem_singleton.mpr rfl
  · intro credentialRef kept
    exact List.mem_singleton.mpr
      ((List.mem_singleton.mp (within.secrets credentialRef kept)).trans reference.symm)
  · intro credentialRef references
    exact orderly.stored state.settings List.mem_cons_self credentialRef
      (same ▸ references)

theorem Orderly.powerLoss {found : Option AiSettings} (member : found ∈ state.contents)
    : Orderly { state with settings := found, unsynced := [] } := by
  refine {
    stored := ?_
    accounted := ?_
    issued := orderly.issued
    dropped := orderly.dropped
  }
  · intro contents here
    have same := List.mem_singleton.mp here
    exact orderly.stored contents (same ▸ member)
  · cases orderly.accounted with
    | idle journal within =>
        have reference := List.mem_singleton.mp (within.references found member)
        refine .idle journal ⟨fun contents here => ?_, fun credentialRef kept => ?_⟩
        · exact List.mem_singleton.mpr (congrArg referenceOf (List.mem_singleton.mp here))
        · exact List.mem_singleton.mpr
            ((List.mem_singleton.mp (within.secrets credentialRef kept)).trans reference.symm)
    | pending journal shaped within =>
        refine .pending journal shaped ⟨fun contents here => ?_, within.secrets⟩
        exact within.references contents (List.mem_singleton.mp here ▸ member)

end Orderly

-- Resolving an entry

/-- The settings durably reference one side of the only entry, and the other side is obsolete. -/
structure OneSided (state : CredentialState) (operation : CredentialOperation)
    (obsolete : Option CredentialRef) : Prop where
  journal : state.journal = [operation]
  sides : ∀ side ∈ operation.sides, side = referenceOf state.settings ∨ side = obsolete
  obsolete :
    ∀ credentialRef, obsolete = some credentialRef
      → referenceOf state.settings ≠ some credentialRef
  settled : state.Settled

section OneSided

variable {state : CredentialState} {operation : CredentialOperation}
  {obsolete : Option CredentialRef} (orderly : Orderly state)
  (oneSided : OneSided state operation obsolete)

include oneSided

theorem OneSided.reference {contents : Option AiSettings} (member : contents ∈ state.contents)
    : referenceOf contents = referenceOf state.settings := by
  rcases List.mem_cons.mp member with rfl | earlier
  · rfl
  · exact oneSided.settled contents earlier

include orderly

theorem Orderly.without : Orderly (state.without obsolete) := by
  cases obsolete with
  | none => exact orderly
  | some credentialRef =>
      apply orderly.removing oneSided.journal
      intro contents member reference
      exact oneSided.obsolete credentialRef rfl ((oneSided.reference member).symm.trans reference)

/-- Once it is deleted, no secret but the referenced one is left. -/
theorem Orderly.referenced_of_without {credentialRef : CredentialRef}
    (kept : (state.without obsolete).secrets credentialRef ≠ none)
    : referenceOf state.settings = some credentialRef := by
  obtain ⟨-, within⟩ := orderly.pending oneSided.journal
  cases obsolete with
  | none =>
      rcases oneSided.sides _ (within.secrets credentialRef kept) with reference | none
      · exact reference.symm
      · cases none
  | some old =>
      have other : credentialRef ≠ old := by
        intro same
        simp [CredentialState.without, CredentialState.removing, same] at kept
      have before : state.secrets credentialRef ≠ none := by
        simpa [CredentialState.without, CredentialState.removing, Function.update_of_ne other]
          using kept
      rcases oneSided.sides _ (within.secrets credentialRef before) with reference | same
      · exact reference.symm
      · exact absurd (Option.some.inj same) other

/-- And the entry may be dropped. -/
theorem Orderly.complete : Orderly ((state.without obsolete).storing []) := by
  have cleaned := orderly.without oneSided
  have settings : (state.without obsolete).settings = state.settings := by
    cases obsolete <;> rfl
  have contents : (state.without obsolete).contents = state.contents := by
    cases obsolete <;> rfl
  refine {
    stored := cleaned.stored
    accounted := .idle rfl ⟨?_, ?_⟩
    issued := cleaned.issued
    dropped := ?_
  }
  · intro found member
    change found ∈ (state.without obsolete).contents at member
    rw [contents] at member
    change referenceOf found ∈ [referenceOf (state.without obsolete).settings]
    rw [settings]
    exact List.mem_singleton.mpr (oneSided.reference member)
  · intro credentialRef kept
    change some credentialRef ∈ [referenceOf (state.without obsolete).settings]
    rw [settings]
    exact List.mem_singleton.mpr (orderly.referenced_of_without oneSided kept).symm
  · intro entry member credentialRef names kept
    rcases List.mem_append.mp member with fresh | before
    · obtain ⟨operation, -, rfl⟩ := List.mem_map.mp fresh
      change referenceOf (state.without obsolete).settings = some credentialRef
      rw [settings]
      exact orderly.referenced_of_without oneSided kept
    · exact cleaned.dropped entry before credentialRef names kept

end OneSided

end Hane.Ai
