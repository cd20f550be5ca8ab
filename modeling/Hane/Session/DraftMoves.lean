import Hane.Session.DraftReading

/-! What one step of the journal does to a draft: the calls of a draft take turns, and no step is
about the files of two of them.
-/

namespace Hane.Session

open Hane.Document Hane.Foundations

-- Views

/-- What there is of one draft. -/
structure DraftView where
  entry : Option (List UInt8)
  temporary : Option (List UInt8)
  text : Option (List UInt8)
  target : Option (List UInt8)
  newest : Nat
  stage : DraftStage

/-- What a recovery makes of it. -/
def DraftView.draft (root : OsPath) (id : DraftId) (view : DraftView) : Option RecoveredDraft :=
  match view.entry with
  | some bytes =>
    (decodeEntry bytes).map fun (encoded, text) => ⟨id, text, decodeTarget root encoded⟩
  | none =>
    (view.text.bind textFromUtf8).map fun text =>
      ⟨id, text, view.target.elim root (decodeTarget root)⟩

/-- What a step settles. -/
inductive DraftEvent where
  | taken (sequence : Nat)
  | accepted (id : DraftId) (snapshot : Snapshot)
  | removing (id : DraftId) (sequence : Nat)
  | deleted (id : DraftId)
  | ended
  deriving DecidableEq

namespace DraftStore

variable {store next : DraftStore} {id other : DraftId} {name : Text} {action : DraftAction}

def view (store : DraftStore) (id : DraftId) : DraftView where
  entry := store.files id.entryFileName
  temporary := store.files id.temporaryName
  text := store.files id.fileName
  target := store.files id.targetFileName
  newest := store.newest id
  stage := store.stage id

/-- A draft is gone with the file that a recovery would have read. -/
def event (store : DraftStore) : DraftAction → List DraftEvent
  | .takeSequence => [.taken store.nextSequence]
  | .rename id true =>
    match store.stage id with
    | .filled snapshot => [.accepted id snapshot]
    | _ => []
  | .remove id => [.removing id (max (store.newest id) store.nextSequence)]
  | .removeFile id true =>
    match store.stage id with
    | .removingText => if store.files id.entryFileName = none then [.deleted id] else []
    | .removingEntry => [.deleted id]
    | _ => []
  | .crash => [.ended]
  | _ => []

theorem readDraft_view (root : OsPath) (store : DraftStore) (id : DraftId)
    : readDraft root store.read id = (store.view id).draft root id := by
  unfold readDraft DraftView.draft
  cases entry : store.files id.entryFileName with
  | some bytes => simp only [read, view, entry]
  | none =>
      simp only [read, view, entry, readLegacy]
      cases text : store.files id.fileName with
      | none => rfl
      | some bytes =>
          simp only [Except.toOption, Option.bind_some]
          cases valid : textFromUtf8 bytes with
          | none => rfl
          | some text => cases store.files id.targetFileName <;> rfl

@[simp] theorem view_withStage (stage : DraftStage)
    : (store.withStage id stage).view id = { store.view id with stage := stage } := by
  simp [view, withStage]

@[simp] theorem view_withNewest (sequence : Nat)
    : (store.withNewest id sequence).view id = { store.view id with newest := sequence } := by
  simp [view, withNewest]

section Files

variable (contents : Option (List UInt8))

@[simp] theorem view_withFile_entry
    : (store.withFile id.entryFileName contents).view id
      = { store.view id with entry := contents } := by
  have apart := id.names_nodup
  simp only [DraftId.names, List.nodup_cons, List.mem_cons, not_or] at apart
  simp [view, withFile, Function.update, Ne.symm apart.1.1, Ne.symm apart.1.2.1,
    Ne.symm apart.1.2.2.1]

@[simp] theorem view_withFile_temporary
    : (store.withFile id.temporaryName contents).view id
      = { store.view id with temporary := contents } := by
  have apart := id.names_nodup
  simp only [DraftId.names, List.nodup_cons, List.mem_cons, not_or] at apart
  simp [view, withFile, Function.update, apart.1, Ne.symm apart.2.1.1, Ne.symm apart.2.1.2.1]

@[simp] theorem view_withFile_text
    : (store.withFile id.fileName contents).view id
      = { store.view id with text := contents } := by
  have apart := id.names_nodup
  simp only [DraftId.names, List.nodup_cons, List.mem_cons, not_or] at apart
  simp [view, withFile, Function.update, apart.1, apart.2.1, Ne.symm apart.2.2.1.1]

@[simp] theorem view_withFile_target
    : (store.withFile id.targetFileName contents).view id
      = { store.view id with target := contents } := by
  have apart := id.names_nodup
  simp only [DraftId.names, List.nodup_cons, List.mem_cons, not_or] at apart
  simp [view, withFile, Function.update, apart.1, apart.2.1, apart.2.2.1]

end Files

-- Frames

/-- Nothing of the other drafts is changed. -/
structure Only (id : DraftId) (store next : DraftStore) : Prop where
  root : next.root = store.root
  views : ∀ other, other ≠ id → next.view other = store.view other

theorem Only.refl (id : DraftId) (store : DraftStore) : Only id store store :=
  ⟨rfl, fun _ _ => rfl⟩

theorem Only.withStage (same : Only id store next) (stage : DraftStage)
    : Only id store (next.withStage id stage) where
  root := same.root
  views other apart := by
    rw [← same.views other apart]
    simp [view, DraftStore.withStage, apart]

theorem Only.withNewest (same : Only id store next) (sequence : Nat)
    : Only id store (next.withNewest id sequence) where
  root := same.root
  views other apart := by
    rw [← same.views other apart]
    simp [view, DraftStore.withNewest, apart]

theorem Only.withFile (same : Only id store next) (own : name ∈ id.names)
    (contents : Option (List UInt8)) : Only id store (next.withFile name contents) where
  root := same.root
  views other apart := by
    rw [← same.views other apart]
    have differs : ∀ held ∈ other.names, held ≠ name := by
      rintro held among rfl
      exact apart (DraftId.names_apart among own)
    simp only [DraftId.names, List.forall_mem_cons] at differs
    simp [view, DraftStore.withFile, differs]

end DraftStore

-- Moves

/-- What a step does to the draft it is about. `fresh` is the next number of a snapshot. -/
inductive DraftMove (root : OsPath) (id : DraftId) (fresh : Nat) (view : DraftView)
    : DraftAction → DraftView → List DraftEvent → Prop
  | numbered : DraftMove root id fresh view .takeSequence view [.taken fresh]
  | dropped {snapshot : Snapshot}
      : snapshot.sequence < view.newest
        → DraftMove root id fresh view (.writeSnapshot id snapshot) view []
  | begun {snapshot : Snapshot}
      : view.newest ≤ snapshot.sequence
        → DraftMove root id fresh view (.writeSnapshot id snapshot)
            { view with stage := .making snapshot } []
  | made {snapshot : Snapshot}
      : view.stage = .making snapshot
        → DraftMove root id fresh view (.createDir id true)
            { view with stage := .filling snapshot } []
  | grown {snapshot : Snapshot} {count : Nat}
      : view.stage = .filling snapshot
        → DraftMove root id fresh view (.fillPart id count)
            { view with temporary := some ((snapshot.entry root).take count) } []
  | filled {snapshot : Snapshot}
      : view.stage = .filling snapshot
        → DraftMove root id fresh view (.fill id true)
            { view with
              temporary := some (snapshot.entry root)
              stage := .filled snapshot } []
  | renamed {snapshot : Snapshot}
      : view.stage = .filled snapshot
        → DraftMove root id fresh view (.rename id true)
            { view with
              entry := view.temporary
              temporary := none
              newest := snapshot.sequence
              stage := .droppingText } [.accepted id snapshot]
  | failed {action : DraftAction}
      : view.stage ≠ .idle → DraftMove root id fresh view action { view with stage := .idle } []
  | droppedText {ok : Bool} {text : Option (List UInt8)}
      : view.stage = .droppingText
        → DraftMove root id fresh view (.removeFile id ok)
            { view with
              text := text
              stage := .droppingTarget } []
  | droppedTarget {ok : Bool} {target : Option (List UInt8)}
      : view.stage = .droppingTarget
        → DraftMove root id fresh view (.removeFile id ok)
            { view with
              target := target
              stage := .idle } []
  | removing
      : DraftMove root id fresh view (.remove id)
          { view with
            newest := max view.newest fresh
            stage := .removingText } [.removing id (max view.newest fresh)]
  | removedText
      : view.stage = .removingText
        → DraftMove root id fresh view (.removeFile id true)
            { view with
              text := none
              stage := .removingTarget } (if view.entry = none then [.deleted id] else [])
  | removedTarget
      : view.stage = .removingTarget
        → DraftMove root id fresh view (.removeFile id true)
            { view with
              target := none
              stage := .removingEntry } []
  | removedEntry
      : view.stage = .removingEntry
        → DraftMove root id fresh view (.removeFile id true)
            { view with
              entry := none
              stage := .idle } [.deleted id]

namespace DraftStore

variable {store next : DraftStore} {id : DraftId} {action : DraftAction}

/-- A step is a move of one draft, and the numbers of snapshots only grow. -/
structure Moved (store : DraftStore) (action : DraftAction) (next : DraftStore) (id : DraftId)
    : Prop where
  only : Only id store next
  move :
    DraftMove store.root id store.nextSequence (store.view id) action (next.view id)
      (store.event action)
  fresh : store.nextSequence ≤ next.nextSequence
  counted : action = .takeSequence → next.nextSequence = store.nextSequence + 1

/-- A step that hands out no number. -/
theorem Moved.quiet (only : Only id store next)
    (move : DraftMove store.root id store.nextSequence (store.view id) action (next.view id)
      (store.event action))
    (fresh : store.nextSequence ≤ next.nextSequence) (other : action ≠ .takeSequence)
    : Moved store action next id :=
  ⟨only, move, fresh, fun same => absurd same other⟩

theorem stage_view : (store.view id).stage = store.stage id := rfl

theorem removal_failed (busy : store.stage id ≠ .idle)
    : Moved store (.removeFile id false) (store.withStage id .idle) id := by
  refine .quiet ((Only.refl id store).withStage _) ?_ le_rfl (by rintro ⟨⟩)
  rw [view_withStage]
  exact .failed busy

theorem removeFile_moved {ok : Bool} (moves : store.removeFile id ok = some next)
    : Moved store (.removeFile id ok) next id := by
  have text : id.fileName ∈ id.names := by simp [DraftId.names]
  have target : id.targetFileName ∈ id.names := by simp [DraftId.names]
  have entry : id.entryFileName ∈ id.names := by simp [DraftId.names]
  have same := Only.refl id store
  unfold removeFile at moves
  dsimp only at moves
  split at moves
  case h_1 stage =>
    have move := @DraftMove.droppedText store.root id store.nextSequence (store.view id) ok
    cases moves
    cases ok with
    | true =>
        refine .quiet ((same.withFile text none).withStage _) ?_ le_rfl (by rintro ⟨⟩)
        simpa [event, stage] using move stage
    | false =>
        refine .quiet (same.withStage _) ?_ le_rfl (by rintro ⟨⟩)
        simpa [event] using @move (store.view id).text stage
  case h_2 stage =>
    have move := @DraftMove.droppedTarget store.root id store.nextSequence (store.view id) ok
    cases moves
    cases ok with
    | true =>
        refine .quiet ((same.withFile target none).withStage _) ?_ le_rfl (by rintro ⟨⟩)
        simpa [event, stage] using move stage
    | false =>
        refine .quiet (same.withStage _) ?_ le_rfl (by rintro ⟨⟩)
        simpa [event] using @move (store.view id).target stage
  case h_3 stage =>
    cases moves
    cases ok with
    | true =>
        refine .quiet ((same.withFile text none).withStage _) ?_ le_rfl (by rintro ⟨⟩)
        simpa [event, stage] using .removedText stage
    | false => exact removal_failed (by simp [stage])
  case h_4 stage =>
    cases moves
    cases ok with
    | true =>
        refine .quiet ((same.withFile target none).withStage _) ?_ le_rfl (by rintro ⟨⟩)
        simpa [event, stage] using .removedTarget stage
    | false => exact removal_failed (by simp [stage])
  case h_5 stage =>
    cases moves
    cases ok with
    | true =>
        refine .quiet ((same.withFile entry none).withStage _) ?_ le_rfl (by rintro ⟨⟩)
        simpa [event, stage] using .removedEntry stage
    | false => exact removal_failed (by simp [stage])
  · cases moves

/-- Every step but the end of the process. -/
theorem step_moved (moves : store.step action = some next) (alive : action ≠ .crash)
    : ∃ id, Moved store action next id := by
  have temporary : ∀ id : DraftId, id.temporaryName ∈ id.names := fun id => by
    simp [DraftId.names]
  have entry : ∀ id : DraftId, id.entryFileName ∈ id.names := fun id => by
    simp [DraftId.names]
  cases action with
  | takeSequence =>
      cases moves
      exact ⟨⟨0⟩, ⟨rfl, fun _ _ => rfl⟩, .numbered, Nat.le_succ _, fun _ => rfl⟩
  | writeSnapshot id snapshot =>
      refine ⟨id, ?_⟩
      unfold step at moves
      dsimp only at moves
      split at moves
      · cases moves
        unfold writeSnapshot
        split
        case isTrue late =>
          exact .quiet (.refl id store) (.dropped late) le_rfl (by rintro ⟨⟩)
        case isFalse fresh =>
          refine .quiet ((Only.refl id store).withStage _) ?_ le_rfl (by rintro ⟨⟩)
          rw [view_withStage]
          exact .begun (Nat.le_of_not_lt fresh)
      · cases moves
  | createDir id ok =>
      refine ⟨id, ?_⟩
      unfold step at moves
      dsimp only at moves
      split at moves
      case h_1 snapshot stage =>
        cases moves
        refine .quiet ((Only.refl id store).withStage _) ?_ le_rfl (by rintro ⟨⟩)
        rw [view_withStage]
        cases ok with
        | true => exact .made stage
        | false => exact .failed (by simp [stage_view, stage])
      · cases moves
  | fillPart id count =>
      refine ⟨id, ?_⟩
      unfold step at moves
      dsimp only at moves
      split at moves
      case h_1 snapshot stage =>
        cases moves
        refine .quiet ((Only.refl id store).withFile (temporary id) _) ?_ le_rfl
          (by rintro ⟨⟩)
        rw [view_withFile_temporary]
        exact .grown stage
      · cases moves
  | fill id ok =>
      refine ⟨id, ?_⟩
      unfold step at moves
      dsimp only at moves
      split at moves
      case h_1 snapshot stage =>
        cases moves
        cases ok with
        | true =>
            refine .quiet (((Only.refl id store).withFile (temporary id) _).withStage _) ?_ le_rfl
              (by rintro ⟨⟩)
            simpa [event] using .filled stage
        | false =>
            refine .quiet ((Only.refl id store).withStage _) ?_ le_rfl (by rintro ⟨⟩)
            simpa [event] using .failed (by simp [stage_view, stage])
      · cases moves
  | rename id ok =>
      refine ⟨id, ?_⟩
      unfold step at moves
      dsimp only at moves
      split at moves
      case h_1 snapshot stage =>
        cases moves
        cases ok with
        | true =>
            refine .quiet ((((Only.refl id store).withFile (entry id) _).withFile
              (temporary id) _).withNewest _ |>.withStage _) ?_ le_rfl (by rintro ⟨⟩)
            simpa [event, stage] using .renamed stage
        | false =>
            refine .quiet ((Only.refl id store).withStage _) ?_ le_rfl (by rintro ⟨⟩)
            simpa [event] using .failed (by simp [stage_view, stage])
      · cases moves
  | remove id =>
      refine ⟨id, ?_⟩
      unfold step at moves
      dsimp only at moves
      split at moves
      · cases moves
        have only : Only id store { store with nextSequence := store.nextSequence + 1 } :=
          ⟨rfl, fun _ _ => rfl⟩
        refine .quiet ((only.withNewest _).withStage _) ?_ (Nat.le_succ _)
          (by rintro ⟨⟩)
        simpa [event, remove] using .removing
      · cases moves
  | removeFile id ok => exact ⟨id, removeFile_moved moves⟩
  | crash => exact absurd rfl alive

end DraftStore

end Hane.Session
