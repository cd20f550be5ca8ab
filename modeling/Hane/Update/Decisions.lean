import Hane.Foundations.Stateful
import Hane.Update.Journal
import Mathlib.Tactic.Common

/-! The recovery decision on a fixed disk, where every observation is a lookup. -/

namespace Hane.Update

open Hane.Foundations

-- The observing functions as functions of the disk

section Lookups

variable (disk : String → Observed)

def unchangedMismatchOn (files : List UnchangedFile) : Option String :=
  firstUnchangedMismatch (m := Id) disk files

def classOn (step : JournalStep) : StepDisk := classify (m := Id) disk step

def notNewOn (steps : List JournalStep) : Option String := firstStepNotNew (m := Id) disk steps

def notOldOn (steps : List JournalStep) : Option String := firstStepNotOld (m := Id) disk steps

def actionOn (step : JournalStep) : Except String (Option RollbackAction) :=
  stepAction (m := Id) disk step

def actionsOn (steps : List JournalStep) : Except String (List RollbackAction) :=
  rollbackActions (m := Id) disk steps

def decideOn (journal : UpdateJournal) : RecoveryDecision :=
  decideRecovery (m := Id) disk (some journal) journal.installId

theorem unchangedMismatchOn_cons (file : UnchangedFile) (rest : List UnchangedFile)
    : unchangedMismatchOn disk (file :: rest)
      = if identityMatches (disk file.relPath) (some file.identity) then
          unchangedMismatchOn disk rest
        else some file.relPath := rfl

theorem notNewOn_cons (step : JournalStep) (rest : List JournalStep)
    : notNewOn disk (step :: rest)
      = if identityMatches (disk step.relPath) step.new then notNewOn disk rest
        else some step.relPath := rfl

theorem classOn_eq (step : JournalStep)
    : classOn disk step
      = if identityMatches (disk step.relPath) step.old then .old
        else if identityMatches (disk step.relPath) step.new then .new
        else .unknown := rfl

theorem notOldOn_cons (step : JournalStep) (rest : List JournalStep)
    : notOldOn disk (step :: rest)
      = if classOn disk step = .old then notOldOn disk rest else some step.relPath := rfl

theorem actionsOn_cons (step : JournalStep) (rest : List JournalStep)
    : actionsOn disk (step :: rest)
      = match actionOn disk step with
        | .error why => .error why
        | .ok action =>
          match actionsOn disk rest with
          | .error why => .error why
          | .ok actions => .ok (action.toList ++ actions) := rfl

theorem actionOn_eq (step : JournalStep)
    : actionOn disk step
      = match classOn disk step with
        | .old => .ok none
        | .unknown =>
          let relPath := step.relPath
          match step.old, step.backupRel with
          | some old, some backupRel =>
            if disk relPath = .missing then
              if disk backupRel = .file old then
                .ok (some (.restoreFromBackup relPath backupRel old none))
              else .error s!"{relPath} matches neither the old nor the new content"
            else .error s!"{relPath} matches neither the old nor the new content"
          | _, _ => .error s!"{relPath} matches neither the old nor the new content"
        | .new =>
          let relPath := step.relPath
          match step.old, step.backupRel with
          | some old, some backupRel =>
            if disk backupRel = .file old then
              .ok (some (.restoreFromBackup relPath backupRel old step.new))
            else .error s!"backup of {relPath} is missing or damaged"
          | none, _ =>
            match step.new with
            | none => .error "journal step changes nothing"
            | some added => .ok (some (.removeAdded relPath added))
          | some _, none => .error s!"{relPath} has no backup recorded" := rfl

end Lookups

-- What each decision says about the disk

/-- How a path looks that holds an identity, or nothing. -/
def Observed.expected : Option FileIdentity → Observed
  | none => .missing
  | some identity => .file identity

theorem identityMatches_iff (observed : Observed) (wanted : Option FileIdentity)
    : identityMatches observed wanted = true ↔ observed = .expected wanted := by
  cases observed <;> cases wanted <;> simp [identityMatches, Observed.expected]

/-- Every step path is at its old identity. -/
def AllOld (disk : String → Observed) (steps : List JournalStep) : Prop :=
  ∀ step ∈ steps, disk step.relPath = .expected step.old

/-- Every step path is at its new identity. -/
def AllNew (disk : String → Observed) (steps : List JournalStep) : Prop :=
  ∀ step ∈ steps, disk step.relPath = .expected step.new

/-- Every unchanged file is at its recorded identity. -/
def AllUnchanged (disk : String → Observed) (files : List UnchangedFile) : Prop :=
  ∀ file ∈ files, disk file.relPath = .file file.identity

variable {disk : String → Observed}

theorem unchangedMismatchOn_eq_none {files : List UnchangedFile}
    : unchangedMismatchOn disk files = none ↔ AllUnchanged disk files := by
  induction files with
  | nil => simp [unchangedMismatchOn, firstUnchangedMismatch, pure, AllUnchanged]
  | cons file rest ih =>
      simp only [AllUnchanged, List.forall_mem_cons] at ih ⊢
      rw [unchangedMismatchOn_cons, ← ih]
      simp only [identityMatches_iff, Observed.expected]
      split <;> simp_all

theorem notNewOn_eq_none {steps : List JournalStep}
    : notNewOn disk steps = none ↔ AllNew disk steps := by
  induction steps with
  | nil => simp [notNewOn, firstStepNotNew, pure, AllNew]
  | cons step rest ih =>
      simp only [AllNew, List.forall_mem_cons] at ih ⊢
      rw [notNewOn_cons, ← ih]
      simp only [identityMatches_iff]
      split <;> simp_all

theorem classOn_eq_old {step : JournalStep}
    : classOn disk step = .old ↔ disk step.relPath = .expected step.old := by
  rw [classOn_eq]
  simp only [identityMatches_iff]
  split
  · simp_all
  · split <;> simp_all

theorem notOldOn_eq_none {steps : List JournalStep}
    : notOldOn disk steps = none ↔ AllOld disk steps := by
  induction steps with
  | nil => simp [notOldOn, firstStepNotOld, pure, AllOld]
  | cons step rest ih =>
      simp only [AllOld, List.forall_mem_cons] at ih ⊢
      rw [notOldOn_cons, ← ih]
      simp only [classOn_eq_old]
      split <;> simp_all

/-- An action undoes a step on a disk: the path holds what the action expects (the new identity,
or nothing although a file was replaced), and a restored file comes from an intact backup.
-/
inductive Undoes (disk : String → Observed) (step : JournalStep) : RollbackAction → Prop where
  | restore {old : FileIdentity} {backupRel : String} {expected : Option FileIdentity}
      (was : step.old = some old) (backed : step.backupRel = some backupRel)
      (intact : disk backupRel = .file old) (present : disk step.relPath = .expected expected)
      (named : expected = step.new ∨ expected = none)
      : Undoes disk step (.restoreFromBackup step.relPath backupRel old expected)
  | remove {added : FileIdentity} (was : step.old = none) (becomes : step.new = some added)
      (present : disk step.relPath = .file added)
      : Undoes disk step (.removeAdded step.relPath added)

def undoOn (disk : String → Observed) (step : JournalStep) : Option RollbackAction :=
  match actionOn disk step with
  | .ok action => action
  | .error _ => none

/-- A step is foreign when it is at neither identity, nor absent over an intact backup, or is
at its new identity without what the way back needs.
-/
def Foreign (disk : String → Observed) (step : JournalStep) : Prop :=
  ∀ action, actionOn disk step ≠ .ok action

theorem actionOn_of_undoOn {step : JournalStep} {action : RollbackAction}
    (undo : undoOn disk step = some action)
    : actionOn disk step = .ok (some action) := by
  unfold undoOn at undo
  split at undo
  · rename_i decided
    rw [decided, undo]
  · cases undo

theorem actionOn_ok {step : JournalStep} {action : Option RollbackAction}
    (decided : actionOn disk step = .ok action)
    : match action with
      | none => disk step.relPath = .expected step.old
      | some undo => Undoes disk step undo ∧ disk step.relPath ≠ .expected step.old := by
  rw [actionOn_eq] at decided
  rcases kind : classOn disk step with _ | _ | _
  · rw [kind] at decided
    cases decided
    exact classOn_eq_old.mp kind
  · have notOld : disk step.relPath ≠ .expected step.old := by
      intro same
      rw [classOn_eq_old.mpr same] at kind
      cases kind
    have isNew : disk step.relPath = .expected step.new := by
      rw [classOn_eq] at kind
      simp only [identityMatches_iff] at kind
      split at kind
      · cases kind
      · split at kind
        · assumption
        · cases kind
    rw [kind] at decided
    dsimp only at decided
    split at decided
    · rename_i old backupRel was backed
      split at decided
      · rename_i intact
        cases decided
        exact ⟨.restore was backed intact isNew (.inl rfl), notOld⟩
      · cases decided
    · rename_i was
      split at decided
      · cases decided
      · rename_i added becomes
        cases decided
        exact ⟨.remove was becomes (by rw [isNew, becomes]; rfl), notOld⟩
    · cases decided
  · have notOld : disk step.relPath ≠ .expected step.old := by
      intro same
      rw [classOn_eq_old.mpr same] at kind
      cases kind
    rw [kind] at decided
    dsimp only at decided
    split at decided
    · rename_i old backupRel was backed
      split at decided
      · rename_i absent
        split at decided
        · rename_i intact
          cases decided
          exact ⟨.restore was backed intact absent (.inr rfl), notOld⟩
        · cases decided
      · cases decided
    · cases decided

theorem undoOn_undoes {step : JournalStep} {action : RollbackAction}
    (undo : undoOn disk step = some action)
    : Undoes disk step action ∧ disk step.relPath ≠ .expected step.old :=
  actionOn_ok (actionOn_of_undoOn undo)

/-- A rollback is decided exactly when no step is foreign, and consists of the actions the
steps call for, in their order; by induction over the steps.
-/
theorem actionsOn_ok {steps : List JournalStep} {actions : List RollbackAction}
    : actionsOn disk steps = .ok actions
      ↔ (∀ step ∈ steps, ¬Foreign disk step) ∧ actions = steps.filterMap (undoOn disk) := by
  induction steps generalizing actions with
  | nil => simp [actionsOn, rollbackActions, pure, eq_comm]
  | cons step rest ih =>
      rw [actionsOn_cons]
      rcases decided : actionOn disk step with why | action
      · have foreign : Foreign disk step := by simp [Foreign, decided]
        simp [foreign]
      · have native : ¬Foreign disk step := by simp [Foreign, decided]
        have undo : undoOn disk step = action := by simp [undoOn, decided]
        rcases later : actionsOn disk rest with why | actions'
        · have stuck : ∀ actions, ¬((∀ step ∈ rest, ¬Foreign disk step)
              ∧ actions = rest.filterMap (undoOn disk)) := by
            intro actions both
            rw [ih.mpr both] at later
            cases later
          have some' : ¬∀ step ∈ rest, ¬Foreign disk step := fun all => stuck _ ⟨all, rfl⟩
          simp [some']
        · obtain ⟨all, rfl⟩ := ih.mp later
          simp only [List.forall_mem_cons, List.filterMap_cons, undo, native, not_false_eq_true,
            true_and, Except.ok.injEq]
          cases action with
          | none => exact ⟨fun same => ⟨all, same.symm⟩, fun both => both.2.symm⟩
          | some undo => exact ⟨fun same => ⟨all, same.symm⟩, fun both => both.2.symm⟩

-- The decision

/-- The phases in which files may differ from the old version. -/
def Phase.mayHaveChanged : Phase → Bool
  | applying | awaitingHealth | rollingBack => true
  | _ => false

/-- The phases in which no file was changed by the update, or all were changed back. -/
def Phase.isOld : Phase → Bool
  | rolledBack | prepared | exitAuthorized => true
  | _ => false

theorem decideOn_eq (disk : String → Observed) (journal : UpdateJournal)
    : decideOn disk journal
      = if journal.installId ≠ journal.installId then
          .recoveryRequired "journal belongs to a different installation"
        else
          match journal.phase with
          | .recoveryRequired => .recoveryRequired "an earlier recovery did not complete"
          | .committed =>
            match notNewOn disk journal.steps with
            | some path => .recoveryRequired s!"committed update does not match the disk at {path}"
            | none =>
              match unchangedMismatchOn disk journal.unchanged with
              | some path =>
                .recoveryRequired s!"committed update does not match the disk at unchanged {path}"
              | none => .keepNew
          | .rolledBack | .prepared | .exitAuthorized =>
            match notOldOn disk journal.steps with
            | some path => .recoveryRequired s!"{path} changed although no update was applied"
            | none =>
              match unchangedMismatchOn disk journal.unchanged with
              | some path => .recoveryRequired s!"{path} changed although no update was applied"
              | none => .keepOld
          | .applying | .awaitingHealth | .rollingBack =>
            match actionsOn disk journal.steps with
            | .error why => .recoveryRequired why
            | .ok [] =>
              match unchangedMismatchOn disk journal.unchanged with
              | some path =>
                .recoveryRequired s!"{path} changed during the update and is not the signed file"
              | none => .keepOld
            | .ok actions => .rollBack actions (journal.phase = .awaitingHealth) := rfl

/-- The decision in a phase without changed files, by the two comparisons it makes. -/
theorem decideOn_isOld {journal : UpdateJournal} (phase : journal.phase.isOld = true)
    : decideOn disk journal = .keepOld
        ∧ AllOld disk journal.steps ∧ AllUnchanged disk journal.unchanged
      ∨ (∃ why, decideOn disk journal = .recoveryRequired why)
        ∧ ¬(AllOld disk journal.steps ∧ AllUnchanged disk journal.unchanged) := by
  rw [decideOn_eq, if_neg (not_not_intro rfl), ← notOldOn_eq_none, ← unchangedMismatchOn_eq_none]
  cases here : journal.phase <;> simp only [here, Phase.isOld, Bool.false_eq_true] at phase
  all_goals
    rcases notOldOn disk journal.steps with _ | path
    · rcases unchangedMismatchOn disk journal.unchanged with _ | path
      · exact .inl ⟨rfl, rfl, rfl⟩
      · exact .inr ⟨⟨_, rfl⟩, fun both => nomatch both.2⟩
    · exact .inr ⟨⟨_, rfl⟩, fun both => nomatch both.1⟩

theorem decideOn_committed {journal : UpdateJournal} (phase : journal.phase = .committed)
    : decideOn disk journal = .keepNew
        ∧ AllNew disk journal.steps ∧ AllUnchanged disk journal.unchanged
      ∨ (∃ why, decideOn disk journal = .recoveryRequired why)
        ∧ ¬(AllNew disk journal.steps ∧ AllUnchanged disk journal.unchanged) := by
  rw [decideOn_eq, if_neg (not_not_intro rfl), ← notNewOn_eq_none, ← unchangedMismatchOn_eq_none,
    phase]
  rcases notNewOn disk journal.steps with _ | path
  · rcases unchangedMismatchOn disk journal.unchanged with _ | path
    · exact .inl ⟨rfl, rfl, rfl⟩
    · exact .inr ⟨⟨_, rfl⟩, fun both => nomatch both.2⟩
  · exact .inr ⟨⟨_, rfl⟩, fun both => nomatch both.1⟩

theorem decideOn_mayHaveChanged {journal : UpdateJournal}
    (phase : journal.phase.mayHaveChanged = true)
    : (∃ actions, actionsOn disk journal.steps = .ok actions ∧ actions ≠ []
        ∧ decideOn disk journal = .rollBack actions (journal.phase = .awaitingHealth))
      ∨ (decideOn disk journal = .keepOld ∧ actionsOn disk journal.steps = .ok []
        ∧ AllUnchanged disk journal.unchanged)
      ∨ (∃ why, decideOn disk journal = .recoveryRequired why)
        ∧ ((∃ why, actionsOn disk journal.steps = .error why)
          ∨ actionsOn disk journal.steps = .ok [] ∧ ¬AllUnchanged disk journal.unchanged) := by
  rw [decideOn_eq, if_neg (not_not_intro rfl), ← unchangedMismatchOn_eq_none]
  cases here : journal.phase <;> simp only [here, Phase.mayHaveChanged, Bool.false_eq_true] at phase
  all_goals
    rcases actionsOn disk journal.steps with why | _ | ⟨action, actions⟩
    · exact .inr (.inr ⟨⟨_, rfl⟩, .inl ⟨_, rfl⟩⟩)
    · rcases unchangedMismatchOn disk journal.unchanged with _ | path
      · exact .inr (.inl ⟨rfl, rfl, rfl⟩)
      · exact .inr (.inr ⟨⟨_, rfl⟩, .inr ⟨rfl, fun none => nomatch none⟩⟩)
    · exact .inl ⟨_, rfl, List.cons_ne_nil _ _, rfl⟩

theorem allOld_of_actionsOn_nil {steps : List JournalStep} (decided : actionsOn disk steps = .ok [])
    : AllOld disk steps := by
  obtain ⟨native, none⟩ := actionsOn_ok.mp decided
  intro step member
  have undo : undoOn disk step = .none := List.filterMap_eq_nil_iff.mp none.symm step member
  rcases outcome : actionOn disk step with why | action
  · exact absurd (by simp [Foreign, outcome]) (native step member)
  · have same : action = .none := by simpa [undoOn, outcome] using undo
    subst same
    exact actionOn_ok outcome

/-- What each decision says about the disk. -/
def RecoveryDecision.Means (disk : String → Observed) (journal : UpdateJournal)
    : RecoveryDecision → Prop
  | noJournal => False
  | keepOld => AllOld disk journal.steps ∧ AllUnchanged disk journal.unchanged
  | keepNew =>
      journal.phase = .committed ∧ AllNew disk journal.steps ∧ AllUnchanged disk journal.unchanged
  | rollBack actions requireChildExit =>
      journal.phase.mayHaveChanged = true
      ∧ requireChildExit = decide (journal.phase = .awaitingHealth)
      ∧ actionsOn disk journal.steps = .ok actions
  | recoveryRequired _ => True

/-- Every decision means what it says, by cases on the phase. -/
theorem decideOn_means (disk : String → Observed) (journal : UpdateJournal)
    : (decideOn disk journal).Means disk journal := by
  have old := @decideOn_isOld disk journal
  have committed := @decideOn_committed disk journal
  have changed := @decideOn_mayHaveChanged disk journal
  cases phase : journal.phase with
  | prepared | exitAuthorized | rolledBack =>
      rcases old (by rw [phase]; rfl) with ⟨kept, means⟩ | ⟨⟨why, required⟩, _⟩
      · rw [kept]
        exact means
      · rw [required]
        trivial
  | committed =>
      rcases committed phase with ⟨kept, means⟩ | ⟨⟨why, required⟩, _⟩
      · rw [kept]
        exact ⟨phase, means⟩
      · rw [required]
        trivial
  | recoveryRequired =>
      rw [decideOn_eq, if_neg (not_not_intro rfl), phase]
      trivial
  | applying | awaitingHealth | rollingBack =>
      have may : journal.phase.mayHaveChanged = true := by
        rw [phase]
        rfl
      rcases changed may with ⟨actions, decided, _, back⟩ | ⟨kept, decided, same⟩
        | ⟨⟨why, required⟩, _⟩
      · rw [back]
        exact ⟨may, rfl, decided⟩
      · rw [kept]
        exact ⟨allOld_of_actionsOn_nil decided, same⟩
      · rw [required]
        trivial

-- Journal changes

theorem UpdateJournal.transition_ok {journal next : UpdateJournal} {phase : Phase}
    (moved : journal.transition phase = .ok next)
    : journal.phase.mayFollow phase = true ∧ next = { journal with phase := phase } := by
  unfold UpdateJournal.transition at moved
  dsimp only at moved
  split at moved
  · cases moved
  · rename_i allowed
    exact ⟨by simpa using allowed, (Except.ok.inj moved).symm⟩

theorem UpdateJournal.setStep_ok {journal next : UpdateJournal} {index : Nat} {state : StepState}
    (moved : journal.setStep index state = .ok next)
    : journal.phase = stepPhase state ∧ ∃ step, journal.steps[index]? = some step
      ∧ step.state.mayFollow state = true
      ∧ next = { journal with steps := journal.steps.set index { step with state := state } } := by
  unfold UpdateJournal.setStep at moved
  dsimp only at moved
  split at moved
  · cases moved
  · rename_i phase
    split at moved
    · cases moved
    · rename_i step found
      split at moved
      · cases moved
      · rename_i allowed
        exact ⟨by simpa using phase, step, found, by simpa using allowed,
          (Except.ok.inj moved).symm⟩

def JournalStep.plan (step : JournalStep) : PlanStep :=
  ⟨step.relPath, step.old, step.new, step.backupRel⟩

/-- Two journals of one plan: the same transaction and files, step by step. -/
structure SamePlan (journal later : UpdateJournal) : Prop where
  transaction : later.transactionId = journal.transactionId
  unchanged : later.unchanged = journal.unchanged
  steps : later.steps.map JournalStep.plan = journal.steps.map JournalStep.plan

theorem SamePlan.refl (journal : UpdateJournal) : SamePlan journal journal := ⟨rfl, rfl, rfl⟩

theorem SamePlan.trans {journal middle later : UpdateJournal} (first : SamePlan journal middle)
    (second : SamePlan middle later)
    : SamePlan journal later :=
  ⟨second.transaction.trans first.transaction, second.unchanged.trans first.unchanged,
    second.steps.trans first.steps⟩

theorem map_set_self {α β : Type} {project : α → β} {items : List α} {index : Nat} {item moved : α}
    (found : items[index]? = some item) (same : project moved = project item)
    : (items.set index moved).map project = items.map project := by
  obtain ⟨within, _⟩ := List.getElem?_eq_some_iff.mp found
  refine List.ext_getElem? fun number => ?_
  rw [List.getElem?_map, List.getElem?_map]
  by_cases here : index = number
  · subst here
    rw [List.getElem?_set_self within, found, Option.map_some, Option.map_some, same]
  · rw [List.getElem?_set_ne here]

theorem map_lookup {α β : Type} {project : α → β} {items others : List α}
    (same : items.map project = others.map project) {index : Nat} {item : α}
    (found : items[index]? = some item)
    : ∃ other, others[index]? = some other ∧ project item = project other := by
  have mapped : (others.map project)[index]? = some (project item) := by
    rw [← same, List.getElem?_map, found]
    rfl
  rw [List.getElem?_map] at mapped
  obtain ⟨other, there, projected⟩ := Option.map_eq_some_iff.mp mapped
  exact ⟨other, there, projected.symm⟩

theorem SamePlan.of_transition {journal next : UpdateJournal} {phase : Phase}
    (moved : journal.transition phase = .ok next)
    : SamePlan journal next := by
  obtain ⟨_, rfl⟩ := UpdateJournal.transition_ok moved
  exact ⟨rfl, rfl, rfl⟩

theorem SamePlan.of_setStep {journal next : UpdateJournal} {index : Nat} {state : StepState}
    (moved : journal.setStep index state = .ok next)
    : SamePlan journal next := by
  obtain ⟨_, step, found, _, rfl⟩ := UpdateJournal.setStep_ok moved
  exact ⟨rfl, rfl, map_set_self found rfl⟩

theorem allOld_of_samePlan {journal later : UpdateJournal} (same : SamePlan journal later)
    : AllOld disk later.steps ↔ AllOld disk journal.steps := by
  have planned : ∀ steps : List JournalStep, AllOld disk steps
      ↔ ∀ step ∈ steps.map JournalStep.plan, disk step.relPath = .expected step.old := by
    intro steps
    simp [AllOld, JournalStep.plan]
  rw [planned, planned, same.steps]

theorem allNew_of_samePlan {journal later : UpdateJournal} (same : SamePlan journal later)
    : AllNew disk later.steps ↔ AllNew disk journal.steps := by
  have planned : ∀ steps : List JournalStep, AllNew disk steps
      ↔ ∀ step ∈ steps.map JournalStep.plan, disk step.relPath = .expected step.new := by
    intro steps
    simp [AllNew, JournalStep.plan]
  rw [planned, planned, same.steps]

end Hane.Update
