import Hane.Update.Decisions

/-! The recovery decision in any monad whose observations the disk determines: it is the decision
on that disk.
-/

namespace Hane.Update

/-- Programs of a monad that see values which the disk determines; each observation sees the disk. -/
structure Determines {m : Type → Type} [Monad m] (disk : String → Observed)
    (observe : String → m Observed) where
  sees : {α : Type} → α → m α → Prop
  done {α : Type} (value : α) : sees value (pure value)
  bind {α β : Type} {value : α} {result : β} {program : m α} {next : α → m β}
      (first : sees value program) (second : sees result (next value))
      : sees result (program >>= next)
  observed (relPath : String) : sees (disk relPath) (observe relPath)

namespace Determines

variable {m : Type → Type} [Monad m] {disk : String → Observed} {observe : String → m Observed}
  (rules : Determines disk observe)

theorem firstUnchangedMismatch (files : List UnchangedFile)
    : rules.sees (unchangedMismatchOn disk files) (Update.firstUnchangedMismatch observe files) := by
  induction files with
  | nil => exact rules.done none
  | cons file rest ih =>
      refine rules.bind (rules.observed file.relPath) ?_
      rw [unchangedMismatchOn_cons]
      split
      · exact ih
      · exact rules.done _

theorem firstStepNotNew (steps : List JournalStep)
    : rules.sees (notNewOn disk steps) (Update.firstStepNotNew observe steps) := by
  induction steps with
  | nil => exact rules.done none
  | cons step rest ih =>
      refine rules.bind (rules.observed step.relPath) ?_
      rw [notNewOn_cons]
      split
      · exact ih
      · exact rules.done _

theorem classify (step : JournalStep)
    : rules.sees (classOn disk step) (Update.classify observe step) :=
  rules.bind (rules.observed step.relPath) (rules.done _)

theorem firstStepNotOld (steps : List JournalStep)
    : rules.sees (notOldOn disk steps) (Update.firstStepNotOld observe steps) := by
  induction steps with
  | nil => exact rules.done none
  | cons step rest ih =>
      refine rules.bind (rules.classify step) ?_
      rw [notOldOn_cons]
      split
      · exact ih
      · exact rules.done _

/-- Deciding on one step observes at most its path and its backup, by cases on what the step
has and on how it is classified.
-/
theorem stepAction (step : JournalStep)
    : rules.sees (actionOn disk step) (Update.stepAction observe step) := by
  refine rules.bind (rules.classify step) ?_
  rw [actionOn_eq]
  obtain ⟨relPath, old, new, backupRel, progress⟩ := step
  generalize classOn disk ⟨relPath, old, new, backupRel, progress⟩ = kind
  cases kind with
  | old => exact rules.done _
  | new =>
      rcases old with _ | old
      · rcases new with _ | added <;> exact rules.done _
      · rcases backupRel with _ | backupRel
        · exact rules.done _
        · refine rules.bind (rules.observed backupRel) ?_
          dsimp only
          split <;> exact rules.done _
  | unknown =>
      rcases old with _ | old
      · exact rules.done _
      · rcases backupRel with _ | backupRel
        · exact rules.done _
        · refine rules.bind (rules.observed relPath) ?_
          dsimp only
          split
          · refine rules.bind (rules.observed backupRel) ?_
            split <;> exact rules.done _
          · exact rules.done _

theorem rollbackActions (steps : List JournalStep)
    : rules.sees (actionsOn disk steps) (Update.rollbackActions observe steps) := by
  induction steps with
  | nil => exact rules.done _
  | cons step rest ih =>
      refine rules.bind (rules.stepAction step) ?_
      rw [actionsOn_cons]
      cases actionOn disk step with
      | error why => exact rules.done _
      | ok action =>
          refine rules.bind ih ?_
          cases actionsOn disk rest <;> exact rules.done _

theorem unchangedVerdict (files : List UnchangedFile) (differs : String → RecoveryDecision)
    (same : RecoveryDecision)
    : rules.sees
        (match unchangedMismatchOn disk files with
          | some path => differs path
          | none => same)
        (do match ← Update.firstUnchangedMismatch observe files with
            | some path => return differs path
            | none => return same) := by
  refine rules.bind (rules.firstUnchangedMismatch files) ?_
  cases unchangedMismatchOn disk files <;> exact rules.done _

/-- The decision on the live disk is the decision on the disk as it is, by cases on the
phase.
-/
theorem decideRecovery (journal : UpdateJournal)
    : rules.sees (decideOn disk journal)
        (Update.decideRecovery observe (some journal) journal.installId) := by
  have native : ¬journal.installId ≠ journal.installId := not_not_intro rfl
  rw [decideOn_eq, if_neg native]
  unfold Update.decideRecovery
  dsimp only
  rw [if_neg native]
  cases journal.phase with
  | recoveryRequired => exact rules.done _
  | committed =>
      refine rules.bind (rules.firstStepNotNew journal.steps) ?_
      cases notNewOn disk journal.steps with
      | some path => exact rules.done _
      | none => exact rules.unchangedVerdict _ _ _
  | rolledBack | prepared | exitAuthorized =>
      refine rules.bind (rules.firstStepNotOld journal.steps) ?_
      cases notOldOn disk journal.steps with
      | some path => exact rules.done _
      | none => exact rules.unchangedVerdict _ _ _
  | applying | awaitingHealth | rollingBack =>
      refine rules.bind (rules.rollbackActions journal.steps) ?_
      rcases actionsOn disk journal.steps with why | _ | ⟨action, actions⟩
      · exact rules.done _
      · exact rules.unchangedVerdict _ _ _
      · exact rules.done _

end Determines

end Hane.Update
