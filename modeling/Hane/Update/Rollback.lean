import Hane.Update.Consistency

/-! Recovery at any point of an update nobody else interferes with: the decision is never to refuse
a foreign file, and a rollback reaches the old version.
-/

namespace Hane.Update

open Hane.Foundations

-- Deciding on a disk that fits

section Deciding

variable {base journal : UpdateJournal} {disk : String → Observed}

/-- A step of a journal that fits is never foreign, by cases on what its path holds. -/
theorem Fits.native (fits : Fits journal disk)
    (planned : WellPlanned journal.steps journal.unchanged) {step : JournalStep}
    (member : step ∈ journal.steps)
    : ¬Foreign disk step := by
  intro foreign
  by_cases old : disk step.relPath = .expected step.old
  · refine foreign none ?_
    rw [actionOn_eq, classOn_eq_old.mpr old]
  have unsettled : step.isSettled = false := by
    by_contra settled
    exact old (fits.settled step member (by simpa using settled))
  have intent : step.hasIntent = true := by
    cases state : step.state <;> simp_all [JournalStep.isSettled, JournalStep.hasIntent]
  have intact := fits.backed step member intent
  have backedUp := planned.backedUp step member
  have mixed := fits.mixed step member
  by_cases new : disk step.relPath = .expected step.new
  · have kind : classOn disk step = .new := by
      rw [classOn_eq, if_neg (mt (identityMatches_iff _ _).mp old),
        if_pos ((identityMatches_iff _ _).mpr new)]
    cases was : step.old with
    | none =>
        obtain ⟨added, becomes⟩ := Option.ne_none_iff_exists'.mp
          ((planned.changing step member).resolve_left (not_not_intro was))
        refine foreign (some (.removeAdded step.relPath added)) ?_
        rw [actionOn_eq, kind]
        simp only [was, becomes]
    | some content =>
        refine foreign (some (.restoreFromBackup step.relPath (backupPrefix ++ step.relPath)
          content step.new)) ?_
        rw [actionOn_eq, kind]
        simp only [was, backedUp (by simp [was]), intact content was, if_true]
  · have absent : disk step.relPath = .missing := (mixed.resolve_left old).resolve_left new
    have kind : classOn disk step = .unknown := by
      simp only [classOn_eq, identityMatches_iff, old, new, if_false]
    cases was : step.old with
    | none =>
        rw [was, absent] at old
        exact old rfl
    | some content =>
        refine foreign (some (.restoreFromBackup step.relPath (backupPrefix ++ step.relPath)
          content none)) ?_
        rw [actionOn_eq, kind]
        simp only [was, backedUp (by simp [was]), absent, intact content was, if_true]

theorem actionsOn_of_allOld {steps : List JournalStep} (old : AllOld disk steps)
    : actionsOn disk steps = .ok [] := by
  refine actionsOn_ok.mpr ⟨?_, ?_⟩
  · intro step member foreign
    exact foreign none (by rw [actionOn_eq, classOn_eq_old.mpr (old step member)])
  · symm
    rw [List.filterMap_eq_nil_iff]
    intro step member
    simp [undoOn, actionOn_eq, classOn_eq_old.mpr (old step member)]

theorem Fits.keepOld (fits : Fits journal disk) (old : AllOld disk journal.steps)
    (phase : journal.phase ≠ .committed ∧ journal.phase ≠ .recoveryRequired)
    : decideOn disk journal = .keepOld := by
  rw [decideOn_eq, if_neg (not_not_intro rfl), notOldOn_eq_none.mpr old,
    unchangedMismatchOn_eq_none.mpr fits.unchanged, actionsOn_of_allOld old]
  cases here : journal.phase <;> simp_all

theorem Fits.decision (fits : Fits journal disk)
    (planned : WellPlanned journal.steps journal.unchanged)
    : decideOn disk journal = .keepOld ∧ AllOld disk journal.steps
        ∧ journal.phase ≠ .committed ∧ journal.phase ≠ .recoveryRequired
      ∨ decideOn disk journal = .keepNew ∧ AllNew disk journal.steps ∧ journal.phase = .committed
      ∨ (∃ actions, decideOn disk journal = .rollBack actions (journal.phase = .awaitingHealth)
          ∧ actionsOn disk journal.steps = .ok actions ∧ journal.phase.mayHaveChanged = true)
      ∨ (∃ why, decideOn disk journal = .recoveryRequired why) ∧ journal.phase = .recoveryRequired := by
  cases phase : journal.phase with
  | prepared | exitAuthorized =>
      have fresh := fits.fresh (by simp [phase])
      have old : AllOld disk journal.steps := by
        intro step member
        refine fits.settled step member ?_
        have planned := fresh step member
        simp_all [JournalStep.hasIntent, JournalStep.isSettled]
      exact .inl ⟨fits.keepOld old (by simp [phase]), old, by simp, by simp⟩
  | rolledBack =>
      have old := fits.old phase
      exact .inl ⟨fits.keepOld old (by simp [phase]), old, by simp, by simp⟩
  | committed =>
      have new := fits.new (.inr phase)
      refine .inr (.inl ⟨?_, new, rfl⟩)
      rw [decideOn_eq, if_neg (not_not_intro rfl), phase, notNewOn_eq_none.mpr new,
        unchangedMismatchOn_eq_none.mpr fits.unchanged]
  | recoveryRequired =>
      have required : decideOn disk journal
          = .recoveryRequired "an earlier recovery did not complete" := by
        rw [decideOn_eq, if_neg (not_not_intro rfl), phase]
      exact .inr (.inr (.inr ⟨⟨_, required⟩, rfl⟩))
  | applying | awaitingHealth | rollingBack =>
      have may : journal.phase.mayHaveChanged = true := by
        rw [phase]
        rfl
      have acted := actionsOn_ok.mpr ⟨fun step member => fits.native planned member, rfl⟩
      rcases decideOn_mayHaveChanged may with
        ⟨actions, decided, _, back⟩ | ⟨kept, none', _⟩ | ⟨_, ⟨why, refused⟩ | ⟨_, changed⟩⟩
      · exact .inr (.inr (.inl ⟨actions, by rw [back, phase], decided, rfl⟩))
      · exact .inl ⟨kept, allOld_of_actionsOn_nil none', by simp, by simp⟩
      · rw [refused] at acted
        cases acted
      · exact absurd fits.unchanged changed

end Deciding

-- Rolling back

theorem checkStepState_of_member {journal : UpdateJournal}
    (planned : WellPlanned journal.steps journal.unchanged) {step : JournalStep}
    (member : step ∈ journal.steps) (intent : step.state ≠ .planned)
    : ∃ index, journal.steps[index]? = some step
      ∧ checkStepState journal step.relPath = .ok (index, step.state) := by
  rcases located : journal.steps.findIdx? fun other => other.relPath == step.relPath with _ | index
  · have nowhere := List.findIdx?_eq_none_iff.mp located step member
    simp at nowhere
  · obtain ⟨within, named, _⟩ := List.findIdx?_eq_some_iff_getElem.mp located
    have same : journal.steps[index] = step :=
      planned.same_step member (List.getElem_mem within) (by simpa using named)
    have found : journal.steps[index]? = some step := by
      rw [List.getElem?_eq_getElem within, same]
    refine ⟨index, found, ?_⟩
    simp only [checkStepState, located, found, intent, if_false]

section Recovering

variable {base : UpdateJournal} (planned : WellPlanned base.steps base.unchanged)
variable {origin state : UpdateState} {start : String → Observed}

include planned in
/-- Carrying out an action on a disk on which the step still is as decided puts the old content
back, by cases on the action.
-/
theorem does_changeBack_kept {step : JournalStep} {action : RollbackAction}
    (kept : Kept base origin state) (phase : state.memory.phase = .rollingBack)
    (member : step ∈ state.memory.steps) (undoes : Undoes state.disk step action)
    (changed : state.disk step.relPath ≠ .expected step.old)
    : Does (Kept base origin)
        (fun stopped final => stopped = none
          ∧ final.disk = Function.update state.disk step.relPath (.expected step.old)
          ∧ final.memory = state.memory)
        (fun _ => True) (changeBack action) state := by
  cases undoes with
  | @restore old backupRel expected was backed intact present named =>
      refine .bind _ (sees kept trivial step.relPath) ?_
      intro observed state' _ both
      obtain ⟨rfl, rfl⟩ := both
      refine .ite (fun differs => ?_) fun _ => ?_
      · rw [(identityMatches_iff _ _).mpr present] at differs
        cases differs
      refine .bind _ (sees kept trivial backupRel) ?_
      intro observed state _ both
      obtain ⟨rfl, rfl⟩ := both
      refine .ite (fun damaged => absurd intact damaged) fun _ => ?_
      refine .bind (fun _ final => final = state) (does_bindTarget kept rfl trivial) ?_
      intro _ state' _ same
      subst same
      have written : ∀ content,
          FileChange.content state'.disk (.restore step.relPath backupRel old) = some content
            → content = .expected step.old := by
        intro content carried
        simp only [FileChange.content, intact, if_true, Option.some.injEq] at carried
        rw [← carried, was]
        rfl
      refine .bind (fun _ final => final.disk
          = Function.update state'.disk step.relPath (.expected step.old)
        ∧ final.memory = state'.memory) ?_ fun _ final holds same => .pure holds ⟨rfl, same⟩
      refine does_change (fun final alters => ?_) (fun content carried => ?_) fun _ _ => trivial
      · exact kept.restoring planned phase member changed rfl written alters
      · exact ⟨by rw [← written content carried]; rfl, rfl⟩
  | @remove added was becomes present =>
      refine .bind _ (sees kept trivial step.relPath) ?_
      intro observed state' _ both
      obtain ⟨rfl, rfl⟩ := both
      refine .ite (fun differs => absurd present differs) fun _ => ?_
      refine .bind (fun _ final => final = state') (does_bindTarget kept rfl trivial) ?_
      intro _ state _ same
      subst same
      have written : ∀ content,
          FileChange.content state.disk (.remove step.relPath) = some content
            → content = .expected step.old := by
        intro content carried
        simp only [FileChange.content, Option.some.injEq] at carried
        rw [← carried, was]
        rfl
      refine .bind (fun _ final => final.disk
          = Function.update state.disk step.relPath (.expected step.old)
        ∧ final.memory = state.memory) ?_ fun _ final holds same => .pure holds ⟨rfl, same⟩
      refine does_change (fun final alters => ?_) (fun content carried => ?_) fun _ _ => trivial
      · exact kept.restoring planned phase member changed rfl written alters
      · exact ⟨by rw [← written content carried]; rfl, rfl⟩

theorem Undoes.of_plan {disk : String → Observed} {step twin : JournalStep}
    {action : RollbackAction} (undoes : Undoes disk step action) (same : twin.plan = step.plan)
    : Undoes disk twin action := by
  injection same with relPath old new backupRel
  cases undoes with
  | restore was backed intact present named =>
      exact relPath ▸ .restore (old.trans was) (backupRel.trans backed) intact
        (relPath ▸ present) (new ▸ named)
  | remove was becomes present =>
      exact relPath ▸ .remove (old.trans was) (new.trans becomes) (relPath ▸ present)

theorem Undoes.again {start disk : String → Observed} {step : JournalStep}
    {action : RollbackAction} (undoes : Undoes start step action)
    (same : disk step.relPath = start step.relPath)
    (intact : ∀ old backupRel, step.old = some old → step.backupRel = some backupRel
      → disk backupRel = .file old)
    : Undoes disk step action := by
  cases undoes with
  | restore was backed _ present named =>
      exact .restore was backed (intact _ _ was backed) (same.trans present) named
  | remove was becomes present => exact .remove was becomes (same.trans present)

theorem JournalStep.progress_of_unsettled {step : JournalStep} (unsettled : step.isSettled = false)
    : step.state = .intent ∨ step.state = .applied := by
  cases state : step.state <;> simp_all [JournalStep.isSettled]

include planned in
theorem does_perform_kept {step : JournalStep} {action : RollbackAction}
    (kept : Kept base origin state) (phase : state.memory.phase = .rollingBack)
    (member : step ∈ state.memory.steps) (undoes : Undoes state.disk step action)
    (changed : state.disk step.relPath ≠ .expected step.old)
    : Does (Kept base origin)
        (fun stopped final => stopped = none
          ∧ final.disk = Function.update state.disk step.relPath (.expected step.old)
          ∧ final.memory.phase = .rollingBack)
        (fun _ => True) (perform action) state := by
  have planned' := planned.of_samePlan kept.sound.memory.plan
  have unsettled := kept.sound.memory.unsettled member changed
  have progress := step.progress_of_unsettled unsettled
  have intent : step.hasIntent = true := by
    rcases progress with progress | progress <;> simp [JournalStep.hasIntent, progress]
  have sheltered := kept.sound.memory.fits.sheltered ⟨step, member, intent⟩
  have intact := kept.sound.memory.fits.backed step member intent
  obtain ⟨index, found, checked⟩ :=
    checkStepState_of_member planned' member (by simpa [JournalStep.hasIntent] using intent)
  refine does_bindCurrent kept ?_
  rw [undoes.relPath, checked]
  refine .bind _ (does_changeBack_kept planned kept phase member undoes changed) ?_
  intro stopped final holds reached
  obtain ⟨rfl, disk, memory⟩ := reached
  refine .ite (fun _ => ?_) fun neither => absurd progress neither
  have advance := does_advanceStep_kept index .restored holds
    (by intro same; cases same) ?_
  · refine .bind _ (advance.mono (fun _ _ _ reached => reached) fun _ _ _ _ => trivial) ?_
    intro _ last kept' reached
    obtain ⟨disk', _, _, step', _, memory'⟩ := reached
    refine .pure kept' ⟨rfl, disk'.trans disk, ?_⟩
    rw [memory', memory]
    exact phase
  · intro step' found'
    rw [memory, found] at found'
    obtain rfl := Option.some.inj found'
    rw [disk, memory]
    refine ⟨fun _ => Function.update_self _ _ _, ?_, sheltered⟩
    intro old was
    rw [Function.update_of_ne (backup_ne (sheltered step member))]
    exact intact old was

/-- The steps of a journal, and which of their decided actions are still to be carried out. -/
structure Remaining (steps : List JournalStep) (start disk : String → Observed)
    (actions : List RollbackAction) : Prop where
  distinct : (actions.map RollbackAction.relPath).Nodup
  each : ∀ action ∈ actions, ∃ step ∈ steps, undoOn start step = some action
    ∧ disk step.relPath = start step.relPath
  others : ∀ step ∈ steps, disk step.relPath = .expected step.old
    ∨ ∃ action ∈ actions, undoOn start step = some action

include planned in
/-- Performing all actions that remain leaves every step at its old identity, by induction over
the actions.
-/
theorem does_performAll_kept {journal : UpdateJournal} (same : SamePlan base journal)
    {actions : List RollbackAction} (kept : Kept base origin state)
    (phase : state.memory.phase = .rollingBack)
    (remaining : Remaining journal.steps start state.disk actions)
    : Does (Kept base origin)
        (fun stopped final => stopped = none ∧ AllOld final.disk journal.steps
          ∧ final.memory.phase = .rollingBack)
        (fun _ => True) (performAll actions) state := by
  induction actions generalizing state with
  | nil =>
      refine .pure kept ⟨rfl, ?_, phase⟩
      intro step member
      rcases remaining.others step member with old | ⟨action, none', _⟩
      · exact old
      · cases none'
  | cons action rest ih =>
      obtain ⟨fresh, distinct⟩ := List.nodup_cons.mp remaining.distinct
      obtain ⟨step, member, undo, here⟩ := remaining.each action List.mem_cons_self
      obtain ⟨undoes, changed⟩ := undoOn_undoes undo
      have planned' := planned.of_samePlan same
      -- The step as the journal in memory has it now.
      have same' := same.symm.trans kept.sound.memory.plan
      obtain ⟨twin, member', plan⟩ := same'.symm.origin member
      obtain ⟨relPath, old, backupRel⟩ : twin.relPath = step.relPath ∧ twin.old = step.old
          ∧ twin.backupRel = step.backupRel := by
        injection plan with relPath old _ backupRel
        exact ⟨relPath, old, backupRel⟩
      have moved : state.disk twin.relPath ≠ .expected twin.old := by
        rw [relPath, old, here]
        exact changed
      have unsettled := kept.sound.memory.unsettled member' moved
      have intact := kept.sound.memory.fits.backed twin member' (by
        rcases twin.progress_of_unsettled unsettled with progress | progress <;>
          simp [JournalStep.hasIntent, progress])
      have still : Undoes state.disk twin action := by
        refine (undoes.again here ?_).of_plan plan
        intro content backup was backed
        have own := planned'.backedUp step member (by simp [was])
        rw [backed, ← relPath] at own
        rw [Option.some.inj own]
        exact intact content (old.trans was)
      refine .bind _ (does_perform_kept planned kept phase member' still moved) ?_
      intro stopped final holds reached
      obtain ⟨rfl, disk, phase'⟩ := reached
      rw [relPath, old] at disk
      refine ih holds phase' ⟨distinct, ?_, ?_⟩
      · intro other among
        obtain ⟨step', member'', undo', there⟩ := remaining.each other (List.mem_cons_of_mem _ among)
        have apart : step'.relPath ≠ step.relPath := by
          intro collides
          refine fresh (List.mem_map.mpr ⟨other, among, ?_⟩)
          rw [(undoOn_undoes undo').1.relPath, collides, ← undoes.relPath]
        refine ⟨step', member'', undo', ?_⟩
        rw [disk, Function.update_of_ne apart]
        exact there
      · intro step' member''
        by_cases collides : step'.relPath = step.relPath
        · left
          rw [planned'.same_step member member'' collides, disk, Function.update_self]
        · rw [disk, Function.update_of_ne collides]
          rcases remaining.others step' member'' with done | ⟨other, among, undo'⟩
          · exact .inl done
          · rcases List.mem_cons.mp among with first | later
            · subst first
              exact absurd ((undoOn_undoes undo').1.relPath.symm.trans undoes.relPath) collides
            · exact .inr ⟨other, later, undo'⟩

theorem Remaining.of_decision {journal : UpdateJournal}
    (planned' : WellPlanned journal.steps journal.unchanged) {actions : List RollbackAction}
    (decided : actionsOn start journal.steps = .ok actions)
    : Remaining journal.steps start start actions.reverse := by
  obtain ⟨native, listed⟩ := actionsOn_ok.mp decided
  have named : ∀ steps : List JournalStep,
      ((steps.filterMap (undoOn start)).map RollbackAction.relPath).Sublist
        (steps.map JournalStep.relPath) := by
    intro steps
    induction steps with
    | nil => exact .slnil
    | cons step rest ih =>
        rcases undo : undoOn start step with _ | action
        · rw [List.filterMap_cons_none undo]
          exact ih.cons _
        · rw [List.filterMap_cons_some undo, List.map_cons, List.map_cons,
            (undoOn_undoes undo).1.relPath]
          exact ih.cons_cons _
  have distinct := (List.nodup_append.mp planned'.distinct).1
  refine ⟨?_, ?_, ?_⟩
  · rw [List.map_reverse, List.nodup_reverse, listed]
    exact (named journal.steps).nodup distinct
  · intro action member
    rw [List.mem_reverse, listed] at member
    obtain ⟨step, among, undo⟩ := List.mem_filterMap.mp member
    exact ⟨step, among, undo, rfl⟩
  · intro step member
    rcases undo : undoOn start step with _ | action
    · left
      rcases outcome : actionOn start step with why | action
      · exact absurd (fun action same => by rw [outcome] at same; cases same) (native step member)
      · have none' : action = none := by simpa [undoOn, outcome] using undo
        subst none'
        exact actionOn_ok outcome
    · right
      refine ⟨action, ?_, rfl⟩
      rw [List.mem_reverse, listed]
      exact List.mem_filterMap.mpr ⟨step, member, undo⟩

/-- No action is refused whose step is not at its old identity, by induction over the actions. -/
theorem firstRefused_none {journal : UpdateJournal} {disk : String → Observed}
    (planned' : WellPlanned journal.steps journal.unchanged) (fits : Fits journal disk)
    {actions : List RollbackAction}
    (each : ∀ action ∈ actions, ∃ step ∈ journal.steps, action.relPath = step.relPath
      ∧ disk step.relPath ≠ .expected step.old)
    : firstRefused journal actions = none := by
  induction actions with
  | nil => rfl
  | cons action rest ih =>
      obtain ⟨first, later⟩ := List.forall_mem_cons.mp each
      obtain ⟨step, member, named, changed⟩ := first
      have intent : step.state ≠ .planned := by
        intro planned
        exact changed (fits.settled step member (by simp [JournalStep.isSettled, planned]))
      obtain ⟨index, _, checked⟩ := checkStepState_of_member planned' member intent
      rw [firstRefused, named, checked]
      exact ih later

theorem does_require_kept {why : String} (kept : Kept base origin state) (excused : Excused state)
    : Does (Kept base origin)
        (fun outcome final => outcome = .recoveryRequired why ∧ Excused final)
        (fun _ => True) (require why) state := by
  have advance := does_advancePhase_kept .recoveryRequired kept nofun nofun
    fun _ => excused
  refine .bind (Program.byOutcome _ fun _ => _) (does_caught advance) ?_
  intro outcome final holds reached
  refine .pure holds ⟨rfl, ?_⟩
  cases outcome with
  | ok value => exact excused.mono fun _ member => reached.2.1 ▸ member
  | error err => exact excused.mono fun _ member => reached.2.1 ▸ member

theorem does_settleOld_kept (kept : Kept base origin state)
    (old : AllOld state.disk state.memory.steps)
    (phase : state.memory.phase ≠ .committed ∧ state.memory.phase ≠ .recoveryRequired)
    : Does (Kept base origin) (fun _ final => final.disk = state.disk) (fun _ => True)
        settleOld state := by
  refine does_bindCurrent kept ?_
  have last : ∀ {state : UpdateState}, Kept base origin state → AllOld state.disk state.memory.steps
      → Does (Kept base origin) (fun _ final => final.disk = state.disk) (fun _ => True)
          (advancePhase .rolledBack) state :=
    fun kept old => (does_advancePhase_kept .rolledBack kept nofun (fun _ => old) nofun).mono
      (fun _ _ _ reached => reached.1) fun _ _ _ _ => trivial
  cases here : state.memory.phase with
  | prepared | exitAuthorized | rollingBack => exact last kept old
  | applying | awaitingHealth =>
      have first := does_advancePhase_kept .rollingBack kept nofun nofun nofun
      refine .bind _ (first.mono (fun _ _ _ reached => reached) fun _ _ _ _ => trivial) ?_
      intro _ final holds reached
      obtain ⟨disk, _, _, memory⟩ := reached
      have old' : AllOld final.disk final.memory.steps := by
        rw [disk, memory]
        exact old
      exact (last holds old').mono (fun _ _ _ same => same.trans disk) fun _ _ _ _ => trivial
  | rolledBack => exact .pure kept rfl
  | committed => exact absurd here phase.1
  | recoveryRequired => exact absurd here phase.2

include planned in
theorem does_writeBack_kept {journal : UpdateJournal} {actions : List RollbackAction}
    (kept : Kept base origin state) (phase : state.memory.phase = .rollingBack)
    (same : SamePlan base journal) (decided : actionsOn state.disk journal.steps = .ok actions)
    : Does (Kept base origin)
        (fun outcome final => outcome = .rolledBack ∧ AllOld final.disk base.steps)
        (fun _ => True) (writeBack actions) state := by
  have memory := kept.sound.memory
  have planned' := planned.of_samePlan memory.plan
  have remaining := Remaining.of_decision (planned.of_samePlan same) decided
  have refused : firstRefused state.memory actions = none := by
    refine firstRefused_none planned' memory.fits ?_
    intro action member
    obtain ⟨step, among, undo, _⟩ := remaining.each action (List.mem_reverse.mpr member)
    obtain ⟨undoes, changed⟩ := undoOn_undoes undo
    obtain ⟨twin, member', plan⟩ := (same.symm.trans memory.plan).symm.origin among
    injection plan with relPath old _ _
    exact ⟨twin, member', undoes.relPath.trans relPath.symm, by rw [relPath, old]; exact changed⟩
  refine does_bindCurrent kept ?_
  rw [refused]
  refine .bind _ (does_performAll_kept planned same kept phase remaining) ?_
  intro stopped final holds reached
  obtain ⟨rfl, old, phase'⟩ := reached
  have old' : AllOld final.disk final.memory.steps :=
    (allOld_of_samePlan (same.symm.trans holds.sound.memory.plan)).mpr old
  refine does_bindCurrent holds ?_
  refine does_bindDecision holds trivial ?_
  have keep : decideOn final.disk final.memory = .keepOld :=
    holds.sound.memory.fits.keepOld old' (by simp [phase'])
  refine .ite (fun _ => ?_) fun differs => absurd keep differs
  have last := does_advancePhase_kept .rolledBack holds nofun (fun _ => old') nofun
  refine .bind _ (last.mono (fun _ _ _ reached => reached) fun _ _ _ _ => trivial) ?_
  intro _ last kept' reached
  refine .pure kept' ⟨rfl, ?_⟩
  rw [reached.1]
  exact (allOld_of_samePlan same).mp old

include planned in
theorem does_rollBack_kept {actions : List RollbackAction} (kept : Kept base origin state)
    (may : state.memory.phase.mayHaveChanged = true)
    (decided : actionsOn state.disk state.memory.steps = .ok actions)
    : Does (Kept base origin)
        (fun outcome final => outcome = .rolledBack ∧ AllOld final.disk base.steps)
        (fun _ => True) (rollBack actions) state := by
  refine .bind (fun refused final => refused = none ∧ final.disk = state.disk
    ∧ final.memory.phase = .rollingBack) ?_ ?_
  · refine does_bindCurrent kept ?_
    cases here : state.memory.phase with
    | applying | awaitingHealth =>
        have first := does_advancePhase_kept .rollingBack kept nofun nofun nofun
        refine .bind _ (first.mono (fun _ _ _ reached => reached) fun _ _ _ _ => trivial) ?_
        intro _ final holds reached
        obtain ⟨disk, _, _, memory⟩ := reached
        exact .pure holds ⟨rfl, disk, by rw [memory]; rfl⟩
    | rollingBack => exact .pure kept ⟨rfl, rfl, here⟩
    | _ => simp [here, Phase.mayHaveChanged] at may
  · intro refused final holds reached
    obtain ⟨rfl, disk, phase⟩ := reached
    exact does_writeBack_kept planned holds phase kept.sound.memory.plan (disk ▸ decided)

/-- What an outcome of a recovery says. -/
def RecoveryOutcome.Leaves (base : UpdateJournal) (phase : Phase) (final : UpdateState)
    : RecoveryOutcome → Prop
  | nothing => False
  | keptOld | rolledBack => AllOld final.disk base.steps
  | keptNew => AllNew final.disk base.steps ∧ phase = .committed
  | recoveryRequired _ => Excused final

include planned in
/-- A recovery at any point of an update keeps its promise, by cases on its decision. -/
theorem does_recover_kept (kept : Kept base origin state)
    : Does (Kept base origin)
        (fun outcome final => outcome.Leaves base state.memory.phase final)
        (fun _ => True) recover state := by
  refine .bind (fun placed final => final = state ∧ placed = .ok ()
      ∨ placed ≠ .ok () ∧ Excused final) ?_ ?_
  · refine does_verifyPlacement kept (.inl ⟨rfl, rfl⟩) ⟨kept.note _, fun err => .inr ⟨nofun, ?_⟩⟩
    exact ⟨_, List.mem_cons_self, .inl rfl⟩
  intro placed final holds reached
  rcases reached with ⟨rfl, rfl⟩ | ⟨lost, excused⟩
  · refine does_bindCurrent holds ?_
    refine does_bindDecision holds trivial ?_
    have memory := holds.sound.memory
    rcases memory.fits.decision (planned.of_samePlan memory.plan) with
      ⟨keep, old, phase⟩ | ⟨keep, new, phase⟩ | ⟨actions, back, decided, may⟩
        | ⟨⟨why, required⟩, phase⟩
    · rw [keep]
      refine .bind _ (does_settleOld_kept holds old phase) ?_
      intro _ last kept' same
      refine .pure kept' ?_
      show AllOld last.disk base.steps
      rw [same]
      exact (allOld_of_samePlan memory.plan).mp old
    · rw [keep]
      exact .pure holds ⟨(allNew_of_samePlan memory.plan).mp new, phase⟩
    · rw [back]
      refine .ite (fun _ => ?_) fun _ => ?_
      · refine .bind (fun stopped last => last.disk = final.disk ∧ last.memory = final.memory
          ∧ (stopped ≠ .ok () → Excused last)) ?_ ?_
        · refine does_stopChild holds ⟨holds.note _, rfl, rfl, fun differs => absurd rfl differs⟩
            ⟨holds.note _, fun _ => ⟨rfl, rfl, fun _ => ?_⟩⟩
          exact ⟨_, List.mem_cons_self, .inr rfl⟩
        · intro stopped last kept' reached
          obtain ⟨disk, memory', excused⟩ := reached
          cases stopped with
          | error err =>
              refine (does_require_kept kept' (excused nofun)).mono ?_ fun _ _ _ fails => fails
              intro outcome _ _ required
              obtain ⟨rfl, still⟩ := required
              exact still
          | ok value =>
              refine (does_rollBack_kept planned kept' (by rw [memory']; exact may)
                (by rw [memory', disk]; exact decided)).mono ?_ fun _ _ _ fails => fails
              intro outcome _ _ done
              obtain ⟨rfl, old⟩ := done
              exact old
      · refine (does_rollBack_kept planned holds may decided).mono ?_ fun _ _ _ fails => fails
        intro outcome _ _ done
        obtain ⟨rfl, old⟩ := done
        exact old
    · rw [required]
      refine (does_require_kept holds (memory.excused phase)).mono ?_ fun _ _ _ fails => fails
      intro outcome _ _ required
      obtain ⟨rfl, still⟩ := required
      exact still
  · cases placed with
    | ok value => exact absurd rfl lost
    | error err =>
        refine .bind (fun _ last => Excused last) ?_ ?_
        · have later : ∀ confirmed, Excused (final.note (.stopped confirmed)) := fun confirmed =>
            excused.mono fun _ member => List.mem_cons_of_mem _ member
          exact does_stopChild holds ⟨holds.note _, later true⟩ ⟨holds.note _, fun _ => later false⟩
        · intro _ last kept' excused'
          refine (does_require_kept kept' excused').mono ?_ fun _ _ _ fails => fails
          intro outcome _ _ required
          obtain ⟨rfl, still⟩ := required
          exact still

end Recovering

end Hane.Update
