import Hane.Update.RecoverySafety
import Mathlib.Logic.Relation

/-! What the stored journal, the journal in memory and the disk have in common at every point
of an update nobody else interferes with.
-/

namespace Hane.Update

open Hane.Foundations

-- Plans

/-- What validation makes sure of about the files of a plan. -/
structure WellPlanned (steps : List JournalStep) (unchanged : List UnchangedFile) : Prop where
  distinct : (steps.map JournalStep.relPath ++ unchanged.map UnchangedFile.relPath).Nodup
  backedUp : ∀ step ∈ steps, step.old ≠ none → step.backupRel = some (backupPrefix ++ step.relPath)
  changing : ∀ step ∈ steps, step.old ≠ none ∨ step.new ≠ none
  sheltered : ∀ file ∈ unchanged, startsWithBackup file.relPath = false

theorem validateAll_ok {α : Type} {check : α → Except UpdateError Unit} {items : List α}
    (valid : validateAll check items = .ok ())
    : ∀ item ∈ items, check item = .ok () := by
  induction items with
  | nil => exact fun _ member => nomatch member
  | cons item rest ih =>
      simp only [validateAll, except_bind_ok_iff] at valid
      obtain ⟨_, first, later⟩ := valid
      exact List.forall_mem_cons.mpr ⟨first, ih later⟩

theorem JournalStep.validate_ok {step : JournalStep} (valid : step.validate = .ok ())
    : (step.old ≠ none → step.backupRel = some (backupPrefix ++ step.relPath))
      ∧ (step.old ≠ none ∨ step.new ≠ none) := by
  simp only [JournalStep.validate, except_bind_ok_iff, except_guard_ok_iff] at valid
  obtain ⟨_, _, changes, backups⟩ := valid
  have changing : step.old ≠ none ∨ step.new ≠ none := by
    by_contra neither
    simp_all
  refine ⟨?_, changing⟩
  intro replaced
  rcases was : step.old with _ | old
  · exact absurd was replaced
  · rcases backed : step.backupRel with _ | backup
    · simp only [was, backed, except_bind_ok_iff] at backups
      obtain ⟨_, impossible, _⟩ := backups
      cases impossible
    · simp only [was, backed, except_bind_ok_iff, except_guard_ok_iff] at backups
      obtain ⟨_, _, own, _⟩ := backups
      simpa using own

theorem WellPlanned.of_validate {Json : Type} {crates : Crates Json} {journal : UpdateJournal}
    (valid : journal.validate crates = .ok ())
    : WellPlanned journal.steps journal.unchanged := by
  have distinct := UpdateJournal.distinct_of_validate valid
  simp only [UpdateJournal.validate, except_bind_ok_iff, except_guard_ok_iff] at valid
  obtain ⟨_, _, _, _, _, _, _, _, _, steps, _, _, unchanged⟩ := valid
  refine ⟨distinct, ?_, ?_, ?_⟩
  · exact fun step member => (JournalStep.validate_ok (validateAll_ok steps step member)).1
  · exact fun step member => (JournalStep.validate_ok (validateAll_ok steps step member)).2
  · intro file member
    have fine := validateAll_ok unchanged file member
    simp only [UnchangedFile.validate, except_bind_ok_iff, except_guard_ok_iff] at fine
    obtain ⟨_, _, outside, _⟩ := fine
    simpa using outside

theorem SamePlan.origin {journal later : UpdateJournal} (same : SamePlan journal later)
    {step : JournalStep} (member : step ∈ later.steps)
    : ∃ origin ∈ journal.steps, origin.plan = step.plan := by
  have planned := List.mem_map_of_mem (f := JournalStep.plan) member
  rw [same.steps] at planned
  exact List.mem_map.mp planned

theorem SamePlan.symm {journal later : UpdateJournal} (same : SamePlan journal later)
    : SamePlan later journal :=
  ⟨same.transaction.symm, same.unchanged.symm, same.steps.symm⟩

theorem WellPlanned.of_samePlan {journal later : UpdateJournal}
    (planned : WellPlanned journal.steps journal.unchanged) (same : SamePlan journal later)
    : WellPlanned later.steps later.unchanged where
  distinct := by
    have named : ∀ steps : List JournalStep,
        steps.map JournalStep.relPath = (steps.map JournalStep.plan).map PlanStep.relPath := by
      intro steps
      simp [JournalStep.plan]
    simpa only [named, same.steps, same.unchanged] using planned.distinct
  backedUp := by
    intro step member
    obtain ⟨origin, member', plan⟩ := same.origin member
    injection plan with relPath old new backupRel
    simpa only [relPath, old, backupRel] using planned.backedUp origin member'
  changing := by
    intro step member
    obtain ⟨origin, member', plan⟩ := same.origin member
    injection plan with relPath old new backupRel
    simpa only [old, new] using planned.changing origin member'
  sheltered := by simpa only [same.unchanged] using planned.sheltered

-- What a journal says about the disk

/-- A step whose path is at its old identity whatever else happens. -/
def JournalStep.isSettled (step : JournalStep) : Bool :=
  step.state = .planned ∨ step.state = .restored

/-- The backup of a step holds the old content. -/
def JournalStep.Intact (disk : String → Observed) (step : JournalStep) : Prop :=
  ∀ old, step.old = some old → disk (backupPrefix ++ step.relPath) = .file old

/-- No step lives in the backup area. -/
def Sheltered (steps : List JournalStep) : Prop :=
  ∀ step ∈ steps, startsWithBackup step.relPath = false

/-- What the journal in a phase says about the disk. -/
structure Fits (journal : UpdateJournal) (disk : String → Observed) : Prop where
  settled : ∀ step ∈ journal.steps, step.isSettled = true → disk step.relPath = .expected step.old
  mixed : ∀ step ∈ journal.steps, disk step.relPath = .expected step.old
    ∨ disk step.relPath = .expected step.new ∨ disk step.relPath = .missing
  backed : ∀ step ∈ journal.steps, step.hasIntent = true → step.Intact disk
  sheltered : (∃ step ∈ journal.steps, step.hasIntent = true) → Sheltered journal.steps
  unchanged : AllUnchanged disk journal.unchanged
  fresh : journal.phase = .prepared ∨ journal.phase = .exitAuthorized
    → ∀ step ∈ journal.steps, step.hasIntent = false
  new : journal.phase = .awaitingHealth ∨ journal.phase = .committed → AllNew disk journal.steps
  old : journal.phase = .rolledBack → AllOld disk journal.steps

theorem Fits.of_fresh {journal : UpdateJournal} {disk : String → Observed}
    (phase : journal.phase = .prepared) (fresh : ∀ step ∈ journal.steps, step.hasIntent = false)
    (old : AllOld disk journal.steps) (unchanged : AllUnchanged disk journal.unchanged)
    : Fits journal disk where
  settled step member _ := old step member
  mixed step member := .inl (old step member)
  backed step member intent := by simp [fresh step member] at intent
  sheltered := by
    intro some'
    obtain ⟨step, member, intent⟩ := some'
    simp [fresh step member] at intent
  unchanged := unchanged
  fresh _ := fresh
  new := by simp [phase]
  old _ := old

theorem Phase.prepared_of_mayFollow {phase next : Phase} (allowed : phase.mayFollow next = true)
    (early : next = .prepared ∨ next = .exitAuthorized)
    : phase = .prepared := by
  rcases early with same | same
  · subst same
    cases phase <;> cases allowed
  · subst same
    cases phase <;> first | rfl | cases allowed

theorem Phase.awaitingHealth_of_mayFollow {phase : Phase}
    (allowed : phase.mayFollow .committed = true)
    : phase = .awaitingHealth := by
  cases phase <;> first | rfl | cases allowed

theorem Phase.pending_of_mayFollow {phase next : Phase} (allowed : phase.mayFollow next = true)
    : phase.isTerminal = false := by
  cases phase <;> first | rfl | (cases next <;> cases allowed)

section Fitting

variable {journal : UpdateJournal} {disk : String → Observed}

theorem Fits.moved (fits : Fits journal disk) {phase : Phase}
    (allowed : journal.phase.mayFollow phase = true)
    (new : phase = .awaitingHealth → AllNew disk journal.steps)
    (old : phase = .rolledBack → AllOld disk journal.steps)
    : Fits ({ journal with phase := phase }.after journal) disk where
  settled := fits.settled
  mixed := fits.mixed
  backed := fits.backed
  sheltered := fits.sheltered
  unchanged := fits.unchanged
  fresh := by
    intro early
    exact fits.fresh (.inl (Phase.prepared_of_mayFollow allowed early))
  new := by
    intro late
    rcases late with late | late
    · exact new late
    · subst late
      exact fits.new (.inl (Phase.awaitingHealth_of_mayFollow allowed))
  old := old

theorem Fits.stepped (fits : Fits journal disk) {index : Nat} {step : JournalStep}
    {state : StepState} (found : journal.steps[index]? = some step)
    (phase : journal.phase = .applying ∨ journal.phase = .rollingBack)
    (settled : state = .restored → disk step.relPath = .expected step.old)
    (started : state ≠ .planned) (backed : step.Intact disk) (sheltered : Sheltered journal.steps)
    : Fits ({ journal with steps := journal.steps.set index { step with state := state } }.after
        journal) disk := by
  -- Every step of the new journal is the moved one, or one of the old journal.
  have member : ∀ other ∈ journal.steps.set index { step with state := state },
      other = { step with state := state } ∨ other ∈ journal.steps := by
    intro other among
    rcases List.mem_or_eq_of_mem_set among with old | moved
    · exact .inr old
    · exact .inl moved
  have among : step ∈ journal.steps := List.mem_of_getElem? found
  refine ⟨?_, ?_, ?_, ?_, fits.unchanged, ?_, ?_, ?_⟩
  · intro other within still
    rcases member other within with same | old
    · subst same
      refine settled ?_
      simpa [JournalStep.isSettled, started] using still
    · exact fits.settled other old still
  · intro other within
    rcases member other within with same | old
    · subst same
      exact fits.mixed step among
    · exact fits.mixed other old
  · intro other within intent
    rcases member other within with same | old
    · subst same
      exact backed
    · exact fits.backed other old intent
  · intro _ other within
    rcases member other within with same | old
    · subst same
      exact sheltered step among
    · exact sheltered other old
  · intro early
    rcases phase with phase | phase <;> simp [phase, UpdateJournal.after] at early
  · intro late
    rcases phase with phase | phase <;> simp [phase, UpdateJournal.after] at late
  · intro late
    rcases phase with phase | phase <;> simp [phase, UpdateJournal.after] at late

theorem WellPlanned.same_step {steps : List JournalStep} {unchanged : List UnchangedFile}
    (planned : WellPlanned steps unchanged) {step other : JournalStep} (member : step ∈ steps)
    (among : other ∈ steps) (same : other.relPath = step.relPath)
    : other = step :=
  List.inj_on_of_nodup_map (List.nodup_append.mp planned.distinct).1 among member same

theorem WellPlanned.relPath_ne {steps : List JournalStep} {unchanged : List UnchangedFile}
    (planned : WellPlanned steps unchanged) {step : JournalStep} (member : step ∈ steps)
    {file : UnchangedFile} (among : file ∈ unchanged)
    : file.relPath ≠ step.relPath := by
  intro same
  obtain ⟨_, _, apart⟩ := List.nodup_append.mp planned.distinct
  exact apart _ (List.mem_map_of_mem member) _ (List.mem_map_of_mem among) same.symm

theorem startsWithBackup_backup (relPath : String)
    : startsWithBackup (backupPrefix ++ relPath) = true := by
  simp [startsWithBackup]

theorem backup_ne {relPath other : String} (outside : startsWithBackup relPath = false)
    : backupPrefix ++ other ≠ relPath := by
  intro same
  rw [← same, startsWithBackup_backup] at outside
  cases outside

/-- The phases between the first change of a file and the end of a rollback. -/
def Phase.isMoving : Phase → Bool
  | applying | rollingBack | recoveryRequired => true
  | _ => false

/-- Changing the file of a step with an unsettled intent keeps the fit, whatever of the contents
of a replacement the path has now.
-/
theorem Fits.altered (fits : Fits journal disk)
    (planned : WellPlanned journal.steps journal.unchanged) {step : JournalStep}
    (member : step ∈ journal.steps) (unsettled : step.isSettled = false)
    (moving : journal.phase.isMoving = true) {content : Observed}
    (allowed : content = .expected step.old ∨ content = .expected step.new ∨ content = .missing)
    : Fits journal (Function.update disk step.relPath content) := by
  have intent : step.hasIntent = true := by
    cases state : step.state <;> simp_all [JournalStep.isSettled, JournalStep.hasIntent]
  have sheltered := fits.sheltered ⟨step, member, intent⟩
  refine ⟨?_, ?_, ?_, fits.sheltered, ?_, ?_, ?_, ?_⟩
  · intro other among still
    have apart : other.relPath ≠ step.relPath := by
      intro same
      rw [planned.same_step member among same, unsettled] at still
      cases still
    simpa only [Function.update_of_ne apart] using fits.settled other among still
  · intro other among
    by_cases same : other.relPath = step.relPath
    · rw [planned.same_step member among same, Function.update_self]
      exact allowed
    · simpa only [Function.update_of_ne same] using fits.mixed other among
  · intro other among started old was
    rw [Function.update_of_ne (backup_ne (sheltered step member))]
    exact fits.backed other among started old was
  · intro file among
    rw [Function.update_of_ne (planned.relPath_ne member among)]
    exact fits.unchanged file among
  · intro early
    exact absurd (fits.fresh early step member) (by simp [intent])
  · intro late
    rcases late with late | late <;> simp [late, Phase.isMoving] at moving
  · intro late
    simp [late, Phase.isMoving] at moving

theorem Fits.backingUp (fits : Fits journal disk)
    (planned : WellPlanned journal.steps journal.unchanged)
    (fresh : ∀ step ∈ journal.steps, step.hasIntent = false) (sheltered : Sheltered journal.steps)
    (relPath : String) (content : Observed)
    : Fits journal (Function.update disk (backupPrefix ++ relPath) content) := by
  have outside : ∀ step ∈ journal.steps,
      Function.update disk (backupPrefix ++ relPath) content step.relPath = disk step.relPath :=
    fun step member => Function.update_of_ne (backup_ne (sheltered step member)).symm _ _
  refine ⟨?_, ?_, ?_, fits.sheltered, ?_, fits.fresh, ?_, ?_⟩
  · intro step member still
    rw [outside step member]
    exact fits.settled step member still
  · intro step member
    rw [outside step member]
    exact fits.mixed step member
  · intro step member intent
    simp [fresh step member] at intent
  · intro file among
    rw [Function.update_of_ne (backup_ne (planned.sheltered file among)).symm]
    exact fits.unchanged file among
  · intro late step member
    rw [outside step member]
    exact fits.new late step member
  · intro late step member
    rw [outside step member]
    exact fits.old late step member

end Fitting

-- The invariant

/-- A recovery has an excuse for giving up: the placement was lost, or the child could not be
stopped.
-/
def Excused (state : UpdateState) : Prop :=
  ∃ event ∈ state.events, event = .placementLost ∨ event = .stopped false

/-- A journal of the plan that fits the disk, given up only with an excuse. -/
structure Holds (base journal : UpdateJournal) (state : UpdateState) : Prop where
  plan : SamePlan base journal
  fits : Fits journal state.disk
  excused : journal.phase = .recoveryRequired → Excused state

/-- The stored journal is the one in memory, or the one the writer tried to store last. -/
def Follows (memory stored : UpdateJournal) : Prop :=
  stored = memory
    ∨ stored.generation = memory.generation + 1
      ∧ (stored.phase = memory.phase ∨ memory.phase.mayFollow stored.phase = true)

/-- Both journals hold, and the stored one follows the one in memory. -/
structure Sound (base : UpdateJournal) (state : UpdateState) : Prop where
  memory : Holds base state.memory state
  stored : ∃ stored, state.stored = some stored ∧ Holds base stored state
    ∧ Follows state.memory stored

/-- The update is durably over. -/
def UpdateState.Over (state : UpdateState) : Prop :=
  ∃ stored, state.stored = some stored ∧ (stored.phase = .committed ∨ stored.phase = .rolledBack)

/-- What is kept from the beginning of a program to each of its points: the invariant, and an
update that is over.
-/
structure Kept (base : UpdateJournal) (origin state : UpdateState) : Prop where
  sound : Sound base state
  ended : origin.Over → state.stored = origin.stored ∧ state.disk = origin.disk

/-- The store holds what the writer holds. -/
def UpdateState.Level (state : UpdateState) : Prop := state.stored = some state.memory

section Keeping

variable {base journal : UpdateJournal} {origin state : UpdateState}

theorem Sound.level (sound : Sound base state) (unmoved : state.Unmoved state.memory)
    : state.Level := by
  obtain ⟨stored, found, _, follows⟩ := sound.stored
  obtain ⟨stored', found', same, _⟩ := unmoved
  obtain rfl := Option.some.inj (found.symm.trans found')
  rcases follows with level | ⟨ahead, _⟩
  · rw [UpdateState.Level, found, level]
  · omega

theorem Kept.not_over (kept : Kept base origin state) (level : state.Level)
    (pending : state.memory.phase.isTerminal = false)
    : ¬origin.Over := by
  intro ended
  obtain ⟨same, _⟩ := kept.ended ended
  obtain ⟨stored, found, phase⟩ := ended
  rw [← same, level] at found
  obtain rfl := Option.some.inj found
  rcases phase with phase | phase <;> simp [phase, Phase.isTerminal] at pending

theorem Excused.mono {final : UpdateState} (excused : Excused state)
    (later : ∀ event ∈ state.events, event ∈ final.events)
    : Excused final := by
  obtain ⟨event, member, excuse⟩ := excused
  exact ⟨event, later event member, excuse⟩

theorem Holds.later (holds : Holds base journal state) {final : UpdateState}
    (fits : Fits journal final.disk) (later : ∀ event ∈ state.events, event ∈ final.events)
    : Holds base journal final :=
  ⟨holds.plan, fits, fun phase => (holds.excused phase).mono later⟩

theorem Kept.note (kept : Kept base origin state) (event : Event)
    : Kept base origin (state.note event) := by
  have later : ∀ earlier ∈ state.events, earlier ∈ (state.note event).events :=
    fun earlier member => List.mem_cons_of_mem _ member
  obtain ⟨stored, found, holds, follows⟩ := kept.sound.stored
  refine ⟨⟨kept.sound.memory.later kept.sound.memory.fits later, ?_⟩, kept.ended⟩
  exact ⟨stored, found, holds.later holds.fits later, follows⟩

/-- Persisting a journal that holds keeps the invariant, also when the writer is told that it
failed.
-/
theorem Kept.persisted (kept : Kept base origin state) {next : UpdateJournal}
    (unmoved : state.Unmoved state.memory) (pending : state.memory.phase.isTerminal = false)
    (holds : Holds base (next.after state.memory) state)
    (phase : next.phase = state.memory.phase ∨ state.memory.phase.mayFollow next.phase = true)
    : Kept base origin (state.storing (next.after state.memory))
      ∧ Kept base origin ((state.storing (next.after state.memory)).remembering
        (next.after state.memory)) := by
  have level := kept.sound.level unmoved
  have begun : ¬origin.Over := kept.not_over level pending
  have same : ∀ {journal : UpdateJournal}, Holds base journal state
      → ∀ stored, Holds base journal (state.storing stored) :=
    fun holds stored => ⟨holds.plan, holds.fits, holds.excused⟩
  refine ⟨⟨⟨same kept.sound.memory _, _, rfl, same holds _, .inr ⟨rfl, phase⟩⟩, ?_⟩,
    ⟨⟨holds.later holds.fits fun _ member => member, _, rfl, ?_, .inl rfl⟩, ?_⟩⟩
  · exact fun ended => absurd ended begun
  · exact holds.later holds.fits fun _ member => member
  · exact fun ended => absurd ended begun

-- Moves of the journal

/-- Advancing the phase keeps the invariant if the new phase promises what holds. -/
theorem does_advancePhase_kept (phase : Phase) (kept : Kept base origin state)
    (new : phase = .awaitingHealth → AllNew state.disk state.memory.steps)
    (old : phase = .rolledBack → AllOld state.disk state.memory.steps)
    (excused : phase = .recoveryRequired → Excused state)
    : Does (Kept base origin)
        (fun _ final => final.disk = state.disk ∧ final.events = state.events ∧ final.Level
          ∧ final.memory = { state.memory with phase := phase }.after state.memory)
        (fun final => final.disk = state.disk ∧ final.events = state.events
          ∧ final.memory = state.memory)
        (advancePhase phase) state := by
  refine does_advancePhase kept ⟨rfl, rfl, rfl⟩ ?_
  intro next moved unmoved
  have same := kept.sound.memory.plan.trans (SamePlan.of_transition moved)
  obtain ⟨allowed, moved⟩ := UpdateJournal.transition_ok moved
  subst moved
  have holds : Holds base (({ state.memory with phase := phase } : UpdateJournal).after
      state.memory) state :=
    ⟨⟨same.transaction, same.unchanged, same.steps⟩,
      kept.sound.memory.fits.moved allowed new old, excused⟩
  obtain ⟨storing, remembering⟩ :=
    kept.persisted unmoved (Phase.pending_of_mayFollow allowed) holds (.inr allowed)
  exact ⟨storing, ⟨rfl, rfl, rfl⟩, remembering, rfl, rfl, rfl, rfl⟩

/-- Advancing a step keeps the invariant if what the step then promises holds. -/
theorem does_advanceStep_kept (index : Nat) (progress : StepState)
    (kept : Kept base origin state) (started : progress ≠ .planned)
    (promised : ∀ step, state.memory.steps[index]? = some step
      → (progress = .restored → state.disk step.relPath = .expected step.old)
        ∧ step.Intact state.disk ∧ Sheltered state.memory.steps)
    : Does (Kept base origin)
        (fun _ final => final.disk = state.disk ∧ final.events = state.events ∧ final.Level
          ∧ ∃ step, state.memory.steps[index]? = some step
            ∧ final.memory = { state.memory with
                steps := state.memory.steps.set index { step with state := progress } }.after
                state.memory)
        (fun final => final.disk = state.disk ∧ final.events = state.events
          ∧ final.memory = state.memory)
        (advanceStep index progress) state := by
  refine does_advanceStep kept ⟨rfl, rfl, rfl⟩ ?_
  intro next moved unmoved
  have same := kept.sound.memory.plan.trans (SamePlan.of_setStep moved)
  obtain ⟨phase, step, found, _, moved⟩ := UpdateJournal.setStep_ok moved
  subst moved
  obtain ⟨settled, backed, sheltered⟩ := promised step found
  have phase : state.memory.phase = .applying ∨ state.memory.phase = .rollingBack := by
    rw [phase]
    cases progress <;> simp [UpdateJournal.stepPhase]
  have pending : state.memory.phase.isTerminal = false := by
    rcases phase with phase | phase <;> rw [phase] <;> rfl
  have moving : state.memory.phase ≠ .recoveryRequired := by
    rcases phase with phase | phase <;> simp [phase]
  have holds : Holds base (({ state.memory with
      steps := state.memory.steps.set index { step with state := progress } } : UpdateJournal).after
        state.memory) state :=
    ⟨⟨same.transaction, same.unchanged, same.steps⟩,
      kept.sound.memory.fits.stepped found phase settled started backed sheltered,
      fun given => absurd given moving⟩
  obtain ⟨storing, remembering⟩ := kept.persisted unmoved pending holds (.inl rfl)
  exact ⟨storing, ⟨rfl, rfl, rfl⟩, remembering, rfl, rfl, rfl, step, found, rfl⟩

-- Changes of files

section Writing

variable (planned : WellPlanned base.steps base.unchanged)

theorem Holds.written {change : FileChange} {content : Observed}
    (holds : Holds base journal state)
    (fits : Fits journal (Function.update state.disk change.path content))
    : Holds base journal (state.write change content) :=
  holds.later fits fun _ member => List.mem_cons_of_mem _ member

include planned in
theorem Holds.altered {change : FileChange} {content : Observed} {step : JournalStep}
    (holds : Holds base journal state) (member : step ∈ journal.steps)
    (unsettled : step.isSettled = false) (moving : journal.phase.isMoving = true)
    (named : change.path = step.relPath)
    (allowed : content = .expected step.old ∨ content = .expected step.new ∨ content = .missing)
    : Holds base journal (state.write change content) := by
  refine holds.written ?_
  rw [named]
  exact holds.fits.altered (planned.of_samePlan holds.plan) member unsettled moving allowed

include planned in
/-- Replacing the file of a step whose intent was made durable keeps the invariant, however far
it came.
-/
theorem Kept.replacing {change : FileChange} {step : JournalStep} (kept : Kept base origin state)
    (level : state.Level) (phase : state.memory.phase = .applying)
    (member : step ∈ state.memory.steps) (intent : step.state = .intent)
    (named : change.path = step.relPath)
    (writes : ∀ content, change.content state.disk = some content
      → content = .expected step.new)
    {final : UpdateState} (alters : Alters state change final)
    : Kept base origin final := by
  have unsettled : step.isSettled = false := by simp [JournalStep.isSettled, intent]
  have moving : state.memory.phase.isMoving = true := by
    rw [phase]
    rfl
  have begun : ¬origin.Over := kept.not_over level (by rw [phase]; rfl)
  have write : ∀ content, content = .expected step.new ∨ content = .missing
      → Kept base origin (state.write change content) := by
    intro content allowed
    have holds : Holds base state.memory (state.write change content) :=
      kept.sound.memory.altered planned member unsettled moving named (.inr allowed)
    exact ⟨⟨holds, _, level, holds, .inl rfl⟩, fun ended => absurd ended begun⟩
  cases alters with
  | untouched => exact kept
  | written carried => exact write _ (.inl (writes _ carried))
  | absent _ => exact write _ (.inr rfl)

include planned in
/-- A backup made before any step has an intent keeps the invariant. -/
theorem Kept.backingUp {relPath source : String} (kept : Kept base origin state)
    (level : state.Level) (phase : state.memory.phase = .applying)
    (fresh : ∀ step ∈ state.memory.steps, step.hasIntent = false)
    (sheltered : Sheltered state.memory.steps) {final : UpdateState}
    (alters : Alters state (.backup source (backupPrefix ++ relPath)) final)
    : Kept base origin final := by
  have begun : ¬origin.Over := kept.not_over level (by rw [phase]; rfl)
  cases alters with
  | untouched => exact kept
  | absent replaces => cases replaces
  | @written content carried =>
      have fits := kept.sound.memory.fits.backingUp (planned.of_samePlan kept.sound.memory.plan)
        fresh sheltered relPath content
      have holds : Holds base state.memory
          (state.write (.backup source (backupPrefix ++ relPath)) content) :=
        kept.sound.memory.written fits
      exact ⟨⟨holds, _, level, holds, .inl rfl⟩, fun ended => absurd ended begun⟩

theorem Holds.unsettled {step : JournalStep} (holds : Holds base journal state)
    (member : step ∈ journal.steps) (changed : state.disk step.relPath ≠ .expected step.old)
    : step.isSettled = false := by
  by_contra settled
  exact changed (holds.fits.settled step member (by simpa using settled))

include planned in
/-- Putting a file back while rolling back keeps the invariant, however far it came, also when
the store is ahead of the writer.
-/
theorem Kept.restoring {change : FileChange} {step : JournalStep} (kept : Kept base origin state)
    (phase : state.memory.phase = .rollingBack) (member : step ∈ state.memory.steps)
    (changed : state.disk step.relPath ≠ .expected step.old) (named : change.path = step.relPath)
    (writes : ∀ content, change.content state.disk = some content
      → content = .expected step.old)
    {final : UpdateState} (alters : Alters state change final)
    : Kept base origin final := by
  obtain ⟨stored, found, holds, follows⟩ := kept.sound.stored
  obtain ⟨origin', within, plan⟩ := kept.sound.memory.plan.origin member
  obtain ⟨twin, member', plan'⟩ := holds.plan.symm.origin within
  have same := plan'.trans plan
  injection same with relPath old new _
  have moving : stored.phase.isMoving = true ∧ stored.phase ≠ .rolledBack
      ∧ stored.phase ≠ .committed := by
    have notOld : stored.phase ≠ .rolledBack := by
      intro ended
      exact changed (by rw [← relPath, ← old]; exact holds.fits.old ended twin member')
    rcases follows with level | ⟨_, level | moved⟩
    · simp [level, phase, Phase.isMoving]
    · simp [level, phase, Phase.isMoving]
    · rw [phase] at moved
      cases late : stored.phase <;> simp_all [Phase.mayFollow, Phase.isMoving, Phase.isTerminal]
  have begun : ¬origin.Over := by
    intro ended
    obtain ⟨same, _⟩ := kept.ended ended
    obtain ⟨stored', found', phase'⟩ := ended
    rw [← same, found] at found'
    obtain rfl := Option.some.inj found'
    exact phase'.elim moving.2.2 moving.2.1
  have write : ∀ content, content = .expected step.old ∨ content = .missing
      → Kept base origin (state.write change content) := by
    intro content allowed
    have memory : Holds base state.memory (state.write change content) := by
      refine kept.sound.memory.altered planned member
        (kept.sound.memory.unsettled member changed) (by rw [phase]; rfl) named ?_
      exact allowed.imp id .inr
    have store : Holds base stored (state.write change content) := by
      refine holds.altered planned member' (holds.unsettled member' ?_) moving.1
        (named.trans relPath.symm) ?_
      · rw [relPath, old]
        exact changed
      · rw [old]
        exact allowed.imp id .inr
    exact ⟨⟨memory, stored, found, store, follows⟩, fun ended => absurd ended begun⟩
  cases alters with
  | untouched => exact kept
  | written carried => exact write _ (.inl (writes _ carried))
  | absent _ => exact write _ (.inr rfl)

end Writing

end Keeping

end Hane.Update
