import Hane.Update.Rollback

/-! An update from its begun journal: any order of applying, concluding, recovering and restarting,
with failing calls and stops anywhere.
-/

namespace Hane.Update

open Hane.Foundations

-- Applying

section Applying

variable {base : UpdateJournal} (planned : WellPlanned base.steps base.unchanged)
variable {origin state : UpdateState}

/-- A writer that may change files: level, in the phase for it, and outside the backup area. -/
structure Ready (state : UpdateState) : Prop where
  level : state.Level
  phase : state.memory.phase = .applying
  sheltered : Sheltered state.memory.steps

theorem Ready.written (ready : Ready state) (change : FileChange) (content : Observed)
    : Ready (state.write change content) :=
  ⟨ready.level, ready.phase, ready.sheltered⟩

theorem does_ensureLiveOld {kept : UpdateState → Prop} {step : JournalStep} (holds : kept state)
    : Does kept (fun _ final => final = state) (fun final => final = state) (ensureLiveOld step)
        state := by
  refine .bind _ (sees holds (by rfl) step.relPath) ?_
  intro observed final kept' both
  obtain ⟨rfl, rfl⟩ := both
  exact .ite (fun _ => ⟨kept', rfl⟩) fun _ => .pure kept' rfl

/-- The check before anything is changed observes only. -/
theorem does_checkInstalled {kept : UpdateState → Prop} {steps : List JournalStep}
    (holds : kept state)
    : Does kept (fun _ final => final = state ∧ Sheltered steps) (fun final => final = state)
        (checkInstalled steps) state := by
  induction steps with
  | nil => exact .pure holds ⟨rfl, fun _ member => nomatch member⟩
  | cons step rest ih =>
      refine .ite (fun _ => ⟨holds, rfl⟩) fun accepted => ?_
      refine .bind _ (sees holds (by rfl) step.relPath) ?_
      intro observed final kept' both
      obtain ⟨rfl, rfl⟩ := both
      refine .ite (fun _ => ⟨kept', rfl⟩) fun _ => ?_
      refine ih.mono ?_ fun _ _ _ same => same
      intro _ final _ reached
      refine ⟨reached.1, List.forall_mem_cons.mpr ⟨?_, reached.2⟩⟩
      simpa using fun inside => accepted (.inl inside)

include planned in
/-- Backing up a step leaves it with an intact backup, and every other backup as it was. -/
theorem does_backupStep_kept {step : JournalStep} (kept : Kept base origin state)
    (ready : Ready state) (fresh : ∀ step ∈ state.memory.steps, step.hasIntent = false)
    (member : step ∈ state.memory.steps)
    : Does (Kept base origin)
        (fun _ final => Ready final ∧ final.memory = state.memory ∧ step.Intact final.disk
          ∧ ∀ other : JournalStep, other.relPath ≠ step.relPath → other.Intact state.disk
            → other.Intact final.disk)
        (fun final => final.memory = state.memory) (backupStep step) state := by
  have backedUp := (planned.of_samePlan kept.sound.memory.plan).backedUp step member
  rcases was : step.old with _ | old
  · have nothing : backupStep step = return () := by simp only [backupStep, was]
    rw [nothing]
    refine .pure kept ⟨ready, rfl, ?_, fun _ _ intact => intact⟩
    intro content replaced
    rw [was] at replaced
    cases replaced
  · have backed : step.backupRel = some (backupPrefix ++ step.relPath) := backedUp (by simp [was])
    have program : backupStep step = (do
        ensureLiveOld step
        ask (.change (.backup step.relPath (backupPrefix ++ step.relPath)))
        if (← observe (backupPrefix ++ step.relPath)) ≠ .file old then
          let relPath := step.relPath
          fail .hashMismatch s!"backup of {relPath} does not match the installed file"
        ensureLiveOld step) := by
      simp only [backupStep, was, backed]
    rw [program]
    have live : ∀ {state' : UpdateState}, Kept base origin state' → state'.memory = state.memory
        → Does (Kept base origin) (fun _ final => final = state')
            (fun final => final.memory = state.memory) (ensureLiveOld step) state' :=
      fun kept memory => (does_ensureLiveOld kept).mono (fun _ _ _ same => same)
        fun _ _ _ same => same ▸ memory
    refine .bind _ (live kept rfl) ?_
    intro _ state' _ same
    subst same
    refine .bind (fun _ final => ∃ content, final
      = state'.write (.backup step.relPath (backupPrefix ++ step.relPath)) content) ?_ ?_
    · refine does_change (fun final alters => ?_) (fun content _ => ⟨content, rfl⟩) ?_
      · exact kept.backingUp planned ready.level ready.phase fresh ready.sheltered alters
      · intro final alters
        cases alters <;> rfl
    intro _ copied kept' written
    obtain ⟨content, rfl⟩ := written
    refine .bind _ (sees kept' (by rfl) (backupPrefix ++ step.relPath)) ?_
    intro observed final holds both
    obtain ⟨rfl, rfl⟩ := both
    refine .ite (fun _ => ⟨holds, rfl⟩) fun equal => ?_
    refine (live holds rfl).mono ?_ fun _ _ _ same => same
    intro _ final _ same
    subst same
    refine ⟨ready.written _ content, rfl, ?_, ?_⟩
    · intro other same
      rw [was] at same
      cases same
      simpa using equal
    · intro other apart intact content' had
      have apart' : backupPrefix ++ other.relPath ≠ backupPrefix ++ step.relPath := by
        simpa using apart
      have kept : (Function.update state'.disk (backupPrefix ++ step.relPath) content)
          (backupPrefix ++ other.relPath) = .file content' := by
        rw [Function.update_of_ne apart']
        exact intact content' had
      exact kept

include planned in
/-- Backing up all steps leaves every backup intact, by induction over the steps. -/
theorem does_backupAll_kept {steps : List JournalStep} (kept : Kept base origin state)
    (ready : Ready state) (fresh : ∀ step ∈ state.memory.steps, step.hasIntent = false)
    (among : ∀ step ∈ steps, step ∈ state.memory.steps)
    (distinct : (steps.map JournalStep.relPath).Nodup)
    : Does (Kept base origin)
        (fun _ final => Ready final ∧ final.memory = state.memory
          ∧ (∀ step ∈ steps, step.Intact final.disk)
          ∧ ∀ other : JournalStep, other.relPath ∉ steps.map JournalStep.relPath
            → other.Intact state.disk → other.Intact final.disk)
        (fun final => final.memory = state.memory) (backupAll steps) state := by
  induction steps generalizing state with
  | nil =>
      refine .pure kept ⟨ready, rfl, ?_, fun _ _ intact => intact⟩
      exact List.forall_mem_nil _
  | cons step rest ih =>
      obtain ⟨first, others⟩ := List.forall_mem_cons.mp among
      rw [List.map_cons, List.nodup_cons] at distinct
      refine .bind _ (does_backupStep_kept planned kept ready fresh first) ?_
      intro _ final holds reached
      obtain ⟨ready', memory, intact, preserved⟩ := reached
      have later := ih holds ready' (by rw [memory]; exact fresh) (by rw [memory]; exact others)
        distinct.2
      refine later.mono ?_ fun _ _ _ same => same.trans memory
      intro _ last _ done
      obtain ⟨ready'', memory', all, preserved'⟩ := done
      refine ⟨ready'', memory'.trans memory, List.forall_mem_cons.mpr ⟨?_, all⟩, ?_⟩
      · exact preserved' step distinct.1 intact
      · intro other outside had
        rw [List.map_cons, List.mem_cons, not_or] at outside
        exact preserved' other outside.2 (preserved other outside.1 had)

theorem forall_mem_set {α : Type} {holds : α → Prop} {items : List α} {index : Nat} {moved : α}
    (all : ∀ item ∈ items, holds item) (here : holds moved)
    : ∀ item ∈ items.set index moved, holds item := by
  intro item member
  rcases List.mem_or_eq_of_mem_set member with old | same
  · exact all item old
  · exact same ▸ here

include planned in
/-- Replacing one file moves its step to applied, and leaves every backup intact. -/
theorem does_replaceStep_kept {index : Nat} {step : JournalStep} (kept : Kept base origin state)
    (ready : Ready state) (found : state.memory.steps[index]? = some step)
    (intact : ∀ step ∈ state.memory.steps, step.Intact state.disk)
    : Does (Kept base origin)
        (fun _ final => Ready final
          ∧ final.memory.steps = state.memory.steps.set index { step with state := .applied }
          ∧ ∀ step ∈ final.memory.steps, step.Intact final.disk)
        (fun final => final.memory.phase = .applying) (replaceStep index step) state := by
  have member := List.mem_of_getElem? found
  obtain ⟨within, _⟩ := List.getElem?_eq_some_iff.mp found
  have started := does_advanceStep_kept index .intent kept (by intro same; cases same)
    fun other here =>
      ⟨by rintro ⟨⟩, intact other (List.mem_of_getElem? here), ready.sheltered⟩
  refine .bind _ (started.mono (fun _ _ _ reached => reached) ?_) ?_
  · intro _ final _ reached
    rw [reached.2.2]
    exact ready.phase
  intro _ middle holds reached
  obtain ⟨disk, _, level, step', here, memory⟩ := reached
  obtain rfl := Option.some.inj (found.symm.trans here)
  have steps : middle.memory.steps = state.memory.steps.set index { step with state := .intent } := by
    rw [memory]
    rfl
  have phase : middle.memory.phase = .applying := by
    rw [memory]
    exact ready.phase
  have sheltered : Sheltered middle.memory.steps := by
    rw [steps]
    exact forall_mem_set ready.sheltered (ready.sheltered step member)
  have intact' : ∀ step ∈ middle.memory.steps, step.Intact middle.disk := by
    rw [steps, disk]
    exact forall_mem_set intact (intact step member)
  have moved : middle.memory.steps[index]? = some { step with state := .intent } := by
    rw [steps]
    exact List.getElem?_set_self within
  refine .bind (fun _ final => final = middle) ((does_ensureLiveOld holds).mono
    (fun _ _ _ same => same) fun _ _ _ same => same ▸ phase) ?_
  intro _ middle' _ same
  subst same
  refine .bind (fun _ final => final = middle') (does_bindTarget holds rfl phase) ?_
  intro _ middle' _ same
  subst same
  -- However the file is replaced, the step is then recorded as applied.
  have finish : ∀ change : FileChange, change.path = step.relPath
      → (∀ content, change.content middle'.disk = some content → content = .expected step.new)
      → Does (Kept base origin)
          (fun _ final => Ready final
            ∧ final.memory.steps = state.memory.steps.set index { step with state := .applied }
            ∧ ∀ step ∈ final.memory.steps, step.Intact final.disk)
          (fun final => final.memory.phase = .applying)
          (ask (.change change) >>= fun _ => advanceStep index .applied) middle' := by
    intro change named writes
    refine .bind (fun _ final => ∃ content, final = middle'.write change content) ?_ ?_
    · refine does_change (fun final alters => ?_) (fun content _ => ⟨content, rfl⟩) ?_
      · exact holds.replacing planned level phase (List.mem_of_getElem? moved) rfl named writes
          alters
      · intro final alters
        cases alters <;> exact phase
    intro _ replaced kept' written
    obtain ⟨content, rfl⟩ := written
    have intact'' : ∀ other ∈ middle'.memory.steps,
        other.Intact (Function.update middle'.disk change.path content) := by
      intro other among old was
      rw [named, Function.update_of_ne (backup_ne (ready.sheltered step member))]
      exact intact' other among old was
    have ended := does_advanceStep_kept index .applied kept' (by intro same; cases same)
      fun other here =>
        ⟨by rintro ⟨⟩, intact'' other (List.mem_of_getElem? here), sheltered⟩
    refine ended.mono ?_ fun _ _ _ reached => by rw [reached.2.2]; exact phase
    intro _ final _ reached
    obtain ⟨disk', _, level', step', here', memory'⟩ := reached
    obtain rfl := Option.some.inj (moved.symm.trans here')
    have steps' : final.memory.steps = state.memory.steps.set index { step with state := .applied } := by
      rw [memory']
      show (middle'.memory.steps.set index _) = _
      rw [steps, List.set_set]
    refine ⟨⟨level', by rw [memory']; exact phase, ?_⟩, steps', ?_⟩
    · rw [steps']
      exact forall_mem_set ready.sheltered (ready.sheltered step member)
    · have applied : ({ step with state := .applied } : JournalStep).Intact
          (Function.update middle'.disk change.path content) :=
        intact'' { step with state := .intent } (List.mem_of_getElem? moved)
      rw [memory', disk']
      exact forall_mem_set intact'' applied
  generalize state.memory.steps.set index { step with state := .applied } = reached at finish ⊢
  cases becomes : step.new with
  | none =>
      refine finish (.remove step.relPath) rfl fun content carried => ?_
      rw [← Option.some.inj carried, becomes]
      rfl
  | some identity =>
      refine finish (.installNew step.relPath identity) rfl fun content carried => ?_
      rw [← Option.some.inj carried, becomes]
      rfl

include planned in
/-- Replacing the files from an index on, by induction over the steps that are left. -/
theorem does_replaceAll_kept {index : Nat} {steps : List JournalStep}
    (kept : Kept base origin state) (ready : Ready state)
    (found : ∀ offset step, steps[offset]? = some step
      → state.memory.steps[index + offset]? = some step)
    (intact : ∀ step ∈ state.memory.steps, step.Intact state.disk)
    : Does (Kept base origin) (fun _ final => Ready final)
        (fun final => final.memory.phase = .applying) (replaceAll index steps) state := by
  induction steps generalizing index state with
  | nil => exact .pure kept ready
  | cons step rest ih =>
      refine .bind _ (does_replaceStep_kept planned kept ready (found 0 step rfl) intact) ?_
      intro _ final holds reached
      obtain ⟨ready', steps', intact'⟩ := reached
      refine ih holds ready' ?_ intact'
      intro offset other here
      rw [steps', List.getElem?_set_ne (by omega), Nat.add_assoc, Nat.add_comm 1]
      exact found (offset + 1) other here

include planned in
/-- Running the steps ends with every file new, or fails while still applying. -/
theorem does_runSteps_kept (kept : Kept base origin state) (ready : Ready state)
    (fresh : ∀ step ∈ state.memory.steps, step.hasIntent = false)
    : Does (Kept base origin) (fun _ final => AllNew final.disk base.steps)
        (fun final => final.memory.phase = .applying) runSteps state := by
  have planned' := planned.of_samePlan kept.sound.memory.plan
  refine does_bindCurrent kept ?_
  have backing := does_backupAll_kept planned kept ready fresh (fun _ member => member)
    (List.nodup_append.mp planned'.distinct).1
  refine .bind _ (backing.mono (fun _ _ _ reached => reached) fun _ _ _ same => by
    rw [same]; exact ready.phase) ?_
  intro _ backed holds reached
  obtain ⟨ready', memory, intact, _⟩ := reached
  refine .bind _ (does_replaceAll_kept planned holds ready' ?_ (by rw [memory]; exact intact)) ?_
  · intro offset step here
    rw [memory, Nat.zero_add]
    exact here
  intro _ replaced holds' ready''
  refine .bind _ ((does_checkNew holds').mono (fun _ _ _ reached => reached)
    fun _ _ _ same => same ▸ ready''.phase) ?_
  intro _ checked holds'' reached
  obtain ⟨rfl, new, _⟩ := reached
  have new' : AllNew checked.disk checked.memory.steps :=
    (allNew_of_samePlan (kept.sound.memory.plan.symm.trans holds''.sound.memory.plan)).mpr new
  refine (does_advancePhase_kept .awaitingHealth holds'' (fun _ => new') nofun nofun).mono ?_
    fun _ _ _ reached => reached.2.2 ▸ ready''.phase
  intro _ final _ reached
  rw [reached.1]
  exact (allNew_of_samePlan kept.sound.memory.plan).mp new

/-- What an outcome of applying leaves behind. -/
def ApplyOutcome.Leaves (base : UpdateJournal) (final : UpdateState) : ApplyOutcome → Prop
  | awaitingHealth => AllNew final.disk base.steps
  | rolledBack _ => AllOld final.disk base.steps
  | recoveryRequired _ => Excused final

include planned in
/-- Applying keeps its promise: nothing is touched before the checks have passed, and a failed
run of the steps is recovered from.
-/
theorem does_apply_kept (kept : Kept base origin state)
    : Does (Kept base origin) (fun outcome final => outcome.Leaves base final) (fun _ => True)
        apply state := by
  refine .bind (fun _ final => final = state) (does_hasExited kept (fun _ => rfl) trivial) ?_
  intro exited state' _ same
  subst same
  refine .ite (fun _ => ⟨kept, trivial⟩) fun _ => ?_
  refine does_bindCurrent kept ?_
  refine .ite (fun _ => ⟨kept, trivial⟩) fun prepared => ?_
  have prepared : state'.memory.phase = .prepared := not_not.mp prepared
  have fresh := kept.sound.memory.fits.fresh (.inl prepared)
  refine .bind _ ((does_checkInstalled kept).mono (fun _ _ _ reached => reached)
    fun _ _ _ _ => trivial) ?_
  intro _ state' _ reached
  obtain ⟨rfl, sheltered⟩ := reached
  have authorize := does_advancePhase_kept .exitAuthorized kept nofun nofun nofun
  refine .bind _ (authorize.mono (fun _ _ _ reached => reached) fun _ _ _ _ => trivial) ?_
  intro _ authorized holds reached
  obtain ⟨_, _, _, memory⟩ := reached
  have begin' := does_advancePhase_kept .applying holds nofun nofun nofun
  refine .bind _ (begin'.mono (fun _ _ _ reached => reached) fun _ _ _ _ => trivial) ?_
  intro _ applying holds' reached
  obtain ⟨_, _, level, memory'⟩ := reached
  have steps : applying.memory.steps = state'.memory.steps := by
    rw [memory', memory]
    rfl
  have ready : Ready applying :=
    ⟨level, by rw [memory']; rfl, by rw [steps]; exact sheltered⟩
  refine .bind (Program.byOutcome _ fun _ => _)
    (does_caught (does_runSteps_kept planned holds' ready (by rw [steps]; exact fresh))) ?_
  intro outcome final holds'' reached
  cases outcome with
  | ok value => exact .pure holds'' reached
  | error err =>
      refine .bind _ (does_recover_kept planned holds'') ?_
      intro outcome last kept' promised
      refine .pure kept' ?_
      cases outcome with
      | nothing => exact promised.elim
      | keptNew =>
          have impossible : final.memory.phase = .applying := reached
          rw [promised.2] at impossible
          cases impossible
      | keptOld | rolledBack | recoveryRequired why => exact promised

end Applying

-- Concluding

section Concluding

variable {base : UpdateJournal} (planned : WellPlanned base.steps base.unchanged)
variable {origin state : UpdateState}

def HealthOutcome.Leaves (base : UpdateJournal) (final : UpdateState) : HealthOutcome → Prop
  | committed => AllNew final.disk base.steps
  | rolledBack => AllOld final.disk base.steps
  | recoveryRequired _ => Excused final

include planned in
theorem does_recoverHealth_kept (kept : Kept base origin state)
    (awaiting : state.memory.phase = .awaitingHealth)
    : Does (Kept base origin) (fun outcome final => outcome.Leaves base final) (fun _ => True)
        recoverHealth state := by
  refine .bind _ (does_recover_kept planned kept) ?_
  intro outcome final holds left
  refine .pure holds ?_
  cases outcome with
  | nothing => exact left.elim
  | keptNew =>
      have impossible := left.2
      rw [awaiting] at impossible
      cases impossible
  | keptOld | rolledBack | recoveryRequired why => exact left

/-- The attempt to commit ends with the commit, or gives up because the child goes on, or leaves
the decision to a recovery.
-/
theorem does_tryCommit_kept (kept : Kept base origin state)
    (awaiting : state.memory.phase = .awaitingHealth)
    : Does (Kept base origin)
        (fun outcome final => match outcome with
          | some outcome => outcome.Leaves base final
          | none => final.memory.phase = .awaitingHealth)
        (fun _ => True) tryCommit state := by
  refine .bind (Program.byOutcome _ fun _ => _) (does_caught (does_verifyBeforeCommit kept)) ?_
  intro checked final holds reached
  cases checked with
  | ok value =>
      obtain ⟨rfl, new, _⟩ := reached
      have commit := does_advancePhase_kept .committed holds nofun nofun nofun
      refine .bind (Program.byOutcome _ fun _ => _) (does_caught commit) ?_
      intro outcome last kept' reached
      cases outcome with
      | ok value =>
          refine .pure kept' ?_
          show AllNew last.disk base.steps
          rw [reached.1]
          exact (allNew_of_samePlan holds.sound.memory.plan).mp new
      | error err =>
          refine .pure kept' ?_
          show last.memory.phase = .awaitingHealth
          rw [reached.2.2, awaiting]
  | error err =>
      have same : final = state := reached
      subst same
      refine .bind (fun stopped last => last.memory.phase = .awaitingHealth
        ∧ (stopped ≠ .ok () → Excused last)) ?_ ?_
      · refine does_stopChild holds ⟨holds.note _, awaiting, fun differs => absurd rfl differs⟩
          ⟨holds.note _, fun _ => ⟨awaiting, fun _ => ?_⟩⟩
        exact ⟨_, List.mem_cons_self, .inr rfl⟩
      · intro stopped last kept' reached
        obtain ⟨phase, excused⟩ := reached
        cases stopped with
        | ok value => exact .pure kept' phase
        | error stop =>
            refine .bind (fun outcome last => outcome.Leaves base last) ?_
              fun _ _ holds left => .pure holds left
            refine .bind _ (does_require_kept kept' (excused nofun)) ?_
            intro outcome last holds required
            obtain ⟨rfl, still⟩ := required
            exact .pure holds still

include planned in
theorem does_concludeHealth_kept {healthy : Bool} (kept : Kept base origin state)
    : Does (Kept base origin) (fun outcome final => outcome.Leaves base final) (fun _ => True)
        (concludeHealth healthy) state := by
  refine does_bindCurrent kept ?_
  refine .ite (fun _ => ⟨kept, trivial⟩) fun awaiting => ?_
  have awaiting : state.memory.phase = .awaitingHealth := not_not.mp awaiting
  refine .ite (fun _ => ?_) fun _ => does_recoverHealth_kept planned kept awaiting
  refine .bind (fun _ final => final.memory.phase = .awaitingHealth) ?_ ?_
  · exact does_verifyPlacement kept awaiting ⟨kept.note _, fun _ => awaiting⟩
  intro placed placing holds phase
  cases placed with
  | error err => exact does_recoverHealth_kept planned holds phase
  | ok value =>
      refine .bind _ (does_tryCommit_kept holds phase) ?_
      intro outcome final kept' reached
      cases outcome with
      | none => exact does_recoverHealth_kept planned kept' reached
      | some outcome => exact .pure kept' reached

end Concluding

-- Whole updates

/-- One run of one of the engine's programs, finished or stopped, or a restart from the stored
journal.
-/
inductive UpdateStep : UpdateState → UpdateState → Prop where
  | apply {state final : UpdateState} {ending : Ending (Except UpdateError ApplyOutcome)}
      (runs : Program.Runs updateOutside apply.run state ending final)
      : UpdateStep state final
  | concludeHealth {state final : UpdateState} {healthy : Bool}
      {ending : Ending (Except UpdateError HealthOutcome)}
      (runs : Program.Runs updateOutside (concludeHealth healthy).run state ending final)
      : UpdateStep state final
  | recover {state final : UpdateState} {ending : Ending (Except UpdateError RecoveryOutcome)}
      (runs : Program.Runs updateOutside recover.run state ending final)
      : UpdateStep state final
  | reopen {state : UpdateState} {stored : UpdateJournal} (found : state.stored = some stored)
      : UpdateStep state (state.remembering stored)

section Running

variable {base : UpdateJournal} (planned : WellPlanned base.steps base.unchanged)
variable {origin state final : UpdateState}

include planned in
/-- Every step keeps the invariant and an update that is over, by cases on the step. -/
theorem Kept.step (kept : Kept base origin state) (step : UpdateStep state final)
    : Kept base origin final := by
  cases step with
  | apply runs => exact ((does_apply_kept planned kept).sound runs).1
  | concludeHealth runs => exact ((does_concludeHealth_kept planned kept).sound runs).1
  | recover runs => exact ((does_recover_kept planned kept).sound runs).1
  | reopen found =>
      obtain ⟨stored, found', holds, _⟩ := kept.sound.stored
      obtain rfl := Option.some.inj (found'.symm.trans found)
      have same : Holds base stored (state.remembering stored) :=
        ⟨holds.plan, holds.fits, holds.excused⟩
      exact ⟨⟨same, _, found, same, .inl rfl⟩, kept.ended⟩

include planned in
/-- And so does every sequence of steps, by induction over it. -/
theorem Kept.steps (kept : Kept base origin state)
    (steps : Relation.ReflTransGen UpdateStep state final)
    : Kept base origin final := by
  induction steps with
  | refl => exact kept
  | tail _ step ih => exact ih.step planned step

theorem Sound.kept (sound : Sound base state) : Kept base state state :=
  ⟨sound, fun _ => ⟨rfl, rfl⟩⟩

end Running

-- Every update from a begun journal

/-- The stored journal records that the file of a step is being replaced or put back. -/
def InReplacement (state : UpdateState) (step : JournalStep) : Prop :=
  ∃ stored, state.stored = some stored ∧ ∃ now ∈ stored.steps, now.relPath = step.relPath
    ∧ (now.state = .intent ∨ now.state = .applied)

theorem UpdateJournal.begin_ok {Json : Type} {crates : Crates Json}
    {serialize : ApplyPlan → Except String (List UInt8)} {plan : ApplyPlan} {ticket : Option String}
    {journal : UpdateJournal} (begun : UpdateJournal.begin crates serialize plan ticket = .ok journal)
    : journal.validate crates = .ok () ∧ journal.phase = .prepared
      ∧ ∀ step ∈ journal.steps, step.hasIntent = false := by
  simp only [UpdateJournal.begin, except_bind_ok_iff] at begun
  obtain ⟨_, _, _, valid, same⟩ := begun
  cases same
  refine ⟨valid, rfl, ?_⟩
  intro step member
  obtain ⟨_, _, rfl⟩ := List.mem_map.mp member
  rfl

theorem sound_of_begun {Json : Type} {crates : Crates Json}
    {serialize : ApplyPlan → Except String (List UInt8)} {plan : ApplyPlan} {ticket : Option String}
    {journal : UpdateJournal}
    (begun : UpdateJournal.begin crates serialize plan ticket = .ok journal)
    {disk : String → Observed} (old : AllOld disk journal.steps)
    (unchanged : AllUnchanged disk journal.unchanged) {state : UpdateState}
    (reached : Relation.ReflTransGen UpdateStep ⟨disk, some journal, journal, []⟩ state)
    : WellPlanned journal.steps journal.unchanged ∧ Sound journal state := by
  obtain ⟨valid, phase, fresh⟩ := UpdateJournal.begin_ok begun
  have planned := WellPlanned.of_validate valid
  have holds : Holds journal journal ⟨disk, some journal, journal, []⟩ :=
    ⟨.refl journal, .of_fresh phase fresh old unchanged,
      fun given => by rw [phase] at given; cases given⟩
  have start : Sound journal ⟨disk, some journal, journal, []⟩ :=
    ⟨holds, journal, rfl, holds, .inl rfl⟩
  exact ⟨planned, (start.kept.steps planned reached).sound⟩

/-- From a begun journal over the old version, whatever is run in whatever order, with failing
calls, stops and restarts anywhere: every file is old, new, or absent while it is replaced; the
terminal phases and the outcomes say what the files are, and a recovery gives up only if the
placement was lost or the child could not be stopped before; an update that is over stays as it
is.
-/
theorem update_consistent {Json : Type} {crates : Crates Json}
    {serialize : ApplyPlan → Except String (List UInt8)} {plan : ApplyPlan} {ticket : Option String}
    {journal : UpdateJournal} (begun : UpdateJournal.begin crates serialize plan ticket = .ok journal)
    {disk : String → Observed} (old : AllOld disk journal.steps)
    (unchanged : AllUnchanged disk journal.unchanged) {state : UpdateState}
    (reached : Relation.ReflTransGen UpdateStep ⟨disk, some journal, journal, []⟩ state)
    : (∀ step ∈ journal.steps, state.disk step.relPath = .expected step.old
          ∨ state.disk step.relPath = .expected step.new
          ∨ state.disk step.relPath = .missing ∧ InReplacement state step)
      ∧ (∃ stored, state.stored = some stored
        ∧ (stored.phase = .rolledBack → AllOld state.disk journal.steps)
        ∧ (stored.phase = .committed → AllNew state.disk journal.steps)
        ∧ (stored.phase = .recoveryRequired → Excused state))
      ∧ (∀ outcome final,
        Program.Runs updateOutside apply.run state (.finished (.ok outcome)) final
          → outcome.Leaves journal final)
      ∧ (∀ healthy outcome final,
        Program.Runs updateOutside (concludeHealth healthy).run state (.finished (.ok outcome)) final
          → outcome.Leaves journal final)
      ∧ (∀ outcome final,
        Program.Runs updateOutside recover.run state (.finished (.ok outcome)) final
          → outcome.Leaves journal state.memory.phase final)
      ∧ (state.Over → ∀ later, Relation.ReflTransGen UpdateStep state later
        → later.stored = state.stored ∧ later.disk = state.disk) := by
  obtain ⟨planned, sound⟩ := sound_of_begun begun old unchanged reached
  obtain ⟨stored, found, holds, _⟩ := sound.stored
  refine ⟨?_, ⟨stored, found, ?_, ?_, holds.excused⟩, ?_, ?_, ?_, ?_⟩
  · intro step member
    obtain ⟨now, among, plan⟩ := holds.plan.symm.origin member
    injection plan with relPath was becomes _
    have mixed := holds.fits.mixed now among
    rw [relPath, was, becomes] at mixed
    by_cases settled : now.isSettled = true
    · left
      rw [← relPath, ← was]
      exact holds.fits.settled now among settled
    · have progress := now.progress_of_unsettled (by simpa using settled)
      exact mixed.imp id (Or.imp id fun absent => ⟨absent, stored, found, now, among, relPath,
        progress⟩)
  · exact fun ended => (allOld_of_samePlan holds.plan).mp (holds.fits.old ended)
  · exact fun ended => (allNew_of_samePlan holds.plan).mp (holds.fits.new (.inr ended))
  · exact fun outcome final runs =>
      ((does_apply_kept planned sound.kept).sound runs).2 outcome rfl
  · exact fun healthy outcome final runs =>
      ((does_concludeHealth_kept planned sound.kept).sound runs).2 outcome rfl
  · exact fun outcome final runs =>
      ((does_recover_kept planned sound.kept).sound runs).2 outcome rfl
  · exact fun ended later steps => (sound.kept.steps planned steps).ended ended

-- One update

def samplePlan : ApplyPlan where
  installId := "fedcba9876543210fedcba9876543210"
  transactionId := "0123456789abcdef0123456789abcdef"
  source := sampleRelease "0.29.0"
  destination := sampleRelease "0.30.0"
  steps := [⟨"hane.exe", some sampleOld, some sampleNew, some "backup/hane.exe"⟩]
  unchanged := []

def samplePlanBytes : List UInt8 :=
  asBytes ("\x7b\"install_id\":\"fedcba9876543210fedcba9876543210\",\"transaction_id\":\"01234"
    ++ "56789abcdef0123456789abcdef\",\"source\":\x7b\"target\":\"x86_64-pc-windows-msvc\""
    ++ ",\"version\":\"0.29.0\"\x7d,\"destination\":\x7b\"target\":\"x86_64-pc-windows-msv"
    ++ "c\",\"version\":\"0.30.0\"\x7d,\"steps\":[\x7b\"rel_path\":\"hane.exe\",\"old\":"
    ++ "\x7b\"size\":3,\"sha256\":\"111111111111111111111111111111111111111111111111111111"
    ++ "1111111111\"\x7d,\"new\":\x7b\"size\":4,\"sha256\":\"22222222222222222222222222222"
    ++ "22222222222222222222222222222222222\"\x7d,\"backup_rel\":\"backup/hane.exe\"\x7d]"
    ++ "\x7d")

def samplePlanJson (plan : ApplyPlan) : Except String (List UInt8) :=
  if plan = samplePlan then .ok samplePlanBytes else .error "unknown plan"

/-- The linked crates with the real SHA-256 of that JSON. -/
def samplePlanCrates : Crates (CatalogDocument ⊕ SignatureFile) :=
  { sampleCrates with
    digest := fun bytes =>
      if bytes = samplePlanBytes then
        [121, 241, 150, 24, 114, 228, 252, 1, 57, 211, 182, 15, 42, 96, 23, 0, 12, 91,
        197, 162, 208, 16, 71, 70, 66, 101, 224, 254, 2, 222, 11, 254]
      else sampleCrates.digest bytes }

def begunJournal : UpdateJournal :=
  { sampleJournal with
    planHash := "79f1961872e4fc0139d3b60f2a6017000c5bc5a2d01047464265e0fe02de0bfe"
    phase := .prepared
    steps := [⟨"hane.exe", some sampleOld, some sampleNew, some "backup/hane.exe", .planned⟩]
    generation := 0 }

def begunState : UpdateState :=
  ⟨diskOf [("hane.exe", sampleOld)], some begunJournal, begunJournal, []⟩

theorem begunJournal_begun
    : UpdateJournal.begin samplePlanCrates samplePlanJson samplePlan none = .ok begunJournal := by
  decide +kernel

theorem begunState_old : AllOld begunState.disk begunJournal.steps := by
  intro step member
  obtain rfl := List.mem_singleton.mp member
  decide

/-- Applying that plan without a failure replaces the file. -/
theorem update_consistent_applied
    : AllNew (Program.run succeeding apply.run begunState).2.disk begunJournal.steps := by
  have unchanged : AllUnchanged begunState.disk begunJournal.unchanged := List.forall_mem_nil _
  have runs := Program.runs_run succeeding_allowed apply.run begunState
  exact (update_consistent begunJournal_begun begunState_old unchanged .refl).2.2.1 .awaitingHealth _ runs

def losing (state : UpdateState) : (call : UpdateCall) → call.Answer × UpdateState
  | .verifyPlacement => (.error ⟨.io, "the placement moved"⟩, state.note .placementLost)
  | call => succeeding state call

theorem losing_allowed (state : UpdateState) (call : UpdateCall)
    : updateOutside.answers state call (losing state call).1 (losing state call).2 := by
  cases call with
  | verifyPlacement => exact .notPlaced state ⟨.io, "the placement moved"⟩
  | _ => exact succeeding_allowed state _

/-- A recovery right after that journal was begun gives up when the placement check fails. -/
theorem recover_gives_up
    : UpdateJournal.begin samplePlanCrates samplePlanJson samplePlan none = .ok begunJournal
      ∧ AllOld begunState.disk begunJournal.steps
      ∧ AllUnchanged begunState.disk begunJournal.unchanged
      ∧ ∃ why final, Program.Runs updateOutside recover.run begunState
        (.finished (.ok (.recoveryRequired why))) final :=
  ⟨begunJournal_begun, begunState_old, List.forall_mem_nil _, _, _,
    Program.runs_run losing_allowed recover.run begunState⟩

end Hane.Update
