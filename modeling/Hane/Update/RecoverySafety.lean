import Hane.Update.Engine
import Mathlib.Data.List.Nodup

/-! Recovery from any stored journal and any disk: what it writes, and what its outcomes say. -/

namespace Hane.Update

open Hane.Foundations

-- Justified writes

def RollbackAction.change : RollbackAction → FileChange
  | restoreFromBackup relPath backupRel restore _ => .restore relPath backupRel restore
  | removeAdded relPath _ => .remove relPath

def JournalStep.hasIntent (step : JournalStep) : Bool := step.state ≠ .planned

/-- A write is justified when the decision on the disk at the start called for it, the step
has a recorded intent, and the disk right before the write still is what the decision recorded.
-/
def Justified (journal : UpdateJournal) (start : String → Observed) (change : FileChange)
    (before : String → Observed) : Prop :=
  ∃ actions, actionsOn start journal.steps = .ok actions
    ∧ ∃ action ∈ actions, change = action.change
    ∧ ∃ step ∈ journal.steps, undoOn start step = some action ∧ step.hasIntent = true
      ∧ Undoes before step action

/-- The invariant of a recovery: only justified writes so far, and a journal in memory that
differs from the stored one in phases and in steps that were put back.
-/
structure Cautious (journal : UpdateJournal) (start : String → Observed) (state : UpdateState)
    : Prop where
  plan : SamePlan journal state.memory
  intents : state.memory.steps.map JournalStep.hasIntent = journal.steps.map JournalStep.hasIntent
  writes : ∀ change before, Event.wrote change before ∈ state.events
    → Justified journal start change before

section Recovery

variable {journal : UpdateJournal} {start : String → Observed} {state : UpdateState}
variable {failed : UpdateState → Prop}

theorem Cautious.storing (cautious : Cautious journal start state) (stored : UpdateJournal)
    : Cautious journal start (state.storing stored) :=
  ⟨cautious.plan, cautious.intents, cautious.writes⟩

theorem Cautious.note (cautious : Cautious journal start state) {event : Event}
    (silent : ∀ change before, event ≠ .wrote change before)
    : Cautious journal start (state.note event) := by
  refine ⟨cautious.plan, cautious.intents, ?_⟩
  intro change before member
  rcases List.mem_cons.mp member with same | earlier
  · exact absurd same.symm (silent change before)
  · exact cautious.writes change before earlier

/-- A phase transition of the memory keeps the invariant. -/
theorem Cautious.moved (cautious : Cautious journal start state) {phase : Phase}
    {next : UpdateJournal} (moved : state.memory.transition phase = .ok next)
    : Cautious journal start ((state.storing (next.after state.memory)).remembering
        (next.after state.memory)) := by
  have same := SamePlan.of_transition moved
  obtain ⟨_, rfl⟩ := UpdateJournal.transition_ok moved
  refine ⟨cautious.plan.trans ⟨same.transaction, same.unchanged, same.steps⟩, cautious.intents,
    cautious.writes⟩

/-- A step is put back only from a recorded intent, so the recorded intents stay. -/
theorem Cautious.restored (cautious : Cautious journal start state) {index : Nat}
    {next : UpdateJournal} (moved : state.memory.setStep index .restored = .ok next)
    : Cautious journal start ((state.storing (next.after state.memory)).remembering
        (next.after state.memory)) := by
  have same := SamePlan.of_setStep moved
  obtain ⟨_, step, found, allowed, rfl⟩ := UpdateJournal.setStep_ok moved
  refine ⟨cautious.plan.trans ⟨same.transaction, same.unchanged, same.steps⟩, ?_,
    cautious.writes⟩
  have intent : step.hasIntent = true := by
    cases kind : step.state <;> simp_all [StepState.mayFollow, JournalStep.hasIntent]
  refine Eq.trans (map_set_self found ?_) cautious.intents
  rw [intent]
  rfl

/-- Advancing the phase keeps the invariant, the disk and the events. -/
theorem does_advancePhase_cautious {phase : Phase} (cautious : Cautious journal start state)
    : Does (Cautious journal start)
        (fun _ final => final.disk = state.disk ∧ final.events = state.events)
        (fun final => final.disk = state.disk ∧ final.events = state.events)
        (advancePhase phase) state := by
  refine does_advancePhase cautious ⟨rfl, rfl⟩ ?_
  intro next moved _
  exact ⟨cautious.storing _, ⟨rfl, rfl⟩, cautious.moved moved, rfl, rfl⟩

/-- Giving up says so, and keeps the disk. -/
theorem does_require_cautious {why : String} (cautious : Cautious journal start state)
    : Does (Cautious journal start)
        (fun outcome final => outcome = .recoveryRequired why ∧ final.disk = state.disk)
        failed (require why) state := by
  refine .bind (fun _ final => final.disk = state.disk) ?_ ?_
  · refine (does_caught (does_advancePhase_cautious cautious)).mono ?_ (fun _ _ _ whatever => whatever)
    intro outcome final _ reached
    cases outcome with
    | ok value => exact reached.1
    | error err => exact reached.1
  · intro _ final holds same
    exact .pure holds ⟨rfl, same⟩

/-- However far a justified write came, it is the only new event. -/
theorem Cautious.alters (cautious : Cautious journal start state) {change : FileChange}
    (justified : Justified journal start change state.disk) {final : UpdateState}
    (alters : Alters state change final)
    : Cautious journal start final := by
  cases alters with
  | untouched => exact cautious
  | written _ | absent _ =>
      refine ⟨cautious.plan, cautious.intents, ?_⟩
      intro other before member
      rcases List.mem_cons.mp member with same | earlier
      · cases same
        exact justified
      · exact cautious.writes other before earlier

theorem checkStepState_ok {journal : UpdateJournal} {relPath : String} {index : Nat}
    {progress : StepState} (checked : checkStepState journal relPath = .ok (index, progress))
    : ∃ step, journal.steps[index]? = some step ∧ step.relPath = relPath
      ∧ step.state = progress ∧ progress ≠ .planned := by
  unfold checkStepState at checked
  split at checked
  · cases checked
  · rename_i place located
    split at checked
    · cases checked
    · rename_i step found
      split at checked
      · cases checked
      · rename_i intent
        cases checked
        obtain ⟨within, named, _⟩ := List.findIdx?_eq_some_iff_getElem.mp located
        obtain ⟨_, there⟩ := List.getElem?_eq_some_iff.mp found
        refine ⟨step, found, ?_, rfl, intent⟩
        simpa [there] using named

theorem Undoes.relPath {disk : String → Observed} {step : JournalStep} {action : RollbackAction}
    (undoes : Undoes disk step action)
    : action.relPath = step.relPath := by
  cases undoes <;> rfl

theorem Cautious.hasIntent (cautious : Cautious journal start state)
    (distinct : (journal.steps.map JournalStep.relPath).Nodup) {step : JournalStep}
    (member : step ∈ journal.steps) {index : Nat} {progress : StepState}
    (checked : checkStepState state.memory step.relPath = .ok (index, progress))
    : step.hasIntent = true := by
  obtain ⟨found, at_index, named, state, intent⟩ := checkStepState_ok checked
  obtain ⟨origin, there, planned⟩ := map_lookup cautious.plan.steps at_index
  obtain ⟨origin', there', recorded⟩ := map_lookup cautious.intents at_index
  obtain rfl := Option.some.inj (there.symm.trans there')
  have same : origin = step := by
    refine List.inj_on_of_nodup_map distinct (List.mem_of_getElem? there) member ?_
    exact (congrArg PlanStep.relPath planned).symm.trans named
  rw [← same, ← recorded]
  simpa [JournalStep.hasIntent, state] using intent

/-- One action changes its file only while the disk is as the decision recorded it, by cases
on the action.
-/
theorem does_changeBack_cautious {step : JournalStep} {action : RollbackAction}
    (cautious : Cautious journal start state) (undoes : Undoes start step action)
    (justified : Undoes state.disk step action
      → Justified journal start action.change state.disk)
    : Does (Cautious journal start) (fun _ _ => True) (fun _ => True) (changeBack action)
        state := by
  cases undoes with
  | @restore old backupRel expected was backed intact present named =>
      refine .bind _ (sees cautious trivial step.relPath) ?_
      rintro observed state _ ⟨rfl, rfl⟩
      refine .ite (fun _ => .pure cautious trivial) fun same => ?_
      refine .bind _ (sees cautious trivial backupRel) ?_
      rintro observed state _ ⟨rfl, rfl⟩
      refine .ite (fun _ => .pure cautious trivial) fun intact => ?_
      refine .bind (fun _ final => final = state) (does_bindTarget cautious rfl trivial) ?_
      rintro _ state _ rfl
      have undoes : Undoes state.disk step (.restoreFromBackup step.relPath backupRel old expected) :=
        .restore was backed (by simpa using intact)
          ((identityMatches_iff _ _).mp (by simpa using same)) named
      refine .bind (fun _ _ => True) ?_ fun _ final holds _ => .pure holds trivial
      exact does_change (fun final alters => cautious.alters (justified undoes) alters)
        (fun _ _ => trivial) fun _ _ => trivial
  | @remove added was becomes present =>
      refine .bind _ (sees cautious trivial step.relPath) ?_
      rintro observed state _ ⟨rfl, rfl⟩
      refine .ite (fun _ => .pure cautious trivial) fun same => ?_
      refine .bind (fun _ final => final = state) (does_bindTarget cautious rfl trivial) ?_
      rintro _ state _ rfl
      have undoes : Undoes state.disk step (.removeAdded step.relPath added) :=
        .remove was becomes (by simpa using same)
      refine .bind (fun _ _ => True) ?_ fun _ final holds _ => .pure holds trivial
      exact does_change (fun final alters => cautious.alters (justified undoes) alters)
        (fun _ _ => trivial) fun _ _ => trivial

section Deciding

variable (distinct : (journal.steps.map JournalStep.relPath).Nodup)
variable {actions : List RollbackAction} (decided : actionsOn start journal.steps = .ok actions)

include distinct decided in
theorem does_perform_cautious {action : RollbackAction} (member : action ∈ actions)
    (cautious : Cautious journal start state)
    : Does (Cautious journal start) (fun _ _ => True) (fun _ => True) (perform action) state := by
  obtain ⟨_, listed⟩ := actionsOn_ok.mp decided
  obtain ⟨step, among, undo⟩ := List.mem_filterMap.mp (listed ▸ member)
  have undoes := (undoOn_undoes undo).1
  refine does_bindCurrent cautious ?_
  rcases checked : checkStepState state.memory action.relPath with why | ⟨index, progress⟩
  · exact .pure cautious trivial
  · have intent : step.hasIntent = true :=
      cautious.hasIntent distinct among (undoes.relPath ▸ checked)
    refine .bind (fun _ _ => True) (does_changeBack_cautious cautious undoes fun now =>
      ⟨actions, decided, action, member, rfl, step, among, undo, intent, now⟩) ?_
    intro stopped final holds _
    cases stopped with
    | some why => exact .pure holds trivial
    | none =>
        refine .ite (fun _ => ?_) fun _ => .pure holds trivial
        refine .bind (fun _ _ => True) ?_ fun _ last kept _ => .pure kept trivial
        refine does_advanceStep holds trivial ?_
        intro next moved _
        exact ⟨holds.storing _, trivial, holds.restored moved, trivial⟩

include distinct decided in
/-- Any of the decided actions in any order, by induction over the list. -/
theorem does_performAll_cautious {performed : List RollbackAction}
    (among : ∀ action ∈ performed, action ∈ actions) (cautious : Cautious journal start state)
    : Does (Cautious journal start) (fun _ _ => True) (fun _ => True) (performAll performed)
        state := by
  induction performed generalizing state with
  | nil => exact .pure cautious trivial
  | cons action rest ih =>
      obtain ⟨first, others⟩ := List.forall_mem_cons.mp among
      refine .bind _ (does_perform_cautious distinct decided first cautious) ?_
      intro stopped final holds _
      cases stopped with
      | some why => exact .pure holds trivial
      | none => exact ih others holds

end Deciding

/-- What a recovery outcome says about the disk. -/
def RecoveryOutcome.Means (journal : UpdateJournal) (disk : String → Observed)
    : RecoveryOutcome → Prop
  | nothing => False
  | keptOld | rolledBack => AllOld disk journal.steps ∧ AllUnchanged disk journal.unchanged
  | keptNew => AllNew disk journal.steps ∧ AllUnchanged disk journal.unchanged
  | recoveryRequired _ => True

theorem does_giveUp_cautious {why : String} (cautious : Cautious journal start state)
    : Does (Cautious journal start) (fun outcome final => outcome.Means journal final.disk) failed
        (require why) state := by
  refine (does_require_cautious cautious).mono ?_ fun _ _ _ fails => fails
  rintro outcome final _ ⟨rfl, _⟩
  trivial

/-- Writing back ends in `RolledBack` only after the decision was taken again on the new disk. -/
theorem does_writeBack_cautious {actions : List RollbackAction}
    (distinct : (journal.steps.map JournalStep.relPath).Nodup)
    (decided : actionsOn start journal.steps = .ok actions)
    (cautious : Cautious journal start state)
    : Does (Cautious journal start) (fun outcome final => outcome.Means journal final.disk)
        (fun _ => True) (writeBack actions) state := by
  refine does_bindCurrent cautious ?_
  cases firstRefused state.memory actions with
  | some why => exact does_giveUp_cautious cautious
  | none =>
      refine .bind _ (does_performAll_cautious distinct decided
        (fun action member => List.mem_reverse.mp member) cautious) ?_
      intro stopped final holds _
      cases stopped with
      | some why => exact does_giveUp_cautious holds
      | none =>
          refine does_bindCurrent holds ?_
          refine does_bindDecision holds trivial ?_
          refine .ite ?_ fun _ => does_giveUp_cautious holds
          intro kept
          have means := decideOn_means final.disk final.memory
          rw [kept] at means
          have old : AllOld final.disk journal.steps ∧ AllUnchanged final.disk journal.unchanged :=
            ⟨(allOld_of_samePlan holds.plan).mp means.1, holds.plan.unchanged ▸ means.2⟩
          refine .bind (fun _ last => last.disk = final.disk)
            ((does_advancePhase_cautious holds).mono (fun _ _ _ same => same.1)
              fun _ _ _ _ => trivial) ?_
          intro _ last kept same
          refine .pure kept ?_
          show AllOld last.disk journal.steps ∧ AllUnchanged last.disk journal.unchanged
          rw [same]
          exact old

theorem does_rollBack_cautious {actions : List RollbackAction}
    (distinct : (journal.steps.map JournalStep.relPath).Nodup)
    (decided : actionsOn start journal.steps = .ok actions)
    (cautious : Cautious journal start state)
    : Does (Cautious journal start) (fun outcome final => outcome.Means journal final.disk)
        (fun _ => True) (rollBack actions) state := by
  refine .bind (fun _ _ => True) ?_ ?_
  · refine does_bindCurrent cautious ?_
    cases state.memory.phase with
    | applying | awaitingHealth =>
        refine .bind (fun _ _ => True) ((does_advancePhase_cautious cautious).mono
          (fun _ _ _ _ => trivial) fun _ _ _ _ => trivial) ?_
        exact fun _ _ holds _ => .pure holds trivial
    | _ => exact .pure cautious trivial
  · intro refused final holds _
    cases refused with
    | some why => exact does_giveUp_cautious holds
    | none => exact does_writeBack_cautious distinct decided holds

/-- Settling an old install moves the phase only. -/
theorem does_settleOld_cautious (cautious : Cautious journal start state)
    : Does (Cautious journal start) (fun _ final => final.disk = state.disk) (fun _ => True)
        settleOld state := by
  have advance : ∀ {phase : Phase} {state : UpdateState}, Cautious journal start state
      → Does (Cautious journal start) (fun _ final => final.disk = state.disk) (fun _ => True)
          (advancePhase phase) state :=
    fun cautious => (does_advancePhase_cautious cautious).mono (fun _ _ _ same => same.1)
      fun _ _ _ _ => trivial
  refine does_bindCurrent cautious ?_
  cases state.memory.phase with
  | prepared | exitAuthorized | rollingBack => exact advance cautious
  | applying | awaitingHealth =>
      refine .bind _ (advance cautious) ?_
      intro _ final holds same
      exact (advance holds).mono (fun _ last _ kept => kept.trans same) fun _ _ _ _ => trivial
  | rolledBack | committed | recoveryRequired => exact .pure cautious rfl

/-- Recovery from a stored journal, on the disk it finds, by cases on its decision. -/
theorem does_recover_cautious (distinct : (journal.steps.map JournalStep.relPath).Nodup)
    (opened : state.memory = journal) (silent : state.events = []) (found : state.disk = start)
    : Does (Cautious journal start) (fun outcome final => outcome.Means journal final.disk)
        (fun _ => True) recover state := by
  have cautious : Cautious journal start state := by
    refine ⟨opened ▸ .refl journal, by rw [opened], ?_⟩
    simp [silent]
  refine .bind (fun placed final => Cautious journal start final
      ∧ (placed = .ok () → final = state)) ?_ ?_
  · exact does_verifyPlacement cautious ⟨cautious, fun _ => rfl⟩
      ⟨cautious.note fun _ _ => nofun, fun _ => ⟨cautious.note fun _ _ => nofun, nofun⟩⟩
  rintro placed final _ ⟨holds, unlost⟩
  cases placed with
  | error err =>
      refine .bind (fun _ last => Cautious journal start last) ?_ ?_
      · exact does_stopChild holds
          ⟨holds.note fun _ _ => nofun, holds.note fun _ _ => nofun⟩
          ⟨holds.note fun _ _ => nofun, fun _ => holds.note fun _ _ => nofun⟩
      · intro _ last kept _
        exact does_giveUp_cautious kept
  | ok placed =>
      obtain rfl := unlost rfl
      refine does_bindCurrent holds ?_
      refine does_bindDecision holds trivial ?_
      have means := decideOn_means final.disk final.memory
      rw [opened] at means ⊢
      generalize decideOn final.disk journal = decision at means ⊢
      cases decision with
      | noJournal => exact means.elim
      | keepNew => exact .pure holds means.2
      | recoveryRequired why => exact does_giveUp_cautious holds
      | keepOld =>
          refine .bind _ (does_settleOld_cautious holds) ?_
          intro _ last kept same
          refine .pure kept ?_
          show AllOld last.disk journal.steps ∧ AllUnchanged last.disk journal.unchanged
          rw [same]
          exact means
      | rollBack actions requireChildExit =>
          have decided : actionsOn start journal.steps = .ok actions := found ▸ means.2.2
          refine .ite ?_ fun _ => does_rollBack_cautious distinct decided holds
          intro _
          refine .bind (fun _ last => Cautious journal start last) ?_ ?_
          · exact does_stopChild holds
              ⟨holds.note fun _ _ => nofun, holds.note fun _ _ => nofun⟩
              ⟨holds.note fun _ _ => nofun, fun _ => holds.note fun _ _ => nofun⟩
          · intro stopped last kept _
            cases stopped with
            | error err => exact does_giveUp_cautious kept
            | ok value => exact does_rollBack_cautious distinct decided kept

end Recovery

-- Every run of a recovery

theorem UpdateJournal.distinct_of_validate {Json : Type} {crates : Crates Json}
    {journal : UpdateJournal} (valid : journal.validate crates = .ok ())
    : journal.ownedPaths.Nodup := by
  simp only [UpdateJournal.validate, except_bind_ok_iff, except_guard_ok_iff] at valid
  obtain ⟨_, _, _, _, _, _, _, _, _, _, _, distinct, _⟩ := valid
  exact List.Nodup.of_map _ (not_not.mp distinct)

theorem Justified.explicit {journal : UpdateJournal} {start before : String → Observed}
    {change : FileChange} (justified : Justified journal start change before)
    : ∃ step ∈ journal.steps, step.hasIntent = true ∧ change.path = step.relPath
      ∧ change.content before = some (.expected step.old)
      ∧ (before step.relPath = .expected step.new ∨ before step.relPath = .missing) := by
  obtain ⟨_, _, action, _, rfl, step, member, _, intent, undoes⟩ := justified
  refine ⟨step, member, intent, ?_⟩
  cases undoes with
  | restore was backed intact present named =>
      refine ⟨rfl, ?_, ?_⟩
      · simp [RollbackAction.change, FileChange.content, intact, was, Observed.expected]
      · rcases named with rfl | rfl
        · exact .inl present
        · exact .inr present
  | remove was becomes present =>
      refine ⟨rfl, ?_, .inl ?_⟩
      · simp [RollbackAction.change, FileChange.content, was, Observed.expected]
      · rw [present, becomes]
        rfl

/-- In every run of recover from a valid stored journal and any disk, failing and torn calls and
stops included: each write was decided on the disk as found, is to a step with a recorded
intent, finds the path as the decision recorded it and writes the journaled old content; with a
foreign step there is no write at all; and the outcome says what the disk is.
-/
theorem recover_safe {Json : Type} {crates : Crates Json} {journal : UpdateJournal}
    (valid : journal.validate crates = .ok ()) {start : String → Observed}
    {ending : Ending (Except UpdateError RecoveryOutcome)} {final : UpdateState}
    (runs : Program.Runs updateOutside recover.run ⟨start, some journal, journal, []⟩ ending final)
    : (∀ change before, Event.wrote change before ∈ final.events
        → Justified journal start change before
          ∧ ∃ step ∈ journal.steps, step.hasIntent = true ∧ change.path = step.relPath
            ∧ change.content before = some (.expected step.old)
            ∧ (before step.relPath = .expected step.new ∨ before step.relPath = .missing))
      ∧ ((∃ step ∈ journal.steps, Foreign start step)
        → ∀ change before, Event.wrote change before ∉ final.events)
      ∧ ∀ outcome, ending = .finished (.ok outcome) → outcome.Means journal final.disk := by
  have distinct : (journal.steps.map JournalStep.relPath).Nodup :=
    (List.nodup_append.mp (UpdateJournal.distinct_of_validate valid)).1
  obtain ⟨cautious, reached⟩ := (does_recover_cautious distinct rfl rfl rfl).sound runs
  refine ⟨?_, ?_, reached⟩
  · intro change before member
    have justified := cautious.writes change before member
    exact ⟨justified, justified.explicit⟩
  · rintro ⟨step, among, foreign⟩ change before member
    obtain ⟨actions, decided, _⟩ := cautious.writes change before member
    exact (actionsOn_ok.mp decided).1 step among foreign

-- A rollback from start to end

def changeDone (state : UpdateState) (change : FileChange)
    : Except UpdateError Unit × UpdateState :=
  match change.content state.disk with
  | some content => (.ok (), state.write change content)
  | none => (.error ⟨.notFound, change.path ++ " does not exist"⟩, state)

/-- An outside in which every call succeeds that can. -/
def succeeding (state : UpdateState) : (call : UpdateCall) → call.Answer × UpdateState
  | .current => (.ok state.memory, state)
  | .setCurrent journal => (.ok (), state.remembering journal)
  | .load => (.ok state.stored, state)
  | .store journal => (.ok (), state.storing journal)
  | .observe relPath => (.ok (state.disk relPath), state)
  | .change change => changeDone state change
  | .bindTarget _ _ => (.ok (), state)
  | .verifyPlacement => (.ok (), state)
  | .verifyCommitState => (.ok (), state)
  | .hasExited => (.ok true, state)
  | .stopAndReleaseLease => (.ok (), state.note (.stopped true))

theorem succeeding_allowed (state : UpdateState) (call : UpdateCall)
    : updateOutside.answers state call (succeeding state call).1 (succeeding state call).2 := by
  cases call with
  | current => exact .current state
  | setCurrent journal => exact .setCurrent state journal
  | load => exact .loaded state
  | store journal => exact .stored state journal (.ok ())
  | observe relPath => exact .observed state relPath
  | change change =>
      show updateOutside.answers state (.change change) (changeDone state change).1
        (changeDone state change).2
      unfold changeDone
      split
      · rename_i carried
        exact .changed carried
      · exact .notChanged _ .untouched
  | bindTarget relPath expected => exact .bound state relPath expected (.ok ())
  | verifyPlacement => exact .placed state
  | verifyCommitState => exact .verified state (.ok ())
  | hasExited => exact .exited state (.ok true)
  | stopAndReleaseLease => exact .stopped state

def sampleOld : FileIdentity :=
  ⟨3, "1111111111111111111111111111111111111111111111111111111111111111"⟩

def sampleNew : FileIdentity :=
  ⟨4, "2222222222222222222222222222222222222222222222222222222222222222"⟩

def sampleRelease (version : String) : ReleaseIdentity where
  target := "x86_64-pc-windows-msvc"
  version := version
  catalogSha256 := none
  inventorySha256 := none
  bundleId := none
  teamId := none

/-- An update stopped after it replaced its only file. -/
def sampleJournal : UpdateJournal where
  schema := 1
  transactionId := "0123456789abcdef0123456789abcdef"
  installId := "fedcba9876543210fedcba9876543210"
  planHash := sampleOld.sha256
  source := sampleRelease "0.29.0"
  destination := sampleRelease "0.30.0"
  ticketSha256 := none
  phase := .applying
  steps := [⟨"hane.exe", some sampleOld, some sampleNew, some "backup/hane.exe", .applied⟩]
  unchanged := []
  generation := 3

def diskOf (files : List (String × FileIdentity)) (path : String) : Observed :=
  .expected (files.lookup path)

/-- The safety theorem at that update: recovery restores the file and says so. -/
theorem recover_safe_sample
    : AllOld (Program.run succeeding recover.run
        ⟨diskOf [("hane.exe", sampleNew), ("backup/hane.exe", sampleOld)], some sampleJournal,
          sampleJournal, []⟩).2.disk sampleJournal.steps := by
  have valid : sampleJournal.validate sampleCrates = .ok () := by decide +kernel
  have outcomes := (recover_safe valid (Program.runs_run succeeding_allowed recover.run
    ⟨diskOf [("hane.exe", sampleNew), ("backup/hane.exe", sampleOld)], some sampleJournal,
      sampleJournal, []⟩)).2.2
  exact (outcomes .rolledBack (by rfl)).1

end Hane.Update
