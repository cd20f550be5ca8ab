import Hane.Update.HealthRuns
import Hane.Update.UpdateRuns

/-! What a health conclusion leaves alone: no file is changed before the child is stopped, and no
commit is stored for a child that is not healthy.
-/

namespace Hane.Update

open Hane.Foundations

-- Programs that keep a condition

/-- A program that keeps a condition at every point, whatever it is answered. -/
def Spares {α : Type} (kept : UpdateState → Prop) (program : Updating α) : Prop :=
  ∀ state, kept state → Does kept (fun _ _ => True) (fun _ => True) program state

/-- Every answer to a call keeps a condition, and so does a crash in it. -/
structure UpdateCall.Spares (kept : UpdateState → Prop) (call : UpdateCall) : Prop where
  answers : ∀ state answer final, kept state → UpdateAnswers state call answer final → kept final
  tears : ∀ state final, kept state → UpdateTears state call final → kept final

namespace Spares

variable {α β : Type} {kept : UpdateState → Prop}

theorem ask {call : UpdateCall} (spares : call.Spares kept) : Spares kept (ask call) := by
  intro state holds
  refine .call holds (fun final torn => spares.tears state final holds torn) ?_
  intro answer final answers
  refine ⟨spares.answers state answer final holds answers, ?_⟩
  cases answer <;> trivial

theorem pure (value : α) : Spares kept (Pure.pure value : Updating α) :=
  fun _ holds => .pure holds trivial

theorem bind {program : Updating α} {next : α → Updating β} (first : Spares kept program)
    (second : ∀ value, Spares kept (next value)) : Spares kept (program >>= next) :=
  fun state holds =>
    .bind (fun _ _ => True) (first state holds) fun value final holds _ => second value final holds

theorem ite {condition : Prop} [Decidable condition] {first second : Updating α}
    (holds : Spares kept first) (fails : Spares kept second)
    : Spares kept (if condition then first else second) := by
  split
  · exact holds
  · exact fails

theorem caught {program : Updating α} (spares : Spares kept program)
    : Spares kept (caught program) :=
  fun state holds => (does_caught (spares state holds)).mono (fun _ _ _ _ => trivial)
    fun _ _ _ fails => fails

theorem decideRecovery (journal : UpdateJournal)
    : Spares kept (decideRecovery observe (some journal) journal.installId) :=
  fun _ holds => (does_decideRecovery holds trivial).mono (fun _ _ _ _ => trivial)
    fun _ _ _ fails => fails

end Spares

/-- A call that neither changes a file nor stores a commit. -/
def UpdateCall.IsOrdinary : UpdateCall → Prop
  | change _ => False
  | store journal => journal.phase ≠ .committed
  | _ => True

section Ordinary

variable {kept : UpdateState → Prop}
variable (ordinary : ∀ call : UpdateCall, call.IsOrdinary → call.Spares kept)

include ordinary

theorem spares_persist {current next : UpdateJournal} (other : next.phase ≠ .committed)
    : Spares kept (persist current next) := by
  refine .bind (.ask (ordinary .load trivial)) fun onDisk => ?_
  refine .ite ?_ fun _ holds => ⟨holds, trivial⟩
  exact .bind (.ask (ordinary (.store _) other)) fun _ => .ask (ordinary (.setCurrent _) trivial)

theorem spares_advancePhase {phase : Phase} (other : phase ≠ .committed)
    : Spares kept (advancePhase phase) := by
  refine .bind (.ask (ordinary .current trivial)) fun current => ?_
  cases moved : current.transition phase with
  | error err => exact fun _ holds => ⟨holds, trivial⟩
  | ok next =>
      obtain ⟨_, rfl⟩ := UpdateJournal.transition_ok moved
      exact spares_persist ordinary other

theorem spares_advanceStep (index : Nat) (step : StepState)
    : Spares kept (advanceStep index step) := by
  refine .bind (.ask (ordinary .current trivial)) fun current => ?_
  cases moved : current.setStep index step with
  | error err => exact fun _ holds => ⟨holds, trivial⟩
  | ok next =>
      obtain ⟨phase, _, _, _, rfl⟩ := UpdateJournal.setStep_ok moved
      refine spares_persist ordinary ?_
      rw [show UpdateJournal.phase _ = UpdateJournal.stepPhase step from phase]
      cases step <;> nofun

theorem spares_require (why : String) : Spares kept (require why) :=
  .bind (.caught (spares_advancePhase ordinary nofun)) fun _ => .pure _

theorem spares_settleOld : Spares kept settleOld := by
  refine .bind (.ask (ordinary .current trivial)) fun journal => ?_
  have rolledBack : Spares kept (advancePhase .rolledBack) := spares_advancePhase ordinary nofun
  have rolling : Spares kept (advancePhase .rollingBack) := spares_advancePhase ordinary nofun
  cases journal.phase with
  | prepared | exitAuthorized | rollingBack => exact rolledBack
  | applying | awaitingHealth => exact rolling.bind fun _ => rolledBack
  | rolledBack | committed | recoveryRequired => exact .pure ()

theorem spares_stopChild : Spares kept stopChild := .caught (.ask (ordinary _ trivial))

variable (changes : ∀ change, UpdateCall.Spares kept (.change change))

include changes

theorem spares_changeBack (action : RollbackAction) : Spares kept (changeBack action) := by
  have observes : ∀ relPath, Spares kept (observe relPath) := fun relPath =>
    .ask (ordinary (.observe relPath) trivial)
  have writes : ∀ relPath expected change,
      Spares kept (do ask (.bindTarget relPath expected); ask (.change change); return none
        : Updating (Option String)) := fun relPath expected change =>
    .bind (.ask (ordinary (.bindTarget relPath expected) trivial)) fun _ =>
      .bind (.ask (changes change)) fun _ => .pure none
  cases action with
  | restoreFromBackup relPath backupRel restore expectedCurrent =>
      refine .bind (observes relPath) fun found => .ite (.pure _) ?_
      exact .bind (observes backupRel) fun backup => .ite (.pure _) (writes _ _ _)
  | removeAdded relPath expected =>
      exact .bind (observes relPath) fun found => .ite (.pure _) (writes _ _ _)

theorem spares_perform (action : RollbackAction) : Spares kept (perform action) := by
  refine .bind (.ask (ordinary .current trivial)) fun journal => ?_
  cases checkStepState journal action.relPath with
  | error why => exact .pure _
  | ok found =>
      refine .bind (spares_changeBack ordinary changes action) fun refused => ?_
      cases refused with
      | some why => exact .pure _
      | none =>
          exact .ite (.bind (spares_advanceStep ordinary _ _) fun _ => .pure none) (.pure none)

/-- By induction over the actions. -/
theorem spares_performAll (actions : List RollbackAction) : Spares kept (performAll actions) := by
  induction actions with
  | nil => exact .pure none
  | cons action rest ih =>
      refine .bind (spares_perform ordinary changes action) fun refused => ?_
      cases refused with
      | some why => exact .pure _
      | none => exact ih

theorem spares_rollBack (actions : List RollbackAction) : Spares kept (rollBack actions) := by
  have enters : Spares kept enterRollback := by
    refine .bind (.ask (ordinary .current trivial)) fun journal => ?_
    cases journal.phase with
    | applying | awaitingHealth =>
        exact .bind (spares_advancePhase ordinary nofun) fun _ => .pure none
    | _ => exact .pure _
  refine .bind enters fun refused => ?_
  cases refused with
  | some why => exact spares_require ordinary why
  | none =>
      refine .bind (.ask (ordinary .current trivial)) fun journal => ?_
      split
      · exact spares_require ordinary _
      refine .bind (spares_performAll ordinary changes actions.reverse) fun refused => ?_
      cases refused with
      | some why => exact spares_require ordinary why
      | none =>
          refine .bind (.ask (ordinary .current trivial)) fun after => ?_
          refine .bind (.decideRecovery after) fun decision => ?_
          refine .ite (.bind (spares_advancePhase ordinary nofun) fun _ => .pure _) ?_
          exact spares_require ordinary _

theorem spares_recover : Spares kept recover := by
  refine .bind (.caught (.ask (ordinary .verifyPlacement trivial))) fun placed => ?_
  cases placed with
  | error err => exact .bind (spares_stopChild ordinary) fun _ => spares_require ordinary _
  | ok placed =>
      refine .bind (.ask (ordinary .current trivial)) fun current => ?_
      refine .bind (.decideRecovery current) fun decision => ?_
      cases decision with
      | noJournal | keepNew => exact .pure _
      | keepOld => exact .bind (spares_settleOld ordinary) fun _ => .pure _
      | recoveryRequired why => exact spares_require ordinary why
      | rollBack actions requireChildExit =>
          refine .ite ?_ (spares_rollBack ordinary changes actions)
          refine .bind (spares_stopChild ordinary) fun stopped => ?_
          cases stopped with
          | error err => exact spares_require ordinary _
          | ok stopped => exact spares_rollBack ordinary changes actions

end Ordinary

-- No file is changed before the child is stopped

section Intact

variable {start : String → Observed} {state : UpdateState}

/-- Every file is as it was, or the child is known to be stopped. -/
def Intact (start : String → Observed) (state : UpdateState) : Prop :=
  state.disk = start ∨ Stopped state

theorem Intact.note (intact : Intact start state) (event : Event)
    : Intact start (state.note event) :=
  intact.imp id fun ⟨event, member, stopped⟩ => ⟨event, List.mem_cons_of_mem _ member, stopped⟩

theorem intact_ordinary (call : UpdateCall) (ordinary : call.IsOrdinary)
    : call.Spares (Intact start) := by
  refine ⟨fun state answer final intact answers => ?_, fun state final intact tears => ?_⟩
  · refine intact.imp (fun same => ?_) fun ⟨event, member, stopped⟩ =>
      ⟨event, answers.keeps_event member, stopped⟩
    cases answers with
    | changed | notChanged => cases ordinary
    | _ => exact same
  · refine intact.imp (fun same => ?_) fun ⟨event, member, stopped⟩ =>
      ⟨event, tears.keeps_event member, stopped⟩
    cases tears with
    | changed => cases ordinary
    | stored => exact same

theorem does_stopped {α : Type} (program : Updating α) (stopped : Stopped state)
    : Does (Intact start) (fun _ => Stopped) Stopped program state :=
  does_anything program (fun _ stopped => .inr stopped) stopped

theorem does_stopChild_intact (intact : Intact start state)
    : Does (Intact start) (fun stopped final => stopped = .ok () → Stopped final)
        (fun _ => True) stopChild state :=
  does_stopChild intact ⟨intact.note _, fun _ => stopped_note⟩
    ⟨intact.note _, fun _ => nofun⟩

theorem does_recover_intact (intact : Intact start state)
    (awaiting : Stopped state ∨ state.memory.phase = .awaitingHealth)
    : Does (Intact start) (fun _ _ => True) (fun _ => True) recover state := by
  have ordinary := @intact_ordinary start
  rcases awaiting with stopped | awaiting
  · exact (does_stopped _ stopped).mono (fun _ _ _ _ => trivial) fun _ _ _ _ => trivial
  refine .bind (fun placed final => placed = .ok () → final = state) ?_ ?_
  · exact does_verifyPlacement intact (fun _ => rfl) ⟨intact.note _, fun _ => nofun⟩
  intro placed final holds unlost
  cases placed with
  | error err =>
      exact ((spares_stopChild ordinary).bind fun _ => spares_require ordinary _) final holds
  | ok placed =>
      obtain rfl := unlost rfl
      refine does_bindCurrent holds ?_
      refine does_bindDecision holds trivial ?_
      have may : final.memory.phase.mayHaveChanged = true := by rw [awaiting]; rfl
      rcases @decideOn_mayHaveChanged final.disk _ may with
        ⟨actions, _, _, decided⟩ | ⟨decided, _⟩ | ⟨⟨why, decided⟩, _⟩
      · rw [decided, awaiting]
        refine .bind _ (does_stopChild_intact holds) ?_
        rintro stopped last kept gone
        cases stopped with
        | error err => exact spares_require ordinary _ last kept
        | ok stopped =>
            exact (does_stopped _ (gone rfl)).mono (fun _ _ _ _ => trivial)
              fun _ _ _ _ => trivial
      · rw [decided]
        exact ((spares_settleOld ordinary).bind fun _ => .pure _) final holds
      · rw [decided]
        exact spares_require ordinary why final holds

/-- The journal the store holds is a commit. -/
def StoresCommit (state : UpdateState) : Prop :=
  ∃ stored, state.stored = some stored ∧ stored.phase = .committed

theorem does_tryCommit_intact (intact : Intact start state)
    : Does (Intact start)
        (fun outcome final =>
          (outcome = none → Stopped final ∨ final.memory = state.memory)
          ∧ (outcome = some .committed → StoresCommit final))
        (fun _ => True) tryCommit state := by
  have ordinary := @intact_ordinary start
  refine .bind (Program.byOutcome _ fun _ => _) (does_caught (does_verifyBeforeCommit intact)) ?_
  rintro (err | checked) final holds reached
  · obtain rfl : final = state := reached
    refine .bind _ (does_stopChild_intact holds) ?_
    rintro (stop | stopped) last kept gone
    · refine .bind (fun outcome _ => outcome ≠ .committed) ?_ ?_
      · refine .bind _ (spares_require ordinary _ last kept) ?_
        intro outcome final holds _
        cases outcome <;> exact .pure holds nofun
      · exact fun outcome final holds other =>
          .pure holds ⟨nofun, fun same => absurd (Option.some.inj same) other⟩
    · exact .pure kept ⟨fun _ => .inl (gone rfl), nofun⟩
  · obtain ⟨rfl, _⟩ := reached
    have committing : Does (Intact start) (fun _ last => StoresCommit last)
        (fun last => last.memory = final.memory) (advancePhase .committed) final := by
      refine does_advancePhase holds rfl fun next moved _ => ?_
      obtain ⟨_, rfl⟩ := UpdateJournal.transition_ok moved
      exact ⟨holds, rfl, holds, _, rfl, rfl⟩
    refine .bind (Program.byOutcome _ fun _ => _) (does_caught committing) ?_
    rintro (err | advanced) last kept reached
    · exact .pure kept ⟨fun _ => .inr reached, nofun⟩
    · exact .pure kept ⟨nofun, fun _ => reached⟩

theorem does_recoverHealth_intact (intact : Intact start state)
    (awaiting : Stopped state ∨ state.memory.phase = .awaitingHealth)
    : Does (Intact start) (fun outcome final => outcome = .committed → StoresCommit final)
        (fun _ => True) recoverHealth state := by
  refine .bind _ (does_recover_intact intact awaiting) fun outcome final holds _ => ?_
  refine .pure holds ?_
  cases outcome <;> nofun

/-- A conclusion changes no file before the child is stopped, and reports a commit only when it is
stored.
-/
theorem does_concludeHealth_intact (healthy : Bool) (intact : Intact start state)
    : Does (Intact start) (fun outcome final => outcome = .committed → StoresCommit final)
        (fun _ => True) (concludeHealth healthy) state := by
  refine does_bindCurrent intact ?_
  refine .ite (fun _ => ⟨intact, trivial⟩) fun awaiting => ?_
  have awaiting : state.memory.phase = .awaitingHealth := not_not.mp awaiting
  refine .ite (fun _ => ?_) fun _ => does_recoverHealth_intact intact (.inr awaiting)
  refine .bind (fun _ final => final.memory = state.memory) ?_ ?_
  · exact does_verifyPlacement intact rfl ⟨intact.note _, fun _ => rfl⟩
  rintro (err | placed) final holds memory
  · exact does_recoverHealth_intact holds (.inr (memory ▸ awaiting))
  · refine .bind _ (does_tryCommit_intact holds) ?_
    rintro (_ | outcome) last kept ⟨open', commits⟩
    · refine does_recoverHealth_intact kept ((open' rfl).imp id fun same => ?_)
      rw [same, memory, awaiting]
    · exact .pure kept fun same => commits (congrArg some same)

end Intact

-- Nothing commits without a healthy child

/-- The store holds no commit. -/
def Uncommitted (state : UpdateState) : Prop := ¬StoresCommit state

theorem uncommitted_ordinary (call : UpdateCall) (ordinary : call.IsOrdinary)
    : call.Spares Uncommitted := by
  refine ⟨fun state answer final open' answers => ?_, fun state final open' tears => ?_⟩
  · cases answers with
    | stored journal => exact fun ⟨_, same, phase⟩ => ordinary (Option.some.inj same ▸ phase)
    | changed | notChanged => cases ordinary
    | _ => exact open'
  · cases tears with
    | stored journal => exact fun ⟨_, same, phase⟩ => ordinary (Option.some.inj same ▸ phase)
    | changed => cases ordinary

theorem uncommitted_changes (change : FileChange)
    : UpdateCall.Spares Uncommitted (.change change) := by
  have altered : ∀ {state final}, Alters state change final → Uncommitted state
      → Uncommitted final := by
    intro state final alters open'
    cases alters <;> exact open'
  refine ⟨fun state answer final open' answers => ?_, fun state final open' tears => ?_⟩
  · cases answers with
    | changed => exact open'
    | notChanged _ alters => exact altered alters open'
  · cases tears with
    | changed alters => exact altered alters open'

theorem spares_concludeHealth_unhealthy : Spares Uncommitted (concludeHealth false) := by
  refine .bind (.ask (uncommitted_ordinary .current trivial)) fun journal => ?_
  refine .ite (fun _ holds => ⟨holds, trivial⟩) ?_
  exact .bind (spares_recover uncommitted_ordinary uncommitted_changes) fun _ => .pure _

end Hane.Update
