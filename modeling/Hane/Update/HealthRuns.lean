import Hane.Update.RecoverySafety

/-! Concluding the limited-health run: when the health child is stopped before the update is
given up or reported as rolled back.
-/

namespace Hane.Update

open Hane.Foundations

-- What a health conclusion has to leave

/-- The child is asked to stop, whether it could be stopped or not. -/
def Asked (state : UpdateState) : Prop := ∃ event ∈ state.events, ∃ confirmed, event = .stopped confirmed

/-- The child is known to be stopped. -/
def Stopped (state : UpdateState) : Prop := ∃ event ∈ state.events, event = .stopped true

/-- The phases that end an update without a commit. -/
def Phase.isGivenUp : Phase → Bool
  | rolledBack | recoveryRequired => true
  | _ => false

/-- The stored journal says that the update is given up. -/
def GivenUp (state : UpdateState) : Prop :=
  ∃ journal, state.stored = some journal ∧ journal.phase.isGivenUp = true

section Concluding

variable {journal : UpdateJournal} {start : String → Observed} {state : UpdateState}

/-- The invariant of a conclusion. -/
def Careful (state : UpdateState) : Prop := GivenUp state → Asked state

theorem Careful.note (careful : Careful state) (event : Event) : Careful (state.note event) := by
  rintro ⟨stored, found, given⟩
  obtain ⟨event, member, asked⟩ := careful ⟨stored, found, given⟩
  exact ⟨event, List.mem_cons_of_mem _ member, asked⟩

theorem Stopped.asked (stopped : Stopped state) : Asked state := by
  obtain ⟨event, member, rfl⟩ := stopped
  exact ⟨_, member, true, rfl⟩

theorem does_afterStop {α : Type} (program : Updating α) (stopped : Stopped state)
    : Does Careful (fun _ => Stopped) Stopped program state :=
  does_anything program (fun _ stopped _ => Stopped.asked stopped) stopped

theorem stopped_note : Stopped (state.note (.stopped true)) :=
  ⟨_, List.mem_cons_self, rfl⟩

end Concluding

-- Runs that give up without stopping the child

section Violating

variable {journal : UpdateJournal} {state : UpdateState}

/-- The store holds what the writer holds, and nothing was asked of the child. -/
structure Opened (journal : UpdateJournal) (state : UpdateState) : Prop where
  stored : state.stored = some journal
  memory : state.memory = journal

theorem Opened.unmoved (opened : Opened journal state) : state.Unmoved state.memory :=
  ⟨journal, opened.stored, by rw [opened.memory], by rw [opened.memory]⟩

theorem Opened.current (opened : Opened journal state)
    : Program.Runs updateOutside currentJournal.run state (.finished (Except.ok journal)) state :=
  opened.memory ▸ .step (.current state) (.finish _ _)

end Violating

-- When the child is always stopped

end Hane.Update
