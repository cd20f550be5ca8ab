import Mathlib.Data.List.Induction

/-! Runs of a system that takes its actions one at a time, each of which may be refused, and what
holds after every run, with the actions taken so far in view.
-/

namespace Hane.Foundations

variable {σ ε : Type*}

def runActions (step : σ → ε → Option σ) (state : σ) (actions : List ε) : Option σ :=
  actions.foldlM step state

section Traces

variable {step : σ → ε → Option σ}

theorem runActions_append (state : σ) (earlier later : List ε)
    : runActions step state (earlier ++ later)
      = (runActions step state earlier).bind fun middle => runActions step middle later := by
  rw [runActions, List.foldlM_append]
  rfl

theorem runActions_concat {state final : σ} {earlier : List ε} {action : ε}
    : runActions step state (earlier ++ [action]) = some final
      ↔ ∃ before,
          runActions step state earlier = some before ∧ step before action = some final := by
  rw [runActions_append, Option.bind_eq_some_iff]
  refine exists_congr fun before => and_congr_right fun _ => ?_
  change (step before action).bind some = some final ↔ _
  rw [Option.bind_fun_some]

/-- What holds at the start and is kept by every action holds after every run, by induction on
its last action. The actions taken so far may be part of it.
-/
theorem runActions_invariant {initial final : σ} {actions : List ε}
    (holds : List ε → σ → Prop) (start : holds [] initial)
    (kept :
      ∀ earlier before action after,
        runActions step initial earlier = some before
        → holds earlier before
        → step before action = some after
        → holds (earlier ++ [action]) after)
    (ran : runActions step initial actions = some final)
    : holds actions final := by
  induction actions using List.reverseRecOn generalizing final with
  | nil =>
      cases ran
      exact start
  | append_singleton earlier action ih =>
      obtain ⟨before, ran, moved⟩ := runActions_concat.mp ran
      exact kept earlier before action final ran (ih ran) moved

end Traces

end Hane.Foundations
