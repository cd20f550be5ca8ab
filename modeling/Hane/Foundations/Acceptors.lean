import Mathlib.Data.List.Basic

/-! Machines that accept items one at a time until they refuse one, and the longest beginning of a
list that such a machine accepts.
-/

namespace Hane.Foundations

variable {σ α : Type*} (step : σ → α → Option σ)

/-- The longest beginning of a list whose items the machine accepts. -/
def accepted : σ → List α → List α
  | _, [] => []
  | state, item :: rest =>
      match step state item with
      | none => []
      | some next => item :: accepted next rest

theorem accepted_isPrefix (state : σ) (items : List α) : accepted step state items <+: items := by
  induction items generalizing state with
  | nil => exact List.prefix_refl []
  | cons item rest ih =>
      unfold accepted
      split
      · exact List.nil_prefix
      · exact List.cons_prefix_cons.mpr ⟨rfl, ih _⟩

/-- A beginning of what is accepted is accepted whole, by induction on the items. -/
theorem accepted_of_isPrefix {state : σ} {items front : List α}
    (begins : front <+: accepted step state items) : accepted step state front = front := by
  induction items generalizing state front with
  | nil =>
      obtain rfl := List.prefix_nil.mp begins
      rfl
  | cons item rest ih =>
      cases front with
      | nil => rfl
      | cons first others =>
          unfold accepted at begins ⊢
          split at begins
          · exact absurd begins (by simp)
          · rename_i next taken
            obtain ⟨rfl, others⟩ := List.cons_prefix_cons.mp begins
            simp only [taken, ih others]

/-- Refusing some items outright is the same as stopping in front of the first of them. -/
theorem accepted_guard (stops : α → Bool) (state : σ) (items : List α)
    : accepted (fun state item => if stops item then none else step state item) state items
      = accepted step state (items.takeWhile (!stops ·)) := by
  induction items generalizing state with
  | nil => rfl
  | cons item rest ih =>
      by_cases stop : stops item = true
      · simp [accepted, stop]
      · rw [List.takeWhile_cons_of_pos (by simpa using stop)]
        simp only [accepted, if_neg stop]
        cases step state item with
        | none => rfl
        | some next => exact congrArg (item :: ·) (ih next)

end Hane.Foundations
