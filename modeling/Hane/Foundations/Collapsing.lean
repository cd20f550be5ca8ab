import Mathlib.Data.List.TakeDrop
import Mathlib.Tactic.Common

/-! Lists in which runs of items collapse into single ones, one run after the other. -/

namespace Hane.Foundations

variable {α : Type*}

/-- The items with the run `first` up to and including `last` replaced by one item. -/
def collapse (items : List α) (first last : Nat) (merged : α) : List α :=
  items.take first ++ merged :: items.drop (last + 1)

theorem collapse_length {items : List α} {first last : Nat} (merged : α)
    (ordered : first ≤ last) (inside : last < items.length)
    : (collapse items first last merged).length + (last - first) = items.length := by
  simp only [collapse, List.length_append, List.length_take, List.length_cons,
    List.length_drop]
  omega

theorem collapse_append (before run after : List α) (merged : α) (filled : run ≠ [])
    : collapse (before ++ run ++ after) before.length (before.length + run.length - 1) merged
      = before ++ merged :: after := by
  have positive := List.length_pos_iff.mpr filled
  unfold collapse
  rw [List.append_assoc, List.take_left, ← List.append_assoc]
  congr 2
  apply List.drop_left'
  rw [List.length_append]
  omega

theorem exists_run {items : List α} {first last : Nat} (ordered : first ≤ last)
    (inside : last < items.length)
    : ∃ before run after,
        items = before ++ run ++ after
        ∧ before.length = first
        ∧ run ≠ []
        ∧ before.length + run.length = last + 1 := by
  refine ⟨items.take first, (items.drop first).take (last + 1 - first),
    items.drop (last + 1), ?_, ?_, ?_, ?_⟩
  · have tail : items.drop (last + 1) = (items.drop first).drop (last + 1 - first) := by
      rw [List.drop_drop]
      congr 1
      omega
    rw [tail, List.append_assoc, List.take_append_drop, List.take_append_drop]
  · rw [List.length_take]
    omega
  · apply List.ne_nil_of_length_pos
    rw [List.length_take, List.length_drop]
    omega
  · rw [List.length_take, List.length_take, List.length_drop]
    omega

theorem take_drop_ends (items : List α) (front back : Nat)
    (inside : front + back ≤ items.length)
    : items
      = items.take front
        ++ (items.drop front).take (items.length - front - back)
        ++ items.drop (items.length - back) := by
  have rest : items.drop (items.length - back)
      = (items.drop front).drop (items.length - front - back) := by
    rw [List.drop_drop]
    congr 1
    omega
  rw [rest, List.append_assoc, List.take_append_drop, List.take_append_drop]

/-- Outside the items `low` up to and including `high` the items are still the original ones.
-/
structure Untouched (original items : List α) (low high : Nat) : Prop where
  ordered : low ≤ high
  inside : high < items.length
  room : low + (items.length - (high + 1)) ≤ original.length
  front : items.take low = original.take low
  back :
    items.drop (high + 1) = original.drop (original.length - (items.length - (high + 1)))

/-- One collapsed run leaves everything around it untouched. -/
theorem Untouched.collapse {items : List α} {first last : Nat} (merged : α)
    (ordered : first ≤ last) (inside : last < items.length)
    : Untouched items (collapse items first last merged) first first := by
  have length := collapse_length merged ordered inside
  refine ⟨Nat.le_refl _, by omega, by omega, ?_, ?_⟩
  · unfold Foundations.collapse
    rw [List.take_append_of_le_length (by rw [List.length_take]; omega), List.take_take,
      Nat.min_self]
  · have size : (items.take first).length = first := by
      rw [List.length_take]
      omega
    have rest : (Foundations.collapse items first last merged).drop (first + 1)
        = items.drop (last + 1) := by
      unfold Foundations.collapse
      rw [List.drop_append, List.drop_eq_nil_of_le (by omega), size, List.nil_append,
        Nat.add_sub_cancel_left]
      rfl
    rw [rest]
    congr 1
    omega

/-- Where an item ends up once a run before, around or after it collapsed. -/
def remapped (first last ordinal : Nat) : Nat :=
  if ordinal ≤ first then ordinal
  else if ordinal ≤ last then first
  else ordinal - (last - first)

theorem min_remapped (first last low : Nat)
    : min (remapped first last low) first = min low first := by
  unfold remapped
  split
  · rfl
  · split <;> omega

theorem max_remapped {first last : Nat} (high : Nat) (ordered : first ≤ last)
    : max (remapped first last high) first + (last - first) = max high last := by
  unfold remapped
  split
  · omega
  · split <;> omega

/-- One more collapsed run widens the touched items just enough, by comparing the run with
the items touched so far.
-/
theorem Untouched.widen {original items : List α} {low high first last : Nat}
    (untouched : Untouched original items low high) (merged : α) (ordered : first ≤ last)
    (inside : last < items.length)
    : Untouched original (Foundations.collapse items first last merged)
        (min (remapped first last low) first) (max (remapped first last high) first) := by
  have step := Untouched.collapse merged ordered inside
  have length := collapse_length merged ordered inside
  have highest := max_remapped high ordered
  rw [min_remapped]
  generalize max (remapped first last high) first = top at highest ⊢
  have ⟨lowHigh, highInside, room, front, back⟩ := untouched
  refine ⟨by omega, by omega, by omega, ?_, ?_⟩
  · have left := congrArg (List.take (min low first)) step.front
    have right := congrArg (List.take (min low first)) front
    simp only [List.take_take] at left right
    rw [Nat.min_eq_left (Nat.min_le_right low first)] at left
    rw [Nat.min_eq_left (Nat.min_le_left low first)] at right
    rw [left, right]
  · have left := congrArg (List.drop (top - first)) step.back
    have right := congrArg (List.drop (max high last - high)) back
    rw [List.drop_drop, List.drop_drop] at left right
    have place : first + 1 + (top - first) = top + 1 := by omega
    have same : items.length
          - ((Foundations.collapse items first last merged).length - (first + 1))
          + (top - first)
        = high + 1 + (max high last - high) := by
      omega
    rw [place, same] at left
    rw [left, right]
    congr 1
    omega

end Hane.Foundations
