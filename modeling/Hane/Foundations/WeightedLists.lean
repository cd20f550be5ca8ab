import Mathlib.Data.List.Basic
import Mathlib.Algebra.BigOperators.Group.List.Basic
import Mathlib.Algebra.Ring.Nat

/-! Sequences whose items carry natural-number weights, addressed by cumulative weight.
An item starts at the weight of everything before it; a position inside the total weight is
owned by exactly one item, and a position past the total by none.
-/

namespace Hane.Foundations

variable {α β : Type*}

/-- The total weight of a sequence. -/
def weight (w : α → Nat) (items : List α) : Nat := (items.map w).sum

/-- The index of the item that owns `position`, or the length once the position is at or
past the total weight. Items of zero weight own no position.
-/
def indexAt (w : α → Nat) : List α → Nat → Nat
  | [], _ => 0
  | item :: rest, position =>
      if position < w item then 0 else indexAt w rest (position - w item) + 1

section Weight

variable (w : α → Nat)

@[simp] theorem weight_nil : weight w [] = 0 := rfl

@[simp] theorem weight_cons (item : α) (rest : List α)
    : weight w (item :: rest) = w item + weight w rest := by
  simp [weight]

@[simp] theorem weight_append (left right : List α)
    : weight w (left ++ right) = weight w left + weight w right := by
  simp [weight]

theorem weight_flatten (parts : List (List α))
    : weight w parts.flatten = weight (weight w) parts := by
  induction parts with
  | nil => rfl
  | cons part rest ih => simp [ih]

theorem weight_map (f : β → α) (items : List β)
    : weight w (items.map f) = weight (fun item => w (f item)) items := by
  simp [weight, Function.comp_def]

theorem weight_take_add_drop (items : List α) (count : Nat)
    : weight w (items.take count) + weight w (items.drop count) = weight w items := by
  rw [← weight_append, List.take_append_drop]

theorem weight_take_le (items : List α) (count : Nat)
    : weight w (items.take count) ≤ weight w items := by
  have split := weight_take_add_drop w items count
  omega

/-- Starts are monotone in the index. -/
theorem weight_take_mono (items : List α) {first last : Nat} (ordered : first ≤ last)
    : weight w (items.take first) ≤ weight w (items.take last) := by
  have shorter : items.take first = (items.take last).take first := by
    rw [List.take_take, Nat.min_eq_left ordered]
  rw [shorter]
  exact weight_take_le w (items.take last) first

theorem weight_take_succ (items : List α) (index : Nat) (bound : index < items.length)
    : weight w (items.take (index + 1)) = weight w (items.take index) + w items[index] := by
  rw [← List.take_append_getElem bound, weight_append]
  simp

theorem weight_take_strictMono (positive : ∀ item, 0 < w item) (items : List α)
    {first last : Nat} (ordered : first < last) (bound : last ≤ items.length)
    : weight w (items.take first) < weight w (items.take last) := by
  have inside : first < items.length := Nat.lt_of_lt_of_le ordered bound
  have step := weight_take_succ w items first inside
  have more := weight_take_mono w items (show first + 1 ≤ last from ordered)
  have grows := positive items[first]
  omega

theorem weight_eq_zero_iff (positive : ∀ item, 0 < w item) (items : List α)
    : weight w items = 0 ↔ items = [] := by
  cases items with
  | nil => simp
  | cons item rest =>
      have grows := positive item
      simp only [weight_cons, reduceCtorEq, iff_false]
      omega

end Weight

section IndexAt

variable (w : α → Nat)

theorem indexAt_lt_length (items : List α) {position : Nat}
    (inside : position < weight w items)
    : indexAt w items position < items.length := by
  induction items generalizing position with
  | nil => simp at inside
  | cons item rest ih =>
      simp only [weight_cons] at inside
      simp only [indexAt, List.length_cons]
      split
      · omega
      · have bound := @ih (position - w item) (by omega)
        omega

theorem indexAt_eq_length (items : List α) {position : Nat}
    (past : weight w items ≤ position)
    : indexAt w items position = items.length := by
  induction items generalizing position with
  | nil => rfl
  | cons item rest ih =>
      simp only [weight_cons] at past
      simp only [indexAt, List.length_cons]
      rw [if_neg (by omega), ih (by omega)]

theorem weight_take_indexAt_le (items : List α) (position : Nat)
    : weight w (items.take (indexAt w items position)) ≤ position := by
  induction items generalizing position with
  | nil => simp [indexAt]
  | cons item rest ih =>
      simp only [indexAt]
      split
      · simp
      · simp only [List.take_succ_cons, weight_cons]
        have bound := ih (position - w item)
        omega

theorem lt_weight_take_indexAt_succ (items : List α) {position : Nat}
    (inside : position < weight w items)
    : position < weight w (items.take (indexAt w items position + 1)) := by
  induction items generalizing position with
  | nil => simp at inside
  | cons item rest ih =>
      simp only [weight_cons] at inside
      simp only [indexAt]
      split
      · simpa
      · simp only [List.take_succ_cons, weight_cons]
        have bound := @ih (position - w item) (by omega)
        omega

theorem indexAt_eq_of_bounds (items : List α) {position index : Nat}
    (start : weight w (items.take index) ≤ position)
    (finish : position < weight w (items.take (index + 1)))
    : indexAt w items position = index := by
  have inside : position < weight w items :=
    Nat.lt_of_lt_of_le finish (weight_take_le w items _)
  have lower := weight_take_indexAt_le w items position
  have upper := lt_weight_take_indexAt_succ w items inside
  rcases Nat.lt_trichotomy (indexAt w items position) index with before | same | after
  · have bound := weight_take_mono w items (show indexAt w items position + 1 ≤ index from before)
    omega
  · exact same
  · have bound := weight_take_mono w items (show index + 1 ≤ indexAt w items position from after)
    omega

theorem indexAt_append_left (left right : List α) {position : Nat}
    (inside : position < weight w left)
    : indexAt w (left ++ right) position = indexAt w left position := by
  induction left generalizing position with
  | nil => simp at inside
  | cons item rest ih =>
      simp only [weight_cons] at inside
      simp only [List.cons_append, indexAt]
      split
      · rfl
      · rw [ih (by omega)]

theorem indexAt_append_right (left right : List α) {position : Nat}
    (past : weight w left ≤ position)
    : indexAt w (left ++ right) position
      = left.length + indexAt w right (position - weight w left) := by
  induction left generalizing position with
  | nil => simp
  | cons item rest ih =>
      simp only [weight_cons] at past
      simp only [List.cons_append, indexAt, List.length_cons, weight_cons]
      rw [if_neg (by omega), ih (by omega), Nat.sub_sub]
      omega

theorem indexAt_weight_take (positive : ∀ item, 0 < w item) (items : List α) {index : Nat}
    (bound : index ≤ items.length)
    : indexAt w items (weight w (items.take index)) = index := by
  rcases Nat.lt_or_ge index items.length with inside | past
  · have grows := positive items[index]
    apply indexAt_eq_of_bounds w items (Nat.le_refl _)
    rw [weight_take_succ w items index inside]
    omega
  · have whole : index = items.length := by omega
    rw [whole, List.take_length, indexAt_eq_length w items (Nat.le_refl _)]

end IndexAt

end Hane.Foundations
