import Hane.Foundations.FenwickTrees
import Mathlib.Data.List.Flatten

/-! A list kept as a list of parts: cutting it, and finding a place in it by part and slot. -/

namespace Hane.Foundations

variable {α : Type*}

/-- `slice::chunks` for a positive size. -/
def chunksOf (size : Nat) : List α → List (List α)
  | [] => []
  | item :: rest =>
      (item :: rest.take (size - 1)) :: chunksOf size (rest.drop (size - 1))
termination_by items => items.length
decreasing_by
  rw [List.length_drop, List.length_cons]
  omega

@[simp] theorem chunksOf_flatten (size : Nat) (items : List α)
    : (chunksOf size items).flatten = items := by
  fun_induction chunksOf size items with
  | case1 => rfl
  | case2 item rest ih =>
      rw [List.flatten_cons, ih, List.cons_append, List.take_append_drop]

theorem ne_nil_of_mem_chunksOf {size : Nat} {items part : List α}
    (member : part ∈ chunksOf size items)
    : part ≠ [] := by
  fun_induction chunksOf size items with
  | case1 => exact absurd member List.not_mem_nil
  | case2 item rest ih =>
      rcases List.mem_cons.mp member with rfl | later
      · exact List.cons_ne_nil _ _
      · exact ih later

variable {parts before after : List (List α)} {left right : List α}

/-- A cut inside one part cuts the whole list. -/
theorem flatten_split (split : parts = before ++ (left ++ right) :: after)
    : parts.flatten = (before.flatten ++ left) ++ (right ++ after.flatten) := by
  rw [split]
  simp

theorem sum_map_length (parts : List (List α))
    : (parts.map List.length).sum = parts.flatten.length := List.length_flatten.symm

theorem exists_split_of_highest {ordinal : Nat} {found : Nat × Nat}
    (highest : Fenwick.Highest (parts.map List.length) ordinal found)
    (inside : ordinal < parts.flatten.length)
    : ∃ before left item right after,
        parts = before ++ (left ++ item :: right) :: after
        ∧ found.1 = before.length
        ∧ found.2 = before.flatten.length
        ∧ ordinal = before.flatten.length + left.length := by
  obtain ⟨index, sum⟩ := found
  obtain ⟨bound, sumEq, reaches, highest⟩ := highest
  dsimp only at bound sumEq reaches highest
  rw [List.length_map] at bound highest
  have prefixes (stop : Nat)
      : ((parts.map List.length).take stop).sum = (parts.take stop).flatten.length := by
    rw [← List.map_take, sum_map_length]
  rw [prefixes] at sumEq
  have short : index < parts.length := by
    rcases Nat.lt_or_eq_of_le bound with short | full
    · exact short
    · rw [full, List.take_length] at sumEq
      omega
  have split : parts = parts.take index ++ parts[index] :: parts.drop (index + 1) := by
    rw [List.cons_getElem_drop_succ, List.take_append_drop]
  have slot : ordinal - sum < parts[index].length := by
    by_contra past
    have next : (parts.take (index + 1)).flatten.length = sum + parts[index].length := by
      rw [List.take_add_one, List.getElem?_eq_getElem short, List.flatten_append,
        List.length_append, ← sumEq]
      simp
    have higher := highest (index + 1) short (by rw [prefixes, next]; omega)
    omega
  refine ⟨parts.take index, parts[index].take (ordinal - sum), parts[index][ordinal - sum],
    parts[index].drop (ordinal - sum + 1), parts.drop (index + 1), ?_, ?_, sumEq, ?_⟩
  · rw [List.cons_getElem_drop_succ, List.take_append_drop]
    exact split
  · rw [List.length_take, Nat.min_eq_left bound]
  · rw [← sumEq, List.length_take]
    omega

/-- Of two cuts in order, the part of the first lies at most one past the part of the second,
as no part is empty.
-/
theorem length_before_le {before' after' : List (List α)} {left' right' : List α}
    (nonempty : ∀ part ∈ parts, part ≠ [])
    (split : parts = before ++ (left ++ right) :: after)
    (split' : parts = before' ++ (left' ++ right') :: after')
    (ordered : before.flatten.length + left.length ≤ before'.flatten.length + left'.length)
    : before.length ≤ before'.length + 1 := by
  by_contra later
  have short : before.length < parts.length := by
    rw [split]
    simp
  have size : parts.length = before'.length + 1 + after'.length := by
    rw [split']
    simp
    omega
  obtain ⟨next, rest, rfl⟩ : ∃ next rest, after' = next :: rest :=
    List.exists_cons_of_length_pos (by omega)
  have longer : before' ++ [left' ++ right', next] <+: before := by
    apply List.prefix_of_prefix_length_le ⟨rest, _⟩ ⟨(left ++ right) :: after, split.symm⟩
    · rw [List.length_append, List.length_cons, List.length_singleton]
      omega
    · rw [split']
      simp
  obtain ⟨extra, rfl⟩ := longer
  have positive := List.length_pos_of_ne_nil (nonempty next (by rw [split']; simp))
  simp only [List.flatten_append, List.flatten_cons, List.length_append] at ordered
  omega

end Hane.Foundations
