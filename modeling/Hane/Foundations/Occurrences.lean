import Mathlib.Data.List.DropRight
import Mathlib.Data.List.Infix
import Mathlib.Tactic.Common

/-! Where a list occurs in a longer one that is known piece by piece, and what is left of a list
without what it begins or ends with.
-/

namespace Hane.Foundations

variable {α : Type*}

theorem rtake_append_rtake (size : Nat) (front back : List α)
    : (front.rtake size ++ back).rtake size = (front ++ back).rtake size := by
  simp only [List.rtake_eq_reverse_take_reverse, List.reverse_append, List.take_append,
    List.reverse_reverse, List.take_take, List.length_reverse]
  rw [Nat.min_eq_left (Nat.sub_le _ _)]

/-- A list occurs in one that goes on if it does in the front, or starts within the end of it. -/
theorem infix_append_iff {needle front back : List α}
    : needle <:+: front ++ back
      ↔ needle <:+: front ∨ needle <:+: front.rtake (needle.length - 1) ++ back := by
  constructor
  · rintro ⟨before, after, whole⟩
    by_cases early : before.length + needle.length ≤ front.length
    · have first : before ++ needle <+: front ++ back := ⟨after, whole⟩
      have inside : before ++ needle <+: front :=
        List.prefix_of_prefix_length_le first (List.prefix_append front back) (by simpa using early)
      exact .inl ((List.suffix_append before needle).isInfix.trans inside.isInfix)
    · refine .inr ⟨before.drop (front.length - (needle.length - 1)), after, ?_⟩
      have late : front.length - (needle.length - 1) ≤ before.length := by omega
      have cut := congrArg (List.drop (front.length - (needle.length - 1))) whole
      rw [List.append_assoc, List.drop_append_of_le_length late,
        List.drop_append_of_le_length (Nat.sub_le _ _)] at cut
      rw [List.rtake, List.append_assoc]
      exact cut
  · rintro (inside | across)
    · exact inside.trans (List.prefix_append front back).isInfix
    · have rest : front.rtake (needle.length - 1) ++ back <:+ front ++ back :=
        ⟨front.take (front.length - (needle.length - 1)),
          by rw [List.rtake, ← List.append_assoc, List.take_append_drop]⟩
      exact across.trans rest.isInfix

/-- All runs of some length in a list. -/
def windows (size : Nat) (items : List α) : List (List α) :=
  (List.range (items.length + 1 - size)).map fun start => (items.drop start).take size

theorem mem_windows_iff {needle items : List α} (filled : needle ≠ [])
    : needle ∈ windows needle.length items ↔ needle <:+: items := by
  have size := List.length_pos_iff.mpr filled
  simp only [windows, List.mem_map, List.mem_range]
  constructor
  · rintro ⟨start, -, read⟩
    rw [← read]
    exact (List.take_prefix _ _).isInfix.trans (List.drop_suffix _ _).isInfix
  · rintro ⟨before, after, rfl⟩
    refine ⟨before.length, ?_, ?_⟩
    · simp only [List.length_append]
      omega
    · rw [List.append_assoc, List.drop_left, List.take_left]

section Affixes

variable [DecidableEq α]

def stripSuffix (list back : List α) : Option (List α) :=
  if back <:+ list then some (list.take (list.length - back.length)) else none

theorem stripSuffix_append (rest back : List α) : stripSuffix (rest ++ back) back = some rest := by
  rw [stripSuffix, if_pos (List.suffix_append rest back), List.length_append, Nat.add_sub_cancel,
    List.take_left]

theorem stripSuffix_eq_none {list back : List α}
    : stripSuffix list back = none ↔ ¬back <:+ list := by
  simp [stripSuffix]

end Affixes

end Hane.Foundations
