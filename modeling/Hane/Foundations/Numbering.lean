import Mathlib.Data.List.Nodup
import Mathlib.Tactic.Common

/-! Keys that carry numbers, where every number is given out once. -/

namespace Hane.Foundations

variable {κ : Type*} {next next' next'' : Nat} {keys keys' keys'' : List (Nat × κ)}

/-- The numbers in use are distinct and below the next one to give out. -/
structure Numbered (next : Nat) (keys : List (Nat × κ)) : Prop where
  distinct : (keys.map Prod.fst).Nodup
  below : ∀ key ∈ keys, key.1 < next

/-- Numbers given out before still belong to the keys they were given to. -/
structure Renumbers (next : Nat) (keys : List (Nat × κ)) (next' : Nat)
    (keys' : List (Nat × κ)) : Prop where
  grows : next ≤ next'
  kept : ∀ key ∈ keys', key.1 < next → key ∈ keys

theorem Numbered.sublist (numbered : Numbered next keys) (fewer : keys'.Sublist keys)
    : Numbered next keys' where
  distinct := numbered.distinct.sublist (fewer.map Prod.fst)
  below key member := numbered.below key (fewer.subset member)

theorem Renumbers.of_sublist (fewer : keys'.Sublist keys) : Renumbers next keys next keys' where
  grows := Nat.le_refl next
  kept _ member _ := fewer.subset member

theorem Renumbers.trans (first : Renumbers next keys next' keys')
    (last : Renumbers next' keys' next'' keys'')
    : Renumbers next keys next'' keys'' where
  grows := Nat.le_trans first.grows last.grows
  kept key member known :=
    first.kept key (last.kept key member (Nat.lt_of_lt_of_le known first.grows)) known

theorem Renumbers.stays_gone (renumbers : Renumbers next keys next' keys') {number : Nat}
    (known : number < next) (gone : number ∉ keys.map Prod.fst)
    : number ∉ keys'.map Prod.fst := by
  intro member
  obtain ⟨key, found, rfl⟩ := List.mem_map.mp member
  exact gone (List.mem_map_of_mem (renumbers.kept key found known))

theorem Numbered.unique (numbered : Numbered next keys) {number : Nat} {first last : κ}
    (found : (number, first) ∈ keys) (found' : (number, last) ∈ keys)
    : first = last :=
  (Prod.mk.inj (List.inj_on_of_nodup_map numbered.distinct found found' rfl)).2

/-- Fresh numbers for keys, from `next` on. -/
def numberFrom : Nat → List κ → List (Nat × κ)
  | _, [] => []
  | next, key :: rest => (next, key) :: numberFrom (next + 1) rest

/-- Fresh numbers lie between the next one before and after, by induction on the keys. -/
theorem numberFrom_bounds (next : Nat) {fresh : List κ} {key : Nat × κ}
    (member : key ∈ numberFrom next fresh)
    : next ≤ key.1 ∧ key.1 < next + fresh.length := by
  induction fresh generalizing next with
  | nil => exact absurd member List.not_mem_nil
  | cons _ rest ih =>
      rw [List.length_cons]
      rcases List.mem_cons.mp member with rfl | later
      · dsimp only
        omega
      · have := ih (next + 1) later
        omega

/-- Fresh numbers are distinct, by induction on the keys. -/
theorem numberFrom_distinct (next : Nat) (fresh : List κ)
    : ((numberFrom next fresh).map Prod.fst).Nodup := by
  induction fresh generalizing next with
  | nil => exact .nil
  | cons _ rest ih =>
      refine List.nodup_cons.mpr ⟨?_, ih (next + 1)⟩
      intro again
      obtain ⟨key, later, same⟩ := List.mem_map.mp again
      have := numberFrom_bounds (next + 1) later
      omega

theorem Numbered.replace {before gone after : List (Nat × κ)}
    (numbered : Numbered next (before ++ gone ++ after)) (fresh : List κ)
    : Numbered (next + fresh.length) (before ++ numberFrom next fresh ++ after)
      ∧ Renumbers next (before ++ gone ++ after) (next + fresh.length)
          (before ++ numberFrom next fresh ++ after) := by
  have outer : Numbered next (before ++ after) := by
    apply numbered.sublist
    rw [List.append_assoc]
    exact (List.sublist_append_right gone after).append_left before
  have outside (key : Nat × κ) (member : key ∈ before ∨ key ∈ after) : key.1 < next :=
    outer.below key (List.mem_append.mpr member)
  have cases_of {key : Nat × κ} (member : key ∈ before ++ numberFrom next fresh ++ after)
      : key ∈ numberFrom next fresh ∨ (key ∈ before ∨ key ∈ after) := by
    rcases List.mem_append.mp member with inner | last
    · rcases List.mem_append.mp inner with first | middle
      · exact .inr (.inl first)
      · exact .inl middle
    · exact .inr (.inr last)
  refine ⟨⟨?_, ?_⟩, ⟨Nat.le_add_right _ _, ?_⟩⟩
  · have rotated : ((before ++ numberFrom next fresh ++ after).map Prod.fst).Perm
        ((numberFrom next fresh ++ (before ++ after)).map Prod.fst) := by
      apply List.Perm.map
      rw [← List.append_assoc]
      exact List.perm_append_comm.append_right after
    rw [rotated.nodup_iff, List.map_append]
    refine (numberFrom_distinct next fresh).append outer.distinct ?_
    intro number new old
    obtain ⟨key, later, rfl⟩ := List.mem_map.mp new
    obtain ⟨known, member, same⟩ := List.mem_map.mp old
    have := outer.below known member
    have := numberFrom_bounds next later
    omega
  · intro key member
    rcases cases_of member with new | old
    · exact (numberFrom_bounds next new).2
    · exact Nat.lt_add_right _ (outside key old)
  · intro key member known
    rcases cases_of member with new | old
    · have := numberFrom_bounds next new
      omega
    · rw [List.append_assoc]
      rcases old with first | last
      · exact List.mem_append_left _ first
      · exact List.mem_append_right _ (List.mem_append_right _ last)

end Hane.Foundations
