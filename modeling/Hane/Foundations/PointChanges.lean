import Mathlib.Data.List.Nodup
import Mathlib.Logic.Function.Basic

/-! Changes of single places of a store, each made only where the store holds what is expected, and
how a list of them takes a store to another one and back.
-/

namespace Hane.Foundations

variable {κ β : Type}

/-- One place of a store with what it holds before and after; nothing where it is empty. -/
structure Change (κ β : Type) where
  place : κ
  old : Option β
  new : Option β

namespace Change

/-- A change is made only where the store holds the old value. -/
def make [DecidableEq κ] [DecidableEq β] (change : Change κ β) (store : κ → Option β)
    : Option (κ → Option β) :=
  if store change.place = change.old then some (Function.update store change.place change.new)
  else none

def makeAll [DecidableEq κ] [DecidableEq β]
    : List (Change κ β) → (κ → Option β) → Option (κ → Option β)
  | [], store => some store
  | change :: rest, store => (change.make store).bind (makeAll rest)

def inverse (change : Change κ β) : Change κ β := ⟨change.place, change.new, change.old⟩

/-- Changes of distinct places that say what two stores hold there, all other places being alike. -/
structure Between (changes : List (Change κ β)) (before after : κ → Option β) : Prop where
  distinct : (changes.map Change.place).Nodup
  old : ∀ change ∈ changes, before change.place = change.old
  new : ∀ change ∈ changes, after change.place = change.new
  others : ∀ place ∉ changes.map Change.place, before place = after place

theorem Between.inverse {changes : List (Change κ β)} {before after : κ → Option β}
    (between : Between changes before after)
    : Between (changes.reverse.map Change.inverse) after before := by
  have places : (changes.reverse.map Change.inverse).map Change.place
      = (changes.map Change.place).reverse := by
    rw [List.map_map, List.map_reverse]
    rfl
  constructor
  · rw [places]
    exact List.nodup_reverse.mpr between.distinct
  · intro change member
    obtain ⟨forward, present, rfl⟩ := List.mem_map.mp member
    exact between.new forward (List.mem_reverse.mp present)
  · intro change member
    obtain ⟨forward, present, rfl⟩ := List.mem_map.mp member
    exact between.old forward (List.mem_reverse.mp present)
  · intro place outside
    rw [places, List.mem_reverse] at outside
    exact (between.others place outside).symm

/-- The changes between two stores take the first to the second, by induction over them: each one
moves the store to which the rest lead.
-/
theorem Between.makeAll_eq [DecidableEq κ] [DecidableEq β] {changes : List (Change κ β)}
    {before after : κ → Option β} (between : Between changes before after)
    : makeAll changes before = some after := by
  induction changes generalizing before with
  | nil => exact congrArg some (funext fun place => between.others place List.not_mem_nil)
  | cons change rest ih =>
      obtain ⟨fresh, distinct⟩ := List.nodup_cons.mp between.distinct
      have moved : Between rest (Function.update before change.place change.new) after := by
        refine ⟨distinct, ?_, fun later member => between.new later (List.mem_cons_of_mem _ member),
          ?_⟩
        · intro later member
          have apart : later.place ≠ change.place := fun same =>
            fresh (same ▸ List.mem_map_of_mem member)
          rw [Function.update_of_ne apart]
          exact between.old later (List.mem_cons_of_mem _ member)
        · intro place outside
          by_cases here : place = change.place
          · rw [here, Function.update_self, between.new change List.mem_cons_self]
          · rw [Function.update_of_ne here]
            exact between.others place fun inside =>
              (List.mem_cons.mp inside).elim here outside
      rw [makeAll, make, if_pos (between.old change List.mem_cons_self), Option.bind_some,
        ih moved]

end Change

end Hane.Foundations
