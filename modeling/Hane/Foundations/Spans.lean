import Mathlib.Tactic.Common
import Mathlib.Data.List.Chain
import Mathlib.Data.List.Pairwise

/-! Half-open ranges of offsets, as pairs of a start and a stop. -/

namespace Hane.Foundations

/-- Two ranges share no offset: one ends before the other starts. -/
def Apart (first second : Nat × Nat) : Prop := first.2 ≤ second.1 ∨ second.2 ≤ first.1

theorem Apart.symm {first second : Nat × Nat} (apart : Apart first second) : Apart second first :=
  Or.symm apart

/-- Nonempty ranges each of which stops before the next one starts all stop before every later
one starts, by induction over the list.
-/
theorem pairwise_of_adjacent {ranges : List (Nat × Nat)}
    (adjacent : ranges.IsChain fun first second => first.2 ≤ second.1)
    (nonempty : ∀ range ∈ ranges, range.1 < range.2)
    : ranges.Pairwise fun first second => first.2 ≤ second.1 := by
  induction ranges with
  | nil => exact .nil
  | cons first rest ih =>
      have later := ih adjacent.tail fun range held => nonempty range (.tail _ held)
      apply List.Pairwise.cons _ later
      intro range held
      cases rest with
      | nil => cases held
      | cons second others =>
          have next : first.2 ≤ second.1 := adjacent.rel
          rcases List.mem_cons.mp held with same | beyond
          · rw [same]
            exact next
          · have ordered := List.rel_of_pairwise_cons later beyond
            have filled := nonempty second (.tail _ (.head _))
            exact next.trans (filled.le.trans ordered)

theorem pairwise_apart_of_perm {ranges sorted : List (Nat × Nat)} (same : sorted.Perm ranges)
    (adjacent : sorted.IsChain fun first second => first.2 ≤ second.1)
    (nonempty : ∀ range ∈ ranges, range.1 < range.2)
    : ranges.Pairwise Apart := by
  have ordered := pairwise_of_adjacent adjacent fun range held =>
    nonempty range (same.mem_iff.mp held)
  apply (same.pairwise_iff Apart.symm).mp
  exact ordered.imp Or.inl

end Hane.Foundations
