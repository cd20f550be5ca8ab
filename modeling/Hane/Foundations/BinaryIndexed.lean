import Mathlib.Algebra.BigOperators.Intervals
import Mathlib.Data.Nat.Bitwise
import Mathlib.Tactic.Common
import Mathlib.Tactic.Ring

/-! Binary indexed sums: every node of a table accounts for a window of slots that ends at it
and is as long as the node's lowest bit.
-/

namespace Hane.Foundations

/-- The lowest set bit: `node & -node`, the negation being the complement of the predecessor.
-/
def lowestBit (node : Nat) : Nat := Nat.ldiff node (node - 1)

theorem lowestBit_odd (half : Nat) : lowestBit (2 * half + 1) = 1 := by
  have bits := Nat.ldiff_bit true half false half
  have nothing : Nat.ldiff half half = 0 := by
    apply Nat.eq_of_testBit_eq
    intro place
    simp [Nat.testBit_ldiff]
  simpa [Nat.bit_val, lowestBit, nothing] using bits

theorem lowestBit_double {half : Nat} (positive : 0 < half)
    : lowestBit (2 * half) = 2 * lowestBit half := by
  have bits := Nat.ldiff_bit false half true (half - 1)
  have pred : 2 * (half - 1) + 1 = 2 * half - 1 := by omega
  simpa [Nat.bit_val, lowestBit, pred] using bits

/-- Clearing the lowest bit subtracts it, by strong induction on halving. -/
theorem and_pred (node : Nat) : node &&& (node - 1) = node - lowestBit node := by
  induction node using Nat.strongRecOn with
  | _ node ih =>
      rcases Nat.even_or_odd' node with ⟨half, rfl | rfl⟩
      · rcases Nat.eq_zero_or_pos half with rfl | positive
        · simp
        · have bits := Nat.land_bit false half true (half - 1)
          have pred : 2 * (half - 1) + 1 = 2 * half - 1 := by omega
          simp only [Nat.bit_val, Bool.toNat_false, Bool.toNat_true, Bool.false_and, pred,
            Nat.add_zero] at bits
          rw [bits, ih half (by omega), lowestBit_double positive]
          omega
      · have bits := Nat.land_bit true half false half
        simpa [Nat.bit_val, lowestBit_odd] using bits

/-- Every positive number is an odd multiple of its lowest bit, a power of two, by strong
induction on halving.
-/
theorem exists_odd_multiple {node : Nat} (positive : 0 < node)
    : ∃ exponent high,
        node = 2 ^ exponent * (2 * high + 1) ∧ lowestBit node = 2 ^ exponent := by
  induction node using Nat.strongRecOn with
  | _ node ih =>
      rcases Nat.even_or_odd' node with ⟨half, rfl | rfl⟩
      · obtain ⟨exponent, high, split, bit⟩ := ih half (by omega) (by omega)
        refine ⟨exponent + 1, high, ?_, ?_⟩
        · rw [Nat.pow_succ', Nat.mul_assoc, ← split]
        · rw [lowestBit_double (by omega), bit, Nat.pow_succ']
      · exact ⟨0, half, by simp, lowestBit_odd half⟩

/-- An odd multiple of a power of two has that power as its lowest bit, by induction on it. -/
theorem lowestBit_odd_multiple (exponent high : Nat)
    : lowestBit (2 ^ exponent * (2 * high + 1)) = 2 ^ exponent := by
  induction exponent with
  | zero =>
      rw [Nat.pow_zero, Nat.one_mul]
      exact lowestBit_odd high
  | succ exponent ih =>
      have positive : 0 < 2 ^ exponent * (2 * high + 1) :=
        Nat.mul_pos (Nat.two_pow_pos exponent) (Nat.succ_pos _)
      rw [Nat.pow_succ', Nat.mul_assoc, lowestBit_double positive, ih]

theorem lowestBit_pos {node : Nat} (positive : 0 < node) : 0 < lowestBit node := by
  obtain ⟨exponent, _, _, bit⟩ := exists_odd_multiple positive
  rw [bit]
  exact Nat.two_pow_pos exponent

-- Windows

/-- A node accounts for the slots of its window, the `lowestBit` ones that end at it. -/
def Covers (node slot : Nat) : Prop := node - lowestBit node < slot ∧ slot ≤ node

theorem Covers.self {node : Nat} (positive : 0 < node) : Covers node node := by
  have bit := lowestBit_pos positive
  exact ⟨by omega, Nat.le_refl node⟩

/-- The nodes above a slot's own are the ones that account for the slot its lowest bit leads
to. Witness: whichever of the two lowest bits is the smaller one divides both sides.
-/
theorem covers_next_iff (node : Nat) {slot : Nat} (positive : 0 < slot)
    : Covers node (slot + lowestBit slot) ↔ Covers node slot ∧ node ≠ slot := by
  obtain ⟨low, half, split, bit⟩ := exists_odd_multiple positive
  rcases Nat.eq_zero_or_pos node with rfl | above
  · have bound := lowestBit_pos positive
    unfold Covers
    omega
  obtain ⟨high, whole, split', bit'⟩ := exists_odd_multiple above
  have lower : node - lowestBit node = 2 ^ high * (2 * whole) := by
    rw [bit', split', Nat.mul_add, Nat.mul_one, Nat.add_sub_cancel]
  have next : slot + lowestBit slot = 2 ^ low * (2 * half + 2) := by
    rw [bit, split]
    ring
  unfold Covers
  rw [lower, next]
  rcases Nat.lt_or_ge low high with smaller | larger
  · -- The node's window starts and ends at multiples of twice the slot's bit.
    obtain ⟨gap, rfl⟩ := Nat.exists_eq_add_of_lt smaller
    have start : 2 ^ (low + gap + 1) * (2 * whole) = 2 ^ low * (2 * (2 ^ gap * (2 * whole))) := by
      ring
    have stop : node = 2 ^ low * (2 * (2 ^ gap * (2 * whole + 1))) := by
      rw [split']
      ring
    rw [start, stop, split]
    simp only [Nat.mul_lt_mul_left (Nat.two_pow_pos low), Nat.mul_le_mul_left_iff (Nat.two_pow_pos low),
      ne_eq, Nat.mul_right_inj (Nat.two_pow_pos low).ne']
    omega
  · -- The slot is a multiple of the node's bit, so the node's window holds none but the node.
    obtain ⟨gap, rfl⟩ := Nat.exists_eq_add_of_le larger
    have here : slot = 2 ^ high * (2 ^ gap * (2 * half + 1)) := by
      rw [split]
      ring
    have there : 2 ^ (high + gap) * (2 * half + 2) = 2 ^ high * (2 * (2 ^ gap * (half + 1))) := by
      ring
    rw [there, here, split']
    simp only [Nat.mul_lt_mul_left (Nat.two_pow_pos high), Nat.mul_le_mul_left_iff (Nat.two_pow_pos high),
      ne_eq, Nat.mul_right_inj (Nat.two_pow_pos high).ne']
    omega

/-- `child` is one of the nodes whose window ends right where the window of another begins
inside the window of `node`.
-/
def IsChild (node child : Nat) : Prop := 0 < child ∧ child + lowestBit child = node

instance (node child : Nat) : Decidable (IsChild node child) := by
  unfold IsChild
  infer_instance

theorem IsChild.lt {node child : Nat} (isChild : IsChild node child) : child < node := by
  have bit := lowestBit_pos isChild.1
  have sum := isChild.2
  omega

/-- A slot below a node in its window is in the window of one of its children, by strong
induction on the distance, one lowest bit at a time.
-/
theorem Covers.exists_child {node slot : Nat} (covers : Covers node slot) (positive : 0 < slot)
    (below : slot ≠ node)
    : ∃ child, IsChild node child ∧ Covers child slot := by
  induction distance : node - slot using Nat.strongRecOn generalizing slot with
  | _ distance ih =>
      have bit := lowestBit_pos positive
      have next := (covers_next_iff _ positive).mpr ⟨covers, below.symm⟩
      have bound := covers.2
      by_cases reached : slot + lowestBit slot = node
      · exact ⟨slot, ⟨positive, reached⟩, .self positive⟩
      · obtain ⟨child, isChild, inside⟩ :=
          ih (node - (slot + lowestBit slot)) (by omega) next (by omega) reached rfl
        exact ⟨child, isChild, ((covers_next_iff _ positive).mp inside).1⟩

/-- A node accounts for all that its children account for, by strong induction on the distance
to the child.
-/
theorem IsChild.covers {node child slot : Nat} (isChild : IsChild node child)
    (positive : 0 < slot) (inside : Covers child slot)
    : Covers node slot := by
  induction distance : child - slot using Nat.strongRecOn generalizing slot with
  | _ distance ih =>
      have bit := lowestBit_pos positive
      have climb (next : Covers node (slot + lowestBit slot)) : Covers node slot :=
        ((covers_next_iff _ positive).mp next).1
      apply climb
      by_cases reached : child = slot
      · have top := Covers.self (isChild.1.trans isChild.lt)
        rwa [← reached, isChild.2]
      · have next := (covers_next_iff _ positive).mpr ⟨inside, reached⟩
        have bound := next.2
        exact ih (child - (slot + lowestBit slot)) (by omega) (by omega) next rfl

/-- A slot is in the window of at most one child of a node, by strong induction on its distance
to the node.
-/
theorem IsChild.unique {node first second slot : Nat} (left : IsChild node first)
    (right : IsChild node second) (positive : 0 < slot) (inFirst : Covers first slot)
    (inSecond : Covers second slot)
    : first = second := by
  induction distance : node - slot using Nat.strongRecOn generalizing slot with
  | _ distance ih =>
      have bit := lowestBit_pos positive
      have firstBelow := left.lt
      have secondBelow := right.lt
      by_cases atFirst : first = slot
      · by_contra differ
        have next := (covers_next_iff _ positive).mpr ⟨inSecond, fun same => differ (atFirst.trans same.symm)⟩
        have climbed := left.2
        have bound := next.2
        rw [atFirst] at climbed
        omega
      · by_cases atSecond : second = slot
        · have next := (covers_next_iff _ positive).mpr ⟨inFirst, atFirst⟩
          have climbed := right.2
          have bound := next.2
          rw [atSecond] at climbed
          omega
        · have inFirst := (covers_next_iff _ positive).mpr ⟨inFirst, atFirst⟩
          have inSecond := (covers_next_iff _ positive).mpr ⟨inSecond, atSecond⟩
          have bound := inFirst.2
          exact ih (node - (slot + lowestBit slot)) (by omega) (by omega) inFirst inSecond rfl

-- Sums

section Sums

variable {M : Type*} [AddCommMonoid M] (value : Nat → M)

/-- The sum of the first `stop` slots. -/
def prefixSum (stop : Nat) : M := ∑ slot ∈ Finset.Ioc 0 stop, value slot

def windowSum (node : Nat) : M := ∑ slot ∈ Finset.Ioc (node - lowestBit node) node, value slot

@[simp] theorem prefixSum_zero : prefixSum value 0 = 0 := by simp [prefixSum]

theorem prefixSum_succ (stop : Nat)
    : prefixSum value (stop + 1) = prefixSum value stop + value (stop + 1) :=
  Finset.sum_Ioc_succ_top (Nat.zero_le stop) value

theorem prefixSum_eq_windowSum (node : Nat)
    : prefixSum value node = prefixSum value (node - lowestBit node) + windowSum value node :=
  (Finset.sum_Ioc_consecutive value (Nat.zero_le _) (Nat.sub_le _ _)).symm

/-- A window is its node's own slot and the windows of the node's children, which tile the
rest.
-/
theorem windowSum_eq_children {node : Nat} (positive : 0 < node)
    : windowSum value node
      = value node + ∑ child ∈ (Finset.range node).filter (IsChild node), windowSum value child := by
  have bit := lowestBit_pos positive
  have own : Finset.Ioc (node - lowestBit node) node
      = insert node (Finset.Ioc (node - lowestBit node) (node - 1)) := by
    ext slot
    simp only [Finset.mem_Ioc, Finset.mem_insert]
    omega
  have tiles : Finset.Ioc (node - lowestBit node) (node - 1)
      = ((Finset.range node).filter (IsChild node)).biUnion
          (fun child => Finset.Ioc (child - lowestBit child) child) := by
    ext slot
    simp only [Finset.mem_Ioc, Finset.mem_biUnion, Finset.mem_filter, Finset.mem_range]
    constructor
    · rintro ⟨lower, upper⟩
      have covers : Covers node slot := ⟨lower, by omega⟩
      obtain ⟨child, isChild, inside⟩ := covers.exists_child (by omega) (by omega)
      exact ⟨child, ⟨isChild.lt, isChild⟩, inside⟩
    · rintro ⟨child, ⟨below, isChild⟩, inside⟩
      have covers := isChild.covers (Nat.zero_lt_of_lt inside.1) inside
      have bound := inside.2
      exact ⟨covers.1, by omega⟩
  have disjoint : Set.PairwiseDisjoint ((Finset.range node).filter (IsChild node) : Set Nat)
      (fun child => Finset.Ioc (child - lowestBit child) child) := by
    intro first left second right differ
    apply Finset.disjoint_left.mpr
    intro slot inFirst inSecond
    apply differ
    rw [Finset.mem_Ioc] at inFirst inSecond
    have left := (Finset.mem_filter.mp (Finset.mem_coe.mp left)).2
    have right := (Finset.mem_filter.mp (Finset.mem_coe.mp right)).2
    exact left.unique right (Nat.zero_lt_of_lt inFirst.1) inFirst inSecond
  unfold windowSum
  rw [own, Finset.sum_insert, tiles, Finset.sum_biUnion disjoint]
  simp
  omega

/-- A node's own slot and the windows of those of its children that are below `bound`. -/
def partialSum (bound node : Nat) : M :=
  value node + ∑ child ∈ (Finset.range bound).filter (IsChild node), windowSum value child

@[simp] theorem partialSum_zero (node : Nat) : partialSum value 0 node = value node := by
  simp [partialSum]

theorem partialSum_eq_windowSum {bound node : Nat} (positive : 0 < node) (reached : node ≤ bound)
    : partialSum value bound node = windowSum value node := by
  rw [windowSum_eq_children value positive]
  unfold partialSum
  congr 2
  ext child
  simp only [Finset.mem_filter, Finset.mem_range]
  constructor
  · intro ⟨_, isChild⟩
    exact ⟨isChild.lt, isChild⟩
  · intro ⟨below, isChild⟩
    exact ⟨Nat.lt_of_lt_of_le below reached, isChild⟩

theorem partialSum_succ (bound node : Nat)
    : partialSum value (bound + 1) node
      = partialSum value bound node + if IsChild node bound then windowSum value bound else 0 := by
  unfold partialSum
  rw [Finset.range_add_one, Finset.filter_insert]
  split
  · rw [Finset.sum_insert (by simp)]
    rw [add_assoc, add_comm (windowSum value bound)]
  · rw [add_zero]

end Sums

end Hane.Foundations
