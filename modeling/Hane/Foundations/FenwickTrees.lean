import Hane.Foundations.BinaryIndexed
import Mathlib.Algebra.Order.BigOperators.Group.List

/-! Prefix sums kept in a binary indexed table: building it, reading a prefix off it, changing
one value and searching for the highest prefix within a target.
-/

namespace Hane.Foundations.Fenwick

variable {M : Type*} [AddCommMonoid M]

/-- Adds a finished node to its parent. -/
def buildStep (tree : List M) (index : Nat) : List M :=
  let parent := index + lowestBit index
  if parent < tree.length then
    tree.set parent (tree.getD parent 0 + tree.getD index 0)
  else
    tree

def build (values : List M) : List M :=
  (List.range' 1 values.length).foldl buildStep (0 :: values)

def prefixLoop (tree : List M) (index : Nat) (sum : M) : M :=
  if index = 0 then
    sum
  else
    prefixLoop tree (index &&& (index - 1)) (sum + tree.getD index 0)
termination_by index
decreasing_by
  have bit := lowestBit_pos (Nat.pos_of_ne_zero ‹_›)
  rw [and_pred]
  omega

/-- The sum of the first `exclusiveEnd` values. -/
def prefixTotal (tree : List M) (exclusiveEnd : Nat) : M :=
  prefixLoop tree (min exclusiveEnd (tree.length - 1)) 0

/-- Changes a node and every node above it that accounts for it. -/
def climb (tree : List M) (node : Nat) (change : M → M) : List M :=
  if node < tree.length ∧ 0 < node then
    climb (tree.set node (change (tree.getD node 0))) (node + lowestBit node) change
  else
    tree
termination_by tree.length - node
decreasing_by
  have bit := lowestBit_pos (‹_ ∧ _› : _ ∧ _).2
  rw [List.length_set]
  omega

/-- Doubles the step while that stays below `len`. -/
def raiseStep (len step : Nat) : Nat :=
  if step * 2 < len ∧ 0 < step then raiseStep len (step * 2) else step
termination_by len - step

-- What the table holds

/-- Value number `slot`, counted from one. -/
def slotValue (values : List M) (slot : Nat) : M := values.getD (slot - 1) 0

/-- The table holds the window sums of the values. -/
structure Indexes (tree values : List M) : Prop where
  length : tree.length = values.length + 1
  root : tree.getD 0 0 = 0
  window :
    ∀ node, 0 < node → node ≤ values.length
      → tree.getD node 0 = windowSum (slotValue values) node

/-- Prefix sums over slots are sums of list prefixes, by induction on the prefix. -/
theorem prefixSum_slotValue (values : List M) (stop : Nat)
    : prefixSum (slotValue values) stop = (values.take stop).sum := by
  induction stop with
  | zero => simp
  | succ stop ih =>
      rw [prefixSum_succ, ih, List.take_add_one, List.sum_append]
      simp only [slotValue, Nat.add_sub_cancel, List.getD_eq_getElem?_getD]
      cases values[stop]? <;> simp

private theorem buildStep_partialSum {values tree : List M} {bound : Nat}
    (length : tree.length = values.length + 1) (positive : 0 < bound)
    (inside : bound ≤ values.length)
    (holds :
      ∀ node, 0 < node → node ≤ values.length
        → tree.getD node 0 = partialSum (slotValue values) bound node)
    (node : Nat) (above : 0 < node) (within : node ≤ values.length)
    : (buildStep tree bound).getD node 0 = partialSum (slotValue values) (bound + 1) node := by
  have finished : tree.getD bound 0 = windowSum (slotValue values) bound := by
    rw [holds bound positive inside, partialSum_eq_windowSum _ positive (Nat.le_refl bound)]
  have current := holds node above within
  rw [partialSum_succ, ← current, ← finished]
  simp only [buildStep, List.getD_eq_getElem?_getD]
  by_cases isParent : IsChild node bound
  · have parent : bound + lowestBit bound = node := isParent.2
    have fits : node < tree.length := by omega
    rw [if_pos isParent, parent, if_pos fits, List.getElem?_set_self fits]
    rfl
  · have other : bound + lowestBit bound ≠ node := fun parent => isParent ⟨positive, parent⟩
    rw [if_neg isParent, add_zero]
    split
    · rw [List.getElem?_set_ne other]
    · rfl

theorem length_buildStep (tree : List M) (index : Nat)
    : (buildStep tree index).length = tree.length := by
  simp only [buildStep]
  split <;> simp

theorem root_buildStep (tree : List M) {index : Nat} (positive : 0 < index)
    : (buildStep tree index).getD 0 0 = tree.getD 0 0 := by
  have elsewhere : index + lowestBit index ≠ 0 := by omega
  simp only [buildStep]
  split
  · simp only [List.getD_eq_getElem?_getD, List.getElem?_set_ne elsewhere]
  · rfl

/-- Building holds the window sums, by induction on the nodes finished so far. -/
theorem Indexes.build (values : List M) : Indexes (build values) values := by
  have upTo (count : Nat) (inside : count ≤ values.length)
      : ((List.range' 1 count).foldl buildStep (0 :: values)).length = values.length + 1
        ∧ ((List.range' 1 count).foldl buildStep (0 :: values)).getD 0 0 = 0
        ∧ ∀ node, 0 < node → node ≤ values.length
          → ((List.range' 1 count).foldl buildStep (0 :: values)).getD node 0
            = partialSum (slotValue values) (1 + count) node := by
    induction count with
    | zero =>
        refine ⟨rfl, rfl, fun node above within => ?_⟩
        have childless : ¬ IsChild node 0 := fun isChild => absurd isChild.1 (Nat.lt_irrefl 0)
        have own : partialSum (slotValue values) (0 + 1) node = slotValue values node := by
          rw [partialSum_succ, partialSum_zero, if_neg childless, add_zero]
        rw [Nat.add_comm, own]
        obtain ⟨slot, rfl⟩ := Nat.exists_eq_succ_of_ne_zero above.ne'
        rfl
    | succ count ih =>
        obtain ⟨length, root, holds⟩ := ih (by omega)
        rw [List.range'_1_concat, List.foldl_append, List.foldl_cons, List.foldl_nil]
        refine ⟨?_, ?_, ?_⟩
        · rw [length_buildStep, length]
        · rw [root_buildStep _ (by omega), root]
        · rw [← Nat.add_assoc]
          exact buildStep_partialSum length (by omega) (by omega) holds
  obtain ⟨length, root, holds⟩ := upTo values.length (Nat.le_refl _)
  refine ⟨length, root, fun node above within => ?_⟩
  exact (holds node above within).trans (partialSum_eq_windowSum _ above (by omega))

section Indexes

variable {tree values : List M}

/-- Walking down from a node collects the prefix that ends there, by strong induction on the
node.
-/
theorem Indexes.prefixLoop (indexes : Indexes tree values) {index : Nat}
    (inside : index ≤ values.length) (sum : M)
    : prefixLoop tree index sum = sum + (values.take index).sum := by
  rw [← prefixSum_slotValue]
  induction index using Nat.strongRecOn generalizing sum with
  | _ index ih =>
      unfold Fenwick.prefixLoop
      split
      case isTrue zero => rw [zero, prefixSum_zero, add_zero]
      case isFalse nonzero =>
        have positive := Nat.pos_of_ne_zero nonzero
        have bit := lowestBit_pos positive
        rw [and_pred, ih _ (by omega) (by omega), indexes.window index positive inside,
          prefixSum_eq_windowSum _ index, add_assoc, add_comm (windowSum _ _)]

theorem Indexes.prefixTotal (indexes : Indexes tree values) (exclusiveEnd : Nat)
    : prefixTotal tree exclusiveEnd = (values.take exclusiveEnd).sum := by
  have size : tree.length - 1 = values.length := by
    rw [indexes.length, Nat.add_sub_cancel]
  simp only [Fenwick.prefixTotal]
  rw [size, indexes.prefixLoop (Nat.min_le_right _ _), zero_add, ← List.take_eq_take_min]

/-- Climbing from a node changes exactly the nodes that account for it, by strong induction on
the distance to the end of the table.
-/
theorem climb_getD (tree : List M) {node : Nat} (positive : 0 < node) (change : M → M)
    : (climb tree node change).length = tree.length
      ∧ ∀ other, other < tree.length →
        ((Covers other node
            → (climb tree node change).getD other 0 = change (tree.getD other 0))
          ∧ (¬ Covers other node → (climb tree node change).getD other 0 = tree.getD other 0)) := by
  induction distance : tree.length - node using Nat.strongRecOn generalizing tree node with
  | _ distance ih =>
      unfold climb
      split
      case isFalse past =>
        refine ⟨rfl, fun other bound => ⟨fun covers => ?_, fun _ => rfl⟩⟩
        have top := covers.2
        omega
      case isTrue inside =>
        have bit := lowestBit_pos positive
        obtain ⟨length, holds⟩ := ih _ (by rw [List.length_set]; omega)
          (tree.set node (change (tree.getD node 0)))
          (show 0 < node + lowestBit node by omega) rfl
        rw [List.length_set] at length holds
        refine ⟨length, fun other bound => ?_⟩
        obtain ⟨changed, kept⟩ := holds other bound
        have next := covers_next_iff other positive
        simp only [List.getD_eq_getElem?_getD] at changed kept ⊢
        by_cases here : other = node
        · subst here
          rw [kept fun covers => (next.mp covers).2 rfl, List.getElem?_set_self bound]
          exact ⟨fun _ => rfl, fun outside => absurd (Covers.self positive) outside⟩
        · rw [List.getElem?_set_ne (Ne.symm here)] at changed kept
          exact ⟨fun covers => changed (next.mpr ⟨covers, here⟩),
            fun outside => kept fun covers => outside (next.mp covers).1⟩

/-- Changing one value changes that value alone in the windows that account for it. -/
theorem windowSum_set {index : Nat} (inside : index < values.length) (value : M) (node : Nat)
    : (Covers node (index + 1)
        → ∃ rest,
            windowSum (slotValue values) node = values[index] + rest
            ∧ windowSum (slotValue (values.set index value)) node = value + rest)
      ∧ (¬ Covers node (index + 1)
        → windowSum (slotValue (values.set index value)) node
          = windowSum (slotValue values) node) := by
  have elsewhere (slot : Nat) (positive : 0 < slot) (other : slot ≠ index + 1)
      : slotValue (values.set index value) slot = slotValue values slot := by
    simp only [slotValue, List.getD_eq_getElem?_getD]
    rw [List.getElem?_set_ne (by omega)]
  constructor
  · intro covers
    have member : index + 1 ∈ Finset.Ioc (node - lowestBit node) node :=
      Finset.mem_Ioc.mpr covers
    have same : ∑ slot ∈ (Finset.Ioc (node - lowestBit node) node).erase (index + 1),
          slotValue (values.set index value) slot
        = ∑ slot ∈ (Finset.Ioc (node - lowestBit node) node).erase (index + 1),
          slotValue values slot := by
      apply Finset.sum_congr rfl
      intro slot erased
      obtain ⟨other, inWindow⟩ := Finset.mem_erase.mp erased
      exact elsewhere slot (Nat.zero_lt_of_lt (Finset.mem_Ioc.mp inWindow).1) other
    have fresh : slotValue (values.set index value) (index + 1) = value := by
      simp [slotValue, List.getD_eq_getElem?_getD, inside]
    have old : slotValue values (index + 1) = values[index] := by
      simp [slotValue, List.getD_eq_getElem?_getD, inside]
    refine ⟨∑ slot ∈ (Finset.Ioc (node - lowestBit node) node).erase (index + 1),
      slotValue values slot, ?_, ?_⟩
    · rw [windowSum, ← Finset.add_sum_erase _ (slotValue values) member, old]
    · rw [windowSum, ← Finset.add_sum_erase _ _ member, fresh, same]
  · intro outside
    apply Finset.sum_congr rfl
    intro slot inWindow
    have bounds := Finset.mem_Ioc.mp inWindow
    apply elsewhere slot (Nat.zero_lt_of_lt bounds.1)
    intro same
    exact outside (same ▸ bounds)

/-- Climbing from a value's node keeps the table in step with the values when the change turns
sums with the old value into sums with the new one.
-/
theorem Indexes.climb (indexes : Indexes tree values) {index : Nat}
    (inside : index < values.length) {value : M} {change : M → M}
    (shifts : ∀ rest, change (values[index] + rest) = value + rest)
    : Indexes (climb tree (index + 1) change) (values.set index value) := by
  obtain ⟨length, holds⟩ := climb_getD tree (Nat.succ_pos index) change
  refine {
    length := ?_
    root := ?_
    window := ?_
  }
  · rw [length, indexes.length, List.length_set]
  · obtain ⟨-, kept⟩ := holds 0 (by rw [indexes.length]; omega)
    rw [kept fun covers => absurd covers.2 (by omega), indexes.root]
  · intro node positive within
    rw [List.length_set] at within
    obtain ⟨changed, kept⟩ := holds node (by rw [indexes.length]; omega)
    obtain ⟨counts, skips⟩ := windowSum_set inside value node
    by_cases covers : Covers node (index + 1)
    · obtain ⟨rest, before, after⟩ := counts covers
      rw [changed covers, indexes.window node positive within, before, after, shifts]
    · rw [kept covers, skips covers, indexes.window node positive within]

end Indexes

-- Search

/-- Raising a power of two gives one whose double reaches the length, by strong induction on
what is missing.
-/
theorem raiseStep_pow (len exponent : Nat)
    : ∃ top, raiseStep len (2 ^ exponent) = 2 ^ top ∧ len ≤ 2 ^ (top + 1) := by
  induction distance : len - 2 ^ exponent using Nat.strongRecOn generalizing exponent with
  | _ distance ih =>
      have positive := Nat.two_pow_pos exponent
      unfold raiseStep
      split
      case isTrue grows =>
        rw [← Nat.pow_succ] at grows ⊢
        have double := Nat.pow_succ 2 exponent
        exact ih (len - 2 ^ (exponent + 1)) (by omega) (exponent + 1) rfl
      case isFalse stops =>
        refine ⟨exponent, rfl, ?_⟩
        rw [Nat.pow_succ]
        omega

section Search

variable [LinearOrder M]

def searchLoop (tree : List M) (target : M) (step index : Nat) (sum : M) : Nat × M :=
  if step = 0 then
    (index, sum)
  else
    let next := index + step
    if next < tree.length ∧ sum + tree.getD next 0 ≤ target then
      searchLoop tree target (step / 2) next (sum + tree.getD next 0)
    else
      searchLoop tree target (step / 2) index sum
termination_by step
decreasing_by all_goals omega

/-- The highest index whose prefix sum is at most `target`, with that prefix sum. -/
def search (tree : List M) (target : M) : Nat × M :=
  searchLoop tree target (raiseStep tree.length 1) 0 0

/-- The highest number of leading values whose sum is at most `target`, with that sum. -/
structure Highest (values : List M) (target : M) (found : Nat × M) : Prop where
  bound : found.1 ≤ values.length
  sum : found.2 = (values.take found.1).sum
  reaches : found.2 ≤ target
  highest : ∀ stop, stop ≤ values.length → (values.take stop).sum ≤ target → stop ≤ found.1

theorem searchLoop_step (tree : List M) (target : M) {step : Nat} (positive : 0 < step)
    (index : Nat) (sum : M)
    : searchLoop tree target step index sum
      = if index + step < tree.length ∧ sum + tree.getD (index + step) 0 ≤ target then
          searchLoop tree target (step / 2) (index + step) (sum + tree.getD (index + step) 0)
        else
          searchLoop tree target (step / 2) index sum := by
  rw [searchLoop, if_neg positive.ne']

/-- `index` leads at most `target`, and no prefix within the target is `width` longer. -/
structure Within (values : List M) (target : M) (index width : Nat) : Prop where
  bound : index ≤ values.length
  reaches : (values.take index).sum ≤ target
  close :
    ∀ stop, stop ≤ values.length → (values.take stop).sum ≤ target → stop < index + width

variable [IsOrderedAddMonoid M] {tree values : List M} (indexes : Indexes tree values)
  (nonneg : ∀ value ∈ values, 0 ≤ value)

theorem sum_take_le {values : List M} (nonneg : ∀ value ∈ values, 0 ≤ value) {first last : Nat}
    (ordered : first ≤ last)
    : (values.take first).sum ≤ (values.take last).sum := by
  apply List.Sublist.sum_le_sum
  · exact (List.take_prefix_take_left ordered).sublist
  · intro value member
    exact nonneg value (List.mem_of_mem_take member)

include indexes nonneg

/-- One round of lifting halves the distance to the highest index, by whether the next node
still fits. The window of that node is exactly the step.
-/
theorem Indexes.searchRound {target : M} {exponent high : Nat}
    (within : Within values target (2 ^ (exponent + 1) * high) (2 ^ (exponent + 1)))
    : ∃ high',
        Within values target (2 ^ exponent * high') (2 ^ exponent)
        ∧ searchLoop tree target (2 ^ exponent) (2 ^ (exponent + 1) * high)
            (values.take (2 ^ (exponent + 1) * high)).sum
          = searchLoop tree target (2 ^ exponent / 2) (2 ^ exponent * high')
            (values.take (2 ^ exponent * high')).sum := by
  have step := Nat.two_pow_pos exponent
  have even : 2 ^ (exponent + 1) * high = 2 ^ exponent * (2 * high) := by
    rw [Nat.pow_succ, Nat.mul_assoc]
  have double : 2 ^ (exponent + 1) = 2 ^ exponent + 2 ^ exponent := by
    rw [Nat.pow_succ, Nat.mul_two]
  have next : 2 ^ exponent * (2 * high) + 2 ^ exponent = 2 ^ exponent * (2 * high + 1) := by
    rw [Nat.mul_add, Nat.mul_one]
  rw [even, double] at within
  rw [even]
  have node (inside : 2 ^ exponent * (2 * high + 1) ≤ values.length)
      : (values.take (2 ^ exponent * (2 * high))).sum
          + tree.getD (2 ^ exponent * (2 * high + 1)) 0
        = (values.take (2 ^ exponent * (2 * high + 1))).sum := by
    rw [indexes.window _ (by omega) inside, ← prefixSum_slotValue, ← prefixSum_slotValue,
      prefixSum_eq_windowSum _ (2 ^ exponent * (2 * high + 1)), lowestBit_odd_multiple, ← next,
      Nat.add_sub_cancel]
  have size := indexes.length
  rw [searchLoop_step _ _ step, next]
  split
  case isTrue fits =>
    have inside : 2 ^ exponent * (2 * high + 1) ≤ values.length := by omega
    rw [node inside] at fits ⊢
    refine ⟨2 * high + 1, ⟨inside, fits.2, fun stop bound reaches => ?_⟩, rfl⟩
    have close := within.close stop bound reaches
    omega
  case isFalse past =>
    refine ⟨2 * high, ⟨within.bound, within.reaches, fun stop bound reaches => ?_⟩, rfl⟩
    by_contra longer
    have inside : 2 ^ exponent * (2 * high + 1) ≤ values.length := by omega
    have shorter := sum_take_le nonneg (show 2 ^ exponent * (2 * high + 1) ≤ stop by omega)
    rw [node inside] at past
    exact past ⟨by omega, shorter.trans reaches⟩

/-- Lifting by powers of two ends at the highest index, by induction on the exponent. -/
theorem Indexes.searchLoop {target : M} {exponent high : Nat}
    (within : Within values target (2 ^ (exponent + 1) * high) (2 ^ (exponent + 1)))
    : Highest values target
        (searchLoop tree target (2 ^ exponent) (2 ^ (exponent + 1) * high)
          (values.take (2 ^ (exponent + 1) * high)).sum) := by
  induction exponent generalizing high with
  | zero =>
      obtain ⟨high', last, same⟩ := indexes.searchRound nonneg within
      rw [same]
      unfold Fenwick.searchLoop
      rw [if_pos (by decide)]
      refine ⟨last.bound, rfl, last.reaches, fun stop bound reaches => ?_⟩
      have close := last.close stop bound reaches
      omega
  | succ exponent ih =>
      obtain ⟨high', closer, same⟩ := indexes.searchRound nonneg within
      rw [same, Nat.pow_succ 2 exponent, Nat.mul_div_cancel _ (by decide), ← Nat.pow_succ]
      exact ih closer

theorem Indexes.search {target : M} (reached : 0 ≤ target)
    : Highest values target (search tree target) := by
  obtain ⟨top, raised, reach⟩ := raiseStep_pow tree.length 0
  rw [Nat.pow_zero] at raised
  rw [indexes.length] at reach
  have within : Within values target (2 ^ (top + 1) * 0) (2 ^ (top + 1)) := by
    refine ⟨Nat.zero_le _, ?_, fun stop bound _ => by omega⟩
    simpa using reached
  have found := indexes.searchLoop nonneg within
  simpa only [Fenwick.search, raised, Nat.mul_zero, List.take_zero, List.sum_nil] using found

end Search

end Hane.Foundations.Fenwick
