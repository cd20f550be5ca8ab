import Mathlib.Data.List.TakeWhile
import Mathlib.Data.List.Count

/-! Where a property stops holding in a list that it divides, and what lies between two such
places.
-/

namespace Hane.Foundations

variable {α : Type}

/-- The number of items at the start that have a property: where a binary search for its end stops
in a list that it divides.
-/
def partitionPoint (holds : α → Bool) (items : List α) : Nat := (items.takeWhile holds).length

def Divides (holds : α → Bool) (items : List α) : Prop :=
  items.Pairwise fun first second => holds second = true → holds first = true

theorem Divides.tail {holds : α → Bool} {item : α} {rest : List α}
    (divides : Divides holds (item :: rest))
    : Divides holds rest :=
  (List.pairwise_cons.mp divides).2

theorem Divides.none_after {holds : α → Bool} {item : α} {rest : List α}
    (divides : Divides holds (item :: rest)) (lacks : holds item = false)
    : ∀ other ∈ rest, holds other = false := by
  intro other member
  by_contra has
  have held := (List.pairwise_cons.mp divides).1 other member (by simpa using has)
  rw [lacks] at held
  cases held

theorem Divides.sublist {holds : α → Bool} {items fewer : List α} (divides : Divides holds items)
    (inside : fewer.Sublist items)
    : Divides holds fewer :=
  List.Pairwise.sublist inside divides

/-- The items before the point are those with the property, by induction over the list. -/
theorem Divides.take_eq {holds : α → Bool} {items : List α} (divides : Divides holds items)
    : items.take (partitionPoint holds items) = items.filter holds := by
  induction items with
  | nil => rfl
  | cons item rest ih =>
      cases has : holds item with
      | true =>
          have point : partitionPoint holds (item :: rest) = partitionPoint holds rest + 1 := by
            rw [partitionPoint, List.takeWhile_cons_of_pos has, List.length_cons, partitionPoint]
          rw [point, List.take_succ_cons, ih divides.tail, List.filter_cons_of_pos has]
      | false =>
          have point : partitionPoint holds (item :: rest) = 0 := by
            rw [partitionPoint, List.takeWhile_cons_of_neg (by simp [has]), List.length_nil]
          rw [point, List.take_zero, List.filter_cons_of_neg (by simp [has])]
          exact (List.filter_eq_nil_iff.mpr fun other member => by
            simp [divides.none_after has other member]).symm

/-- The items from the point on are those without the property, by induction over the list. -/
theorem Divides.drop_eq {holds : α → Bool} {items : List α} (divides : Divides holds items)
    : items.drop (partitionPoint holds items) = items.filter (!holds ·) := by
  induction items with
  | nil => rfl
  | cons item rest ih =>
      cases has : holds item with
      | true =>
          have point : partitionPoint holds (item :: rest) = partitionPoint holds rest + 1 := by
            rw [partitionPoint, List.takeWhile_cons_of_pos has, List.length_cons, partitionPoint]
          rw [point, List.drop_succ_cons, ih divides.tail, List.filter_cons_of_neg (by simp [has])]
      | false =>
          have point : partitionPoint holds (item :: rest) = 0 := by
            rw [partitionPoint, List.takeWhile_cons_of_neg (by simp [has]), List.length_nil]
          rw [point, List.drop_zero, List.filter_cons_of_pos (by simp [has]), List.cons.injEq]
          refine ⟨rfl, (List.filter_eq_self.mpr fun other member => ?_).symm⟩
          simp [divides.none_after has other member]

theorem Divides.partitionPoint_eq {holds : α → Bool} {items : List α}
    (divides : Divides holds items)
    : partitionPoint holds items = items.countP holds := by
  have lengths := congrArg List.length divides.take_eq
  have bound : partitionPoint holds items ≤ items.length :=
    (List.takeWhile_prefix holds).length_le
  rwa [List.length_take, Nat.min_eq_left bound, ← List.countP_eq_length_filter] at lengths

theorem getElem?_partitionPoint (holds : α → Bool) (items : List α)
    : items[partitionPoint holds items]? = items.find? (!holds ·) := by
  induction items with
  | nil => rfl
  | cons item rest ih =>
      cases has : holds item with
      | true =>
          rw [partitionPoint, List.takeWhile_cons_of_pos has, List.length_cons,
            List.getElem?_cons_succ, ← partitionPoint, ih, List.find?_cons_of_neg (by simp [has])]
      | false =>
          rw [partitionPoint, List.takeWhile_cons_of_neg (by simp [has]), List.length_nil,
            List.getElem?_cons_zero, List.find?_cons_of_pos (by simp [has])]

theorem take_drop_partitionPoint {before within : α → Bool} {items : List α}
    (first : Divides before items) (second : Divides within items)
    (included : ∀ item ∈ items, before item = true → within item = true)
    : (items.drop (partitionPoint before items)).take
          (partitionPoint within items - partitionPoint before items)
        = items.filter fun item => within item && !before item := by
  rw [← List.drop_take, second.take_eq]
  have short : partitionPoint before items = partitionPoint before (items.filter within) := by
    rw [first.partitionPoint_eq, (first.sublist List.filter_sublist).partitionPoint_eq,
      List.countP_filter]
    refine List.countP_congr fun item member => ?_
    simp only [Bool.and_eq_true]
    exact ⟨fun has => ⟨has, included item member has⟩, fun both => both.1⟩
  rw [short, (first.sublist List.filter_sublist).drop_eq, List.filter_filter]
  refine List.filter_congr fun item _ => ?_
  rw [Bool.and_comm]

theorem partitionPoint_map {β : Type} (holds : β → Bool) (f : α → β) (items : List α)
    : partitionPoint holds (items.map f) = partitionPoint (holds ∘ f) items := by
  rw [partitionPoint, List.takeWhile_map, List.length_map, partitionPoint]

theorem countP_split (holds other : α → Bool) (items : List α)
    : items.countP holds
        = items.countP (fun item => holds item && other item)
          + items.countP fun item => holds item && !other item := by
  rw [List.countP_eq_countP_filter_add items holds other, List.countP_filter, List.countP_filter]

/-- Counting between two indices, by induction over the list: the places before the first one and
from the second one on are not counted.
-/
theorem countP_zipIdx_between (counts : α → Bool) (first second : Nat) (items : List α)
    (offset : Nat)
    : (items.zipIdx offset).countP (fun indexed =>
          counts indexed.1 && (decide (first ≤ indexed.2) && decide (indexed.2 < second)))
        = ((items.take (second - offset)).drop (first - offset)).countP counts := by
  induction items generalizing offset with
  | nil => simp
  | cons item rest ih =>
      rw [List.zipIdx_cons, List.countP_cons, ih (offset + 1)]
      rcases Nat.lt_or_ge offset second with inside | after
      · obtain ⟨left, size⟩ : ∃ left, second - offset = left + 1 :=
          ⟨second - (offset + 1), by omega⟩
        have shorter : second - (offset + 1) = left := by omega
        rw [size, shorter, List.take_succ_cons]
        rcases Nat.lt_or_ge offset first with before | from_here
        · obtain ⟨gap, skipped⟩ : ∃ gap, first - offset = gap + 1 :=
            ⟨first - (offset + 1), by omega⟩
          have closer : first - (offset + 1) = gap := by omega
          have outside : ¬first ≤ offset := by omega
          rw [skipped, closer, List.drop_succ_cons]
          simp [outside]
        · have reached : first - offset = 0 := by omega
          have passed : first - (offset + 1) = 0 := by omega
          rw [reached, passed, List.drop_zero, List.drop_zero, List.countP_cons]
          simp [from_here, inside]
      · have none : second - offset = 0 := by omega
        have still : second - (offset + 1) = 0 := by omega
        have outside : ¬offset < second := by omega
        rw [none, still]
        simp [outside]

end Hane.Foundations
