import Hane.Foundations.FenwickTrees

/-! The Fenwick trees over a store's chunk totals. -/

namespace Hane.Markdown

open Hane.Foundations

/-- `usize::wrapping_add_signed`, exact because every sum taken stays a `usize`. -/
def wrappingAddSigned (value : Nat) (delta : Int) : Nat := ((value : Int) + delta).toNat

structure SumTree where
  tree : List Nat
deriving DecidableEq

namespace SumTree

def build (values : List Nat) : SumTree := ⟨Fenwick.build values⟩

/-- The sum of the first `exclusiveEnd` values. -/
def prefixTotal (sums : SumTree) (exclusiveEnd : Nat) : Nat :=
  Fenwick.prefixTotal sums.tree exclusiveEnd

def total (sums : SumTree) : Nat := sums.prefixTotal (sums.tree.length - 1)

def add (sums : SumTree) (index : Nat) (delta : Int) : SumTree :=
  ⟨Fenwick.climb sums.tree (index + 1) (wrappingAddSigned · delta)⟩

/-- The highest index whose prefix sum is at most `target`, with that prefix sum. -/
def search (sums : SumTree) (target : Nat) : Nat × Nat := Fenwick.search sums.tree target

/-- The tree holds the window sums of the values. -/
structure Indexes (sums : SumTree) (values : List Nat) : Prop
    extends Fenwick.Indexes sums.tree values

namespace Indexes

variable {sums : SumTree} {values : List Nat}

theorem build (values : List Nat) : (build values).Indexes values := ⟨.build values⟩

theorem prefixTotal (indexes : sums.Indexes values) (exclusiveEnd : Nat)
    : sums.prefixTotal exclusiveEnd = (values.take exclusiveEnd).sum :=
  indexes.toIndexes.prefixTotal exclusiveEnd

theorem total (indexes : sums.Indexes values) : sums.total = values.sum := by
  have size : sums.tree.length - 1 = values.length := by
    rw [indexes.length, Nat.add_sub_cancel]
  unfold SumTree.total
  rw [size, indexes.prefixTotal, List.take_length]

theorem add (indexes : sums.Indexes values) {index : Nat} (inside : index < values.length)
    (value : Nat)
    : (sums.add index ((value : Int) - values[index])).Indexes (values.set index value) := by
  refine ⟨indexes.toIndexes.climb inside fun rest => ?_⟩
  unfold wrappingAddSigned
  omega

theorem search (indexes : sums.Indexes values) (target : Nat)
    : Fenwick.Highest values target (sums.search target) :=
  indexes.toIndexes.search (fun _ _ => Nat.zero_le _) (Nat.zero_le target)

end Indexes

end SumTree

end Hane.Markdown
