import Hane.Markdown.FlatBlocks

/-! The store observed after any sequence of operations agrees with the flat list under the
same operations.
-/

namespace Hane.Markdown

open Hane.Foundations

variable {T : Type}

inductive StoreOperation (T : Type) where
  | setLength (ordinal length : Nat)
  | setPayload (ordinal : Nat) (payload : T)
  | splice (start stop : Nat) (items : List (T × Nat))
deriving DecidableEq

namespace StoreOperation

def run (store : BlockStore T) : StoreOperation T → BlockStore T
  | .setLength ordinal length => store.setLength ordinal length
  | .setPayload ordinal payload => store.setPayload ordinal payload
  | .splice start stop items => store.splice start stop items

def runFlat (items : List (T × Nat)) : StoreOperation T → List (T × Nat)
  | .setLength ordinal length => items.modify ordinal fun item => (item.1, length)
  | .setPayload ordinal payload => items.modify ordinal fun item => (payload, item.2)
  | .splice start stop inserted => items.take start ++ inserted ++ items.drop stop

/-- A splice names an ordinal range of the list. -/
def Valid (items : List (T × Nat)) : StoreOperation T → Prop
  | .splice start stop _ => start ≤ stop ∧ stop ≤ items.length
  | _ => True

instance (items : List (T × Nat)) (operation : StoreOperation T)
    : Decidable (operation.Valid items) := by
  cases operation <;> unfold Valid <;> infer_instance

end StoreOperation

def ValidOperations (items : List (T × Nat)) : List (StoreOperation T) → Prop
  | [] => True
  | operation :: later =>
      operation.Valid items ∧ ValidOperations (operation.runFlat items) later

/-- A block owns the offsets from its start up to its end. -/
def OwnsOffset (items : List (T × Nat)) (offset ordinal : Nat) : Prop :=
  ∃ item, items[ordinal]? = some item
    ∧ totalLength (items.take ordinal) ≤ offset
    ∧ offset < totalLength (items.take ordinal) + item.2

/-- Everything that can be observed of a store is as the flat list has it. -/
structure Observes (store : BlockStore T) (items : List (T × Nat)) : Prop where
  len : store.len = items.length
  totalBytes : store.totalBytes = totalLength items
  get : ∀ ordinal, store.get ordinal = items[ordinal]?
  length : ∀ ordinal, store.length ordinal = (items[ordinal]?.map Prod.snd).getD 0
  start : ∀ ordinal, store.start ordinal = totalLength (items.take ordinal)
  iterFrom :
    ∀ ordinal count,
      BlockStore.Blocks.take store count (store.iterFrom ordinal)
        = (BlockStore.numbered ordinal (totalLength (items.take ordinal))
            (items.drop ordinal)).take count
  ordinalAtInside :
    ∀ offset, offset < totalLength items
      → ∃ ordinal,
          store.ordinalAt offset = some ordinal
          ∧ OwnsOffset items offset ordinal
          ∧ ∀ earlier, earlier < ordinal → ¬ OwnsOffset items offset earlier
  ordinalAtPast :
    ∀ offset, totalLength items ≤ offset → items ≠ []
      → store.ordinalAt offset = some (items.length - 1)
  ordinalAtEmpty : items = [] → ∀ offset, store.ordinalAt offset = none
  nonempty : ∀ chunk ∈ store.chunks, chunk.items ≠ []
  bytesTree : store.bytes = SumTree.build (store.chunks.map fun chunk => totalLength chunk.items)
  countsTree : store.counts = SumTree.build (store.chunks.map (·.items.length))

theorem SumTree.Indexes.eq_build {sums : SumTree} {values : List Nat}
    (indexes : sums.Indexes values)
    : sums = SumTree.build values := by
  have built := SumTree.Indexes.build values
  have size := indexes.length.trans built.length.symm
  have same : sums.tree = (SumTree.build values).tree := by
    apply List.ext_getElem size
    intro node first second
    have left : sums.tree[node] = sums.tree.getD node 0 := by
      simp [List.getD_eq_getElem?_getD, first]
    have right : (SumTree.build values).tree[node] = (SumTree.build values).tree.getD node 0 := by
      simp [List.getD_eq_getElem?_getD, second]
    rw [left, right]
    rcases Nat.eq_zero_or_pos node with rfl | positive
    · rw [indexes.root, built.root]
    · have within : node ≤ values.length := by
        rw [indexes.length] at first
        omega
      rw [indexes.window node positive within, built.window node positive within]
  cases sums
  exact congrArg SumTree.mk same

namespace BlockStore

/-- No two blocks own one offset, since starts are monotone. -/
theorem OwnsOffset.unique {items : List (T × Nat)} {offset first second : Nat}
    (left : OwnsOffset items offset first) (right : OwnsOffset items offset second)
    : first = second := by
  have owner {ordinal : Nat} (owns : OwnsOffset items offset ordinal)
      : indexAt Prod.snd items offset = ordinal := by
    obtain ⟨item, found, start, stop⟩ := owns
    obtain ⟨bound, rfl⟩ := List.getElem?_eq_some_iff.mp found
    apply indexAt_eq_of_bounds Prod.snd items start
    rw [weight_take_succ _ _ _ bound]
    exact stop
  exact (owner left).symm.trans (owner right)

theorem Consistent.observes {store : BlockStore T} (consistent : store.Consistent)
    : Observes store store.flat where
  len := consistent.len
  totalBytes := consistent.totalBytes
  get := consistent.get
  length ordinal := by
    unfold BlockStore.length
    rw [consistent.get]
  start := consistent.start
  iterFrom ordinal count := by
    rw [(consistent.iterFrom ordinal).take, ← consistent.start]
    rfl
  ordinalAtInside offset inside := by
    have bound := indexAt_lt_length Prod.snd store.flat inside
    have filled : store.flat ≠ [] := List.ne_nil_of_length_pos (by omega)
    have owns : OwnsOffset store.flat offset (indexAt Prod.snd store.flat offset) := by
      refine ⟨store.flat[indexAt Prod.snd store.flat offset], List.getElem?_eq_getElem bound,
        weight_take_indexAt_le _ _ _, ?_⟩
      have stop := lt_weight_take_indexAt_succ Prod.snd store.flat inside
      rwa [weight_take_succ _ _ _ bound] at stop
    refine ⟨_, ?_, owns, ?_⟩
    · rw [consistent.ordinalAt, if_neg filled, Nat.min_eq_left (by omega)]
    · intro earlier before other
      exact absurd (OwnsOffset.unique other owns) (Nat.ne_of_lt before)
  ordinalAtPast offset past filled := by
    have index : indexAt Prod.snd store.flat offset = store.flat.length :=
      indexAt_eq_length Prod.snd store.flat past
    rw [consistent.ordinalAt, if_neg filled, index, Nat.min_eq_right (Nat.sub_le _ _)]
  ordinalAtEmpty empty offset := by rw [consistent.ordinalAt, if_pos empty]
  nonempty chunk member := (consistent.chunks chunk member).nonempty
  bytesTree := by
    have same : (store.chunks.map fun chunk => totalLength chunk.items)
        = store.chunks.map (·.bytes) :=
      List.map_congr_left fun chunk member => (consistent.chunks chunk member).bytes.symm
    rw [same]
    exact consistent.bytes.eq_build
  countsTree := consistent.counts.eq_build

theorem Consistent.run {store : BlockStore T} (consistent : store.Consistent)
    (operation : StoreOperation T) (valid : operation.Valid store.flat)
    : (operation.run store).Consistent
      ∧ (operation.run store).flat = operation.runFlat store.flat := by
  cases operation with
  | setLength ordinal length => exact consistent.setLength ordinal length
  | setPayload ordinal payload => exact consistent.setPayload ordinal payload
  | splice start stop items => exact consistent.splice valid.1 valid.2 items

/-- Operations in a row keep a consistent store in step with its flat list, by induction on
them.
-/
theorem Consistent.runs {store : BlockStore T} (consistent : store.Consistent)
    (operations : List (StoreOperation T)) (valid : ValidOperations store.flat operations)
    : (operations.foldl StoreOperation.run store).Consistent
      ∧ (operations.foldl StoreOperation.run store).flat
        = operations.foldl StoreOperation.runFlat store.flat := by
  induction operations generalizing store with
  | nil => exact ⟨consistent, rfl⟩
  | cons operation later ih =>
      obtain ⟨here, rest⟩ := valid
      obtain ⟨consistent, flat⟩ := consistent.run operation here
      rw [← flat] at rest
      have final := ih consistent rest
      rwa [flat] at final

/-- Whatever blocks a store is built from and whatever valid operations follow, it observes the
flat list under the same operations.
-/
theorem observes_of_operations (items : List (T × Nat)) (operations : List (StoreOperation T))
    (valid : ValidOperations items operations)
    : Observes (operations.foldl StoreOperation.run (new items))
        (operations.foldl StoreOperation.runFlat items) := by
  have consistent := Consistent.new items
  rw [← flat_new items] at valid
  obtain ⟨final, flat⟩ := consistent.runs operations valid
  rw [flat_new] at flat
  have observes := final.observes
  rwa [flat] at observes

/-- A block is put in and its neighbour resized, over an empty block. -/
theorem observes_of_operations_mixed
    : Observes
        ([.splice 1 1 [('c', 3)], .setLength 0 5, .setPayload 2 'd'].foldl StoreOperation.run
          (new [('a', 2), ('b', 0)]))
        [('a', 5), ('c', 3), ('d', 0)] :=
  observes_of_operations [('a', 2), ('b', 0)]
    [.splice 1 1 [('c', 3)], .setLength 0 5, .setPayload 2 'd']
    ⟨by decide, trivial, trivial, trivial⟩

end BlockStore

end Hane.Markdown
