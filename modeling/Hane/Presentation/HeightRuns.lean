import Hane.Presentation.FlatHeights

/-! The heights observed after any sequence of changes agree with the flat list under the same
changes.
-/

namespace Hane.Presentation

open Hane.Foundations

variable {H : Type} [AddCommGroup H] [LinearOrder H]

/-- The block at a vertical position of a flat list: the first one whose end is past the
position, a negative position being the start, and the last one at or past the whole height.
-/
structure BlockAt (heights : List H) (y : H) (ordinal : Nat) : Prop where
  inside :
    max y 0 < heights.sum
      → ordinal < heights.length
        ∧ max y 0 < (heights.take (ordinal + 1)).sum
        ∧ ∀ earlier, earlier < ordinal → (heights.take (earlier + 1)).sum ≤ max y 0
  past : heights.sum ≤ max y 0 → ordinal = heights.length - 1

/-- A block shows between `top` and `bottom` when some position there is its own. Blocks of
height zero own no position.
-/
def Shows (heights : List H) (top bottom : H) (ordinal : Nat) : Prop :=
  ordinal < heights.length
    ∧ ∃ y, top ≤ y ∧ y ≤ bottom
      ∧ (heights.take ordinal).sum ≤ y ∧ y < (heights.take (ordinal + 1)).sum

/-- Everything that can be observed of an index is as the flat list has it. -/
structure Observes (index : HeightIndex H) (heights : List H) : Prop where
  len : index.len = heights.length
  height : ∀ ordinal, index.height ordinal = heights[ordinal]?
  prefixSum : ∀ ordinal, index.prefixSum ordinal = (heights.take ordinal).sum
  totalHeight : index.totalHeight = heights.sum
  nonneg : ∀ height ∈ heights, 0 ≤ height
  blockAtY : ∀ y, BlockAt heights y (index.blockAtY y)
  nonempty : ∀ chunk ∈ index.chunks, chunk.heights ≠ []
  visibleRange :
    ∀ scrollY viewport overscan ordinal,
      Shows heights (scrollY - overscan) (scrollY + viewport + overscan) ordinal
      → (index.visibleRange scrollY viewport overscan).1 ≤ ordinal
        ∧ ordinal < (index.visibleRange scrollY viewport overscan).2

-- The descent by heights

namespace HeightIndex

/-- A scan that stops has the position inside the height it stops at, by induction on the
heights.
-/
theorem scanHeights_some {target sum : H} {heights : List H} {slot found : Nat}
    (reached : sum ≤ target) (scanned : scanHeights target heights slot sum = some found)
    : ∃ left height right,
        heights = left ++ height :: right
        ∧ found = slot + left.length
        ∧ sum + left.sum ≤ target
        ∧ target < sum + left.sum + height := by
  induction heights generalizing slot sum with
  | nil => simp [scanHeights] at scanned
  | cons height rest ih =>
      rw [scanHeights] at scanned
      by_cases here : target < sum + height
      · rw [if_pos here, Option.some.injEq] at scanned
        exact ⟨[], height, rest, rfl, by simp [scanned], by simpa using reached, by simpa using here⟩
      · rw [if_neg here] at scanned
        obtain ⟨left, next, right, rfl, place, lower, upper⟩ := ih (not_lt.mp here) scanned
        refine ⟨height :: left, next, right, rfl, ?_, ?_, ?_⟩
        · rw [place, List.length_cons]
          omega
        · rwa [List.sum_cons, ← add_assoc]
        · rwa [List.sum_cons, ← add_assoc]

/-- A scan that runs through has the position past all the heights, by induction on them. -/
theorem scanHeights_none {target sum : H} {heights : List H} {slot : Nat}
    (reached : sum ≤ target) (scanned : scanHeights target heights slot sum = none)
    : sum + heights.sum ≤ target := by
  induction heights generalizing slot sum with
  | nil => simpa using reached
  | cons height rest ih =>
      rw [scanHeights] at scanned
      by_cases here : target < sum + height
      · simp [if_pos here] at scanned
      · rw [if_neg here] at scanned
        rw [List.sum_cons, ← add_assoc]
        exact ih (not_lt.mp here) scanned

variable [IsOrderedAddMonoid H] {index : HeightIndex H} (consistent : index.Consistent)

include consistent

theorem Consistent.totals_nonneg : ∀ total ∈ index.chunks.map (·.total), 0 ≤ total := by
  intro total member
  obtain ⟨chunk, partOf, rfl⟩ := List.mem_map.mp member
  have sound := consistent.chunks chunk partOf
  rw [sound.total]
  exact List.sum_nonneg sound.nonneg

/-- The descent by heights ends on the chunk that holds the position, or on the last one when
the position is the whole height. Witness: the highest prefix of chunk totals within the
position, and one step back where that is all of them.
-/
theorem Consistent.search_sums (filled : index.chunks ≠ []) {target : H} (reached : 0 ≤ target)
    (inside : target ≤ index.flat.sum)
    : ∃ before part after,
        parts index.chunks = before ++ part :: after
        ∧ index.stepBack (Fenwick.search index.sums target).1 (Fenwick.search index.sums target).2
          = (before.length, before.flatten.sum)
        ∧ before.flatten.sum ≤ target
        ∧ (target < before.flatten.sum + part.sum ∨ after = [] ∧ target = index.flat.sum) := by
  have found := consistent.sums.search consistent.totals_nonneg reached
  rcases searched : Fenwick.search index.sums target with ⟨place, height⟩
  rw [searched] at found
  obtain ⟨bound, sum, reaches, highest⟩ := found
  dsimp only at bound sum reaches highest ⊢
  rw [List.length_map] at bound highest
  have prefixes (stop : Nat)
      : ((index.chunks.map (·.total)).take stop).sum
        = ((parts index.chunks).take stop).flatten.sum := by
    rw [← List.map_take, parts, ← List.map_take]
    exact sum_totals fun chunk member => consistent.chunks chunk (List.mem_of_mem_take member)
  have size := length_parts index.chunks
  rw [prefixes] at sum
  rcases Nat.lt_or_eq_of_le bound with short | full
  · have split : parts index.chunks
        = (parts index.chunks).take place ++ (parts index.chunks)[place]
          :: (parts index.chunks).drop (place + 1) := by
      rw [List.cons_getElem_drop_succ, List.take_append_drop]
    refine ⟨_, _, _, split, ?_, sum ▸ reaches, .inl ?_⟩
    · rw [stepBack, if_neg (by omega), ← sum, List.length_take, size, Nat.min_eq_left bound]
    · by_contra past
      have next : ((parts index.chunks).take (place + 1)).flatten.sum
          = ((parts index.chunks).take place).flatten.sum + (parts index.chunks)[place].sum := by
        rw [List.take_add_one, List.getElem?_eq_getElem (by omega), List.flatten_append,
          List.sum_append]
        simp
      have higher := highest (place + 1) short (by rw [prefixes, next]; exact not_lt.mp past)
      omega
  · obtain ⟨earlier, last, split⟩ : ∃ earlier last, index.chunks = earlier ++ [last] :=
      ⟨index.chunks.dropLast, index.chunks.getLast filled,
        (List.dropLast_append_getLast filled).symm⟩
    have whole : height = index.flat.sum := by
      rw [sum, full, ← size, List.take_length]
      rfl
    have total := (consistent.chunks last (by rw [split]; simp)).total
    have sums : index.flat.sum = (parts earlier).flatten.sum + last.heights.sum := by
      rw [flat, split]
      simp [parts]
    have nonneg : 0 ≤ last.heights.sum :=
      List.sum_nonneg (consistent.chunks last (by rw [split]; simp)).nonneg
    refine ⟨parts earlier, last.heights, [], ?_, ?_, ?_, .inr ⟨rfl, ?_⟩⟩
    · rw [split, parts_append]
      rfl
    · have here : index.chunks[index.chunks.length - 1]? = some last := by
        rw [split]
        simp
      have position : index.chunks.length - 1 = (parts earlier).length := by
        rw [split]
        simp
      rw [stepBack, if_pos full.ge]
      dsimp only
      rw [here, position]
      simp [whole, sums, total]
    · rw [whole, sums] at reaches
      exact (le_add_of_nonneg_right nonneg).trans reaches
    · exact le_antisymm inside (whole ▸ reaches)

/-- The block found at a position is the flat list's. -/
theorem Consistent.blockAtY (y : H) : BlockAt index.flat y (index.blockAtY y) := by
  by_cases empty : index.flat = []
  · rw [HeightIndex.blockAtY, if_pos (consistent.isEmpty.mpr empty), empty]
    refine ⟨fun inside => ?_, fun _ => rfl⟩
    exact absurd (le_max_right y 0) (not_le.mpr inside)
  · have filled : index.chunks ≠ [] := by
      intro none
      apply empty
      rw [flat, none]
      rfl
    have total : 0 ≤ index.flat.sum := List.sum_nonneg consistent.nonneg
    have reached : 0 ≤ min (max y 0) index.flat.sum := le_min (le_max_right y 0) total
    obtain ⟨before, part, after, split, stepped, lower, upper⟩ :=
      consistent.search_sums filled reached (min_le_right _ _)
    rw [HeightIndex.blockAtY, if_neg (fun none => empty (consistent.isEmpty.mp none)),
      consistent.totalHeight]
    simp only [stepped]
    rw [heightsAt_of_split split, consistent.counts_before split]
    have flattened : index.flat = before.flatten ++ (part ++ after.flatten) := by
      rw [flat, split]
      simp
    cases scanned : scanHeights (min (max y 0) index.flat.sum) part 0 before.flatten.sum with
    | some slot =>
        obtain ⟨left, height, right, rfl, place, below, above⟩ := scanHeights_some lower scanned
        rw [Nat.zero_add] at place
        dsimp only
        have cut : index.flat = (before.flatten ++ left) ++ height :: (right ++ after.flatten) := by
          rw [flattened]
          simp
        have position : before.flatten.length + slot = (before.flatten ++ left).length := by
          rw [place, List.length_append]
        have start : (index.flat.take (before.flatten.length + slot)).sum
            = before.flatten.sum + left.sum := by
          rw [cut, position, List.take_left, List.sum_append]
        have stop : (index.flat.take (before.flatten.length + slot + 1)).sum
            = before.flatten.sum + left.sum + height := by
          have here : index.flat[before.flatten.length + slot]? = some height := by
            rw [cut, position]
            simp
          rw [List.take_add_one, List.sum_append, start, here]
          simp
        have bound : (index.flat.take (before.flatten.length + slot + 1)).sum ≤ index.flat.sum :=
          (List.take_sublist _ _).sum_le_sum consistent.nonneg
        have short : max y 0 < index.flat.sum := by
          by_contra long
          rw [min_eq_right (not_lt.mp long), ← stop] at above
          exact absurd bound (not_le.mpr above)
        rw [min_eq_left short.le] at below above
        refine ⟨fun _ => ⟨?_, stop ▸ above, ?_⟩, fun past => absurd short (not_lt.mpr past)⟩
        · rw [position, cut]
          simp
        · intro earlier order
          exact (Fenwick.sum_take_le consistent.nonneg order).trans (start ▸ below)
    | none =>
        have past := scanHeights_none lower scanned
        obtain inPart | ⟨rfl, whole⟩ := upper
        · exact absurd inPart (not_lt.mpr past)
        · have nonempty := consistent.nonempty part (by rw [split]; simp)
          have positive := List.length_pos_of_ne_nil nonempty
          have long : index.flat.sum ≤ max y 0 := min_eq_right_iff.mp whole
          refine ⟨fun inside => absurd long (not_le.mpr inside), fun _ => ?_⟩
          dsimp only
          rw [consistent.len, flattened]
          simp only [List.flatten_nil, List.append_nil, List.length_append]
          omega

end HeightIndex

-- What shows

section BlockAt

variable [IsOrderedAddMonoid H] {heights : List H}
  (nonneg : ∀ height ∈ heights, 0 ≤ height)

include nonneg

theorem BlockAt.le_of_lt {y : H} {found ordinal : Nat} (blockAt : BlockAt heights y found)
    (ends : max y 0 < (heights.take (ordinal + 1)).sum)
    : found ≤ ordinal := by
  have bound : (heights.take (ordinal + 1)).sum ≤ heights.sum :=
    (List.take_sublist _ _).sum_le_sum nonneg
  obtain ⟨-, -, first⟩ := blockAt.inside (ends.trans_le bound)
  by_contra later
  exact absurd (first ordinal (by omega)) (not_le.mpr ends)

theorem BlockAt.ge_of_le {y : H} {found ordinal : Nat} (blockAt : BlockAt heights y found)
    (within : ordinal < heights.length) (starts : (heights.take ordinal).sum ≤ y)
    : ordinal ≤ found := by
  rcases lt_or_ge (max y 0) heights.sum with inside | past
  · obtain ⟨-, ends, -⟩ := blockAt.inside inside
    by_contra later
    have shorter := Fenwick.sum_take_le nonneg (show found + 1 ≤ ordinal by omega)
    exact absurd (shorter.trans (starts.trans (le_max_left y 0))) (not_le.mpr ends)
  · rw [blockAt.past past]
    omega

end BlockAt

variable [IsOrderedAddMonoid H]

theorem HeightIndex.Consistent.observes {index : HeightIndex H} (consistent : index.Consistent)
    : Observes index index.flat := by
  refine {
    len := consistent.len
    height := consistent.height
    prefixSum := consistent.prefixSum
    totalHeight := consistent.totalHeight
    nonneg := consistent.nonneg
    blockAtY := consistent.blockAtY
    nonempty := fun chunk member => (consistent.chunks chunk member).nonempty
    visibleRange := ?_
  }
  intro scrollY viewport overscan ordinal ⟨within, y, top, bottom, starts, ends⟩
  have filled : ¬ index.isEmpty = true := by
    rw [consistent.isEmpty]
    exact List.ne_nil_of_length_pos (by omega)
  have above : 0 ≤ (index.flat.take ordinal).sum :=
    List.sum_nonneg fun height member => consistent.nonneg height (List.mem_of_mem_take member)
  rw [HeightIndex.visibleRange, if_neg filled]
  constructor
  · apply (consistent.blockAtY _).le_of_lt consistent.nonneg
    have reached : max (scrollY - overscan) 0 ≤ y := max_le top (above.trans starts)
    rw [max_eq_left (le_max_right _ 0)]
    exact reached.trans_lt ends
  · have last := (consistent.blockAtY (scrollY + viewport + overscan)).ge_of_le consistent.nonneg
      within (starts.trans bottom)
    dsimp only
    rw [consistent.len]
    omega

-- Runs

inductive HeightOperation (H : Type) where
  | update (ordinal : Nat) (height : H)
  | splice (start stop : Nat) (heights : List H)
deriving DecidableEq

namespace HeightOperation

omit [IsOrderedAddMonoid H]

def run (index : HeightIndex H) : HeightOperation H → Option (HeightIndex H)
  | .update ordinal height => index.update ordinal height
  | .splice start stop heights => index.splice start stop heights

/-- The operation on the flat list; `none` where it names a block or a range that is not
there.
-/
def runFlat (flat : List H) : HeightOperation H → Option (List H)
  | .update ordinal height =>
      if ordinal < flat.length then some (flat.set ordinal (max height 0)) else none
  | .splice start stop heights =>
      if start ≤ stop ∧ stop ≤ flat.length then
        some (flat.take start ++ heights.map (max · 0) ++ flat.drop stop)
      else
        none

/-- One operation panics on both sides, or leads from a consistent index to one that holds the
flat result.
-/
theorem run_flat {index : HeightIndex H} (consistent : index.Consistent)
    (operation : HeightOperation H)
    : Option.Rel (fun later flat => later.Consistent ∧ later.flat = flat)
        (operation.run index) (operation.runFlat index.flat) := by
  cases operation with
  | update ordinal height =>
      rcases Nat.lt_or_ge ordinal index.flat.length with inside | past
      · obtain ⟨updated, ran, kept, flat⟩ := consistent.update inside height
        rw [run, runFlat, ran, if_pos inside]
        exact .some ⟨kept, flat⟩
      · rw [run, runFlat, consistent.update_past past, if_neg (by omega)]
        exact .none
  | splice start stop heights =>
      by_cases valid : start ≤ stop ∧ stop ≤ index.flat.length
      · obtain ⟨spliced, ran, kept, flat⟩ := consistent.splice valid.1 valid.2 heights
        rw [run, runFlat, ran, if_pos valid]
        exact .some ⟨kept, flat⟩
      · rw [run, runFlat, consistent.splice_invalid valid, if_neg valid]
        exact .none

/-- Runs of operations agree, by induction on the operations. -/
theorem foldlM_flat {index : HeightIndex H} (consistent : index.Consistent)
    (operations : List (HeightOperation H))
    : Option.Rel (fun later flat => later.Consistent ∧ later.flat = flat)
        (operations.foldlM run index) (operations.foldlM runFlat index.flat) := by
  induction operations generalizing index with
  | nil => exact .some ⟨consistent, rfl⟩
  | cons operation rest ih =>
      rw [List.foldlM_cons, List.foldlM_cons]
      cases ran : operation.run index with
      | none =>
          have stuck := run_flat consistent operation
          rw [ran] at stuck
          cases flatRan : operation.runFlat index.flat with
          | none => exact .none
          | some flat => simp [flatRan] at stuck
      | some later =>
          have step := run_flat consistent operation
          rw [ran] at step
          cases flatRan : operation.runFlat index.flat with
          | none => simp [flatRan] at step
          | some flat =>
              rw [flatRan] at step
              obtain ⟨kept, rfl⟩ := Option.rel_some_some.mp step
              exact ih kept

end HeightOperation

/-- From any initial heights, updates and splices fail on an index exactly where they fail on
the flat list, and what can be observed after them agrees.
-/
theorem heights_observe_flat (heights : List H) (operations : List (HeightOperation H))
    : Option.Rel Observes
        (operations.foldlM HeightOperation.run (HeightIndex.new heights))
        (operations.foldlM HeightOperation.runFlat (heights.map (max · 0))) := by
  have agree := HeightOperation.foldlM_flat (HeightIndex.Consistent.new heights) operations
  rw [HeightIndex.flat_new] at agree
  change Option.Rel Observes _
    (operations.foldlM HeightOperation.runFlat (HeightIndex.clamped heights))
  generalize operations.foldlM HeightOperation.run (HeightIndex.new heights) = ran at agree ⊢
  generalize operations.foldlM HeightOperation.runFlat (HeightIndex.clamped heights) = flatRan
    at agree ⊢
  cases agree with
  | some holds =>
      obtain ⟨consistent, rfl⟩ := holds
      exact .some consistent.observes
  | none => exact .none

theorem heights_observe_flat_whole
    : Option.Rel Observes
        ([.update 1 (-4), .splice 0 1 [2, 7]].foldlM HeightOperation.run
          (HeightIndex.new [3, 5, (8 : ℤ)]))
        ([.update 1 (-4), .splice 0 1 [2, 7]].foldlM HeightOperation.runFlat
          ([3, 5, (8 : ℤ)].map (max · 0))) :=
  heights_observe_flat [3, 5, 8] [.update 1 (-4), .splice 0 1 [2, 7]]

/-- A negative position stands for the start, where a first block of height zero is skipped. -/
theorem negative_position_skips_empty_block
    : (-1 : ℤ) < (([0, 10] : List ℤ).take 1).sum
      ∧ (HeightIndex.new [0, (10 : ℤ)]).blockAtY (-1) ≠ 0 := by
  refine ⟨by decide, fun first => ?_⟩
  have found := (HeightIndex.Consistent.new [0, (10 : ℤ)]).blockAtY (-1)
  rw [HeightIndex.flat_new, first] at found
  obtain ⟨-, ends, -⟩ := found.inside (by decide)
  exact absurd ends (by decide)

end Hane.Presentation
