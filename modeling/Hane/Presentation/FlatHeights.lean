import Hane.Presentation.HeightIndex
import Mathlib.Tactic.Abel

/-! The chunked heights against the flat list of them. -/

namespace Hane.Presentation

open Hane.Foundations

namespace HeightIndex

variable {H : Type}

def parts (chunks : List (HeightChunk H)) : List (List H) := chunks.map (·.heights)

/-- The heights of all chunks in order. -/
def flat (index : HeightIndex H) : List H := (parts index.chunks).flatten

@[simp] theorem parts_append (left right : List (HeightChunk H))
    : parts (left ++ right) = parts left ++ parts right := by
  simp [parts]

@[simp] theorem parts_cons (chunk : HeightChunk H) (rest : List (HeightChunk H))
    : parts (chunk :: rest) = chunk.heights :: parts rest := rfl

@[simp] theorem length_parts (chunks : List (HeightChunk H))
    : (parts chunks).length = chunks.length := by
  simp [parts]

theorem exists_chunk {chunks : List (HeightChunk H)} {before after : List (List H)}
    {part : List H} (split : parts chunks = before ++ part :: after)
    : ∃ earlier chunk later,
        chunks = earlier ++ chunk :: later
        ∧ parts earlier = before
        ∧ chunk.heights = part
        ∧ parts later = after := by
  obtain ⟨earlier, rest, rfl, isBefore, isRest⟩ := List.map_eq_append_iff.mp split
  obtain ⟨chunk, later, rfl, isPart, isAfter⟩ := List.map_eq_cons_iff.mp isRest
  exact ⟨earlier, chunk, later, rfl, isBefore, isPart, isAfter⟩

section Chunks

variable [AddCommGroup H] [LinearOrder H]

/-- A chunk holds heights, none negative, and their sum. -/
structure Sound (chunk : HeightChunk H) : Prop where
  nonempty : chunk.heights ≠ []
  total : chunk.total = chunk.heights.sum
  nonneg : ∀ height ∈ chunk.heights, 0 ≤ height

/-- Every chunk is sound, and the trees and the length count the chunks. -/
structure Consistent (index : HeightIndex H) : Prop where
  chunks : ∀ chunk ∈ index.chunks, Sound chunk
  sums : Fenwick.Indexes index.sums (index.chunks.map (·.total))
  counts : Fenwick.Indexes index.counts ((parts index.chunks).map List.length)
  len : index.len = index.flat.length

theorem Consistent.retree {index : HeightIndex H} (sound : ∀ chunk ∈ index.chunks, Sound chunk)
    (len : index.len = index.flat.length)
    : index.retree.Consistent := by
  refine ⟨sound, .build _, ?_, len⟩
  have same : (parts index.chunks).map List.length = index.chunks.map (·.heights.length) := by
    simp [parts]
  change Fenwick.Indexes _ ((parts index.chunks).map List.length)
  rw [same]
  exact .build _

omit [LinearOrder H] in
@[simp] theorem parts_cut (heights : List H)
    : parts (cut heights) = chunksOf heightChunkTarget heights := by
  rw [parts, cut, List.map_map]
  exact List.map_id _

theorem sound_of_mem_cut {heights : List H} (nonneg : ∀ height ∈ heights, 0 ≤ height)
    {chunk : HeightChunk H} (member : chunk ∈ cut heights)
    : Sound chunk := by
  obtain ⟨part, partOf, rfl⟩ := List.mem_map.mp member
  refine ⟨ne_nil_of_mem_chunksOf partOf, rfl, ?_⟩
  intro height inside
  apply nonneg
  rw [← chunksOf_flatten heightChunkTarget heights]
  exact List.mem_flatten.mpr ⟨part, partOf, inside⟩

/-- Heights as the index takes them in, negative ones clamped to zero. -/
def clamped (heights : List H) : List H := heights.map (max · 0)

theorem clamped_nonneg (heights : List H) : ∀ height ∈ clamped heights, 0 ≤ height := by
  intro height member
  obtain ⟨given, -, rfl⟩ := List.mem_map.mp member
  exact le_max_right given 0

theorem flat_new (heights : List H) : (new heights).flat = clamped heights := by
  change (parts (cut (clamped heights))).flatten = _
  rw [parts_cut, chunksOf_flatten]

theorem Consistent.new (heights : List H) : (new heights).Consistent := by
  apply Consistent.retree
  · intro chunk member
    exact sound_of_mem_cut (clamped_nonneg heights) member
  · exact congrArg List.length (flat_new heights).symm

omit [AddCommGroup H] [LinearOrder H] in
theorem heightsAt_of_split {index : HeightIndex H} {before after : List (List H)} {part : List H}
    (split : parts index.chunks = before ++ part :: after)
    : index.heightsAt before.length = part := by
  have here : (parts index.chunks)[before.length]? = some part := by
    rw [split]
    simp
  rw [parts, List.getElem?_map] at here
  rw [heightsAt, here]
  rfl

/-- The chunk totals sum to the heights of the chunks, by induction on the chunks. -/
theorem sum_totals {chunks : List (HeightChunk H)} (sound : ∀ chunk ∈ chunks, Sound chunk)
    : (chunks.map (·.total)).sum = (parts chunks).flatten.sum := by
  induction chunks with
  | nil => rfl
  | cons chunk rest ih =>
      have first := (sound chunk List.mem_cons_self).total
      have later := ih fun other member => sound other (List.mem_cons_of_mem _ member)
      rw [List.map_cons, List.sum_cons, first, later, parts_cons, List.flatten_cons,
        List.sum_append]

end Chunks

section Consistent

variable [AddCommGroup H] [LinearOrder H] {index : HeightIndex H}
  (consistent : index.Consistent)

include consistent

theorem Consistent.nonempty : ∀ part ∈ parts index.chunks, part ≠ [] := by
  intro part member
  obtain ⟨chunk, partOf, rfl⟩ := List.mem_map.mp member
  exact (consistent.chunks chunk partOf).nonempty

theorem Consistent.nonneg : ∀ height ∈ index.flat, 0 ≤ height := by
  intro height member
  obtain ⟨part, partOf, inside⟩ := List.mem_flatten.mp member
  obtain ⟨chunk, chunkOf, rfl⟩ := List.mem_map.mp partOf
  exact (consistent.chunks chunk chunkOf).nonneg height inside

theorem Consistent.isEmpty : index.isEmpty = true ↔ index.flat = [] := by
  rw [HeightIndex.isEmpty, consistent.len, beq_iff_eq, List.length_eq_zero_iff]

/-- A search by counts finds the chunk and the slot of a block. -/
theorem Consistent.locate {ordinal : Nat} (inside : ordinal < index.flat.length)
    : ∃ before left height right after,
        parts index.chunks = before ++ (left ++ height :: right) :: after
        ∧ ordinal = before.flatten.length + left.length
        ∧ index.locate ordinal = some (before.length, left.length) := by
  have highest := consistent.counts.search (fun _ _ => Nat.zero_le _) (Nat.zero_le ordinal)
  obtain ⟨before, left, height, right, after, split, first, second, place⟩ :=
    exists_split_of_highest highest inside
  refine ⟨before, left, height, right, after, split, place, ?_⟩
  have short : ¬ ordinal ≥ index.len := by
    rw [consistent.len]
    omega
  rw [HeightIndex.locate, if_neg short]
  simp only [searchCounts, first, second]
  congr 2
  omega

theorem Consistent.locate_past {ordinal : Nat} (past : index.flat.length ≤ ordinal)
    : index.locate ordinal = none := by
  rw [HeightIndex.locate, consistent.len]
  exact if_pos past

/-- The insertion point of an ordinal up to the end splits the heights there. -/
theorem Consistent.locateInsert {ordinal : Nat} (inside : ordinal ≤ index.flat.length)
    (filled : index.chunks ≠ [])
    : ∃ before left right after,
        parts index.chunks = before ++ (left ++ right) :: after
        ∧ ordinal = before.flatten.length + left.length
        ∧ index.locateInsert ordinal = (before.length, left.length) := by
  rcases Nat.lt_or_eq_of_le inside with block | stop
  · obtain ⟨before, left, height, right, after, split, place, found⟩ := consistent.locate block
    refine ⟨before, left, height :: right, after, split, place, ?_⟩
    rw [HeightIndex.locateInsert, found]
    rfl
  · obtain ⟨earlier, chunk, split⟩ : ∃ earlier chunk, index.chunks = earlier ++ [chunk] :=
      ⟨index.chunks.dropLast, index.chunks.getLast filled,
        (List.dropLast_append_getLast filled).symm⟩
    refine ⟨parts earlier, chunk.heights, [], [], ?_, ?_, ?_⟩
    · rw [split, List.append_nil, parts_append]
      rfl
    · rw [stop, flat, split]
      simp [parts]
    · rw [HeightIndex.locateInsert, consistent.locate_past stop.ge, split]
      simp

theorem Consistent.locateInsert_empty (empty : index.chunks = []) (ordinal : Nat)
    : index.locateInsert ordinal = (0, 0) := by
  have none : index.flat = [] := by
    rw [flat, empty]
    rfl
  rw [HeightIndex.locateInsert, consistent.locate_past (by rw [none]; exact Nat.zero_le _), empty]
  rfl

theorem Consistent.sums_before {before after : List (List H)}
    (split : parts index.chunks = before ++ after)
    : treePrefix index.sums before.length = before.flatten.sum := by
  obtain ⟨earlier, later, chunks, isBefore, -⟩ := List.map_eq_append_iff.mp split
  have size : before.length = earlier.length := by
    rw [← isBefore, List.length_map]
  rw [treePrefix, consistent.sums.prefixTotal, ← List.map_take, chunks, size, List.take_left,
    sum_totals fun chunk member =>
      consistent.chunks chunk (chunks ▸ List.mem_append_left _ member)]
  rw [← isBefore]
  rfl

theorem Consistent.counts_before {before after : List (List H)}
    (split : parts index.chunks = before ++ after)
    : treePrefix index.counts before.length = before.flatten.length := by
  rw [treePrefix, consistent.counts.prefixTotal, ← List.map_take, split, List.take_left,
    sum_map_length]

theorem Consistent.height (ordinal : Nat) : index.height ordinal = index.flat[ordinal]? := by
  rcases Nat.lt_or_ge ordinal index.flat.length with inside | past
  · obtain ⟨before, left, height, right, after, split, place, found⟩ := consistent.locate inside
    have position : ordinal = (before.flatten ++ left).length := by
      rw [place, List.length_append]
    simp only [HeightIndex.height, found, Option.bind_eq_bind, Option.bind_some]
    rw [heightsAt_of_split split, flat, flatten_split split, position]
    simp
  · rw [List.getElem?_eq_none past, HeightIndex.height, consistent.locate_past past]
    rfl

/-- The height before a block is the sum of the heights before it. -/
theorem Consistent.prefixSum (exclusiveEnd : Nat)
    : index.prefixSum exclusiveEnd = (index.flat.take exclusiveEnd).sum := by
  rw [HeightIndex.prefixSum, consistent.len, List.take_eq_take_min]
  rcases Nat.lt_or_ge exclusiveEnd index.flat.length with inside | past
  · rw [Nat.min_eq_left inside.le]
    obtain ⟨before, left, height, right, after, split, place, found⟩ := consistent.locate inside
    have position : exclusiveEnd = (before.flatten ++ left).length := by
      rw [place, List.length_append]
    rw [found, flat, flatten_split split, position, List.take_left, List.sum_append]
    dsimp only
    rw [consistent.sums_before split, heightsAt_of_split split, List.take_left]
  · rw [Nat.min_eq_right past, consistent.locate_past (Nat.le_refl _), List.take_length]
    dsimp only
    rw [← length_parts, consistent.sums_before (List.append_nil _).symm]
    rfl

theorem Consistent.totalHeight : index.totalHeight = index.flat.sum := by
  rw [HeightIndex.totalHeight, consistent.prefixSum, consistent.len, List.take_length]

end Consistent

-- Changes

section Changes

variable [AddCommGroup H] [LinearOrder H] {index : HeightIndex H}
  (consistent : index.Consistent)

include consistent

theorem Consistent.replaceChunk {earlier later : List (HeightChunk H)} {chunk chunk' : HeightChunk H}
    (chunks : index.chunks = earlier ++ chunk :: later) (sound : Sound chunk')
    (size : chunk'.heights.length = chunk.heights.length) {delta : H}
    (total : chunk'.total = chunk.total + delta)
    : ({ index with chunks := earlier ++ chunk' :: later }.addSum earlier.length delta).Consistent := by
  refine {
    chunks := ?_
    sums := ?_
    counts := ?_
    len := ?_
  }
  · intro other member
    rcases List.mem_append.mp member with inEarlier | rest
    · exact consistent.chunks other (chunks ▸ List.mem_append_left _ inEarlier)
    · rcases List.mem_cons.mp rest with rfl | inLater
      · exact sound
      · exact consistent.chunks other
          (chunks ▸ List.mem_append_right _ (List.mem_cons_of_mem _ inLater))
  · have inside : earlier.length < (index.chunks.map (·.total)).length := by
      rw [chunks]
      simp
    have old : (index.chunks.map (·.total))[earlier.length] = chunk.total := by
      simp [chunks]
    have shifts (rest : H)
        : (index.chunks.map (·.total))[earlier.length] + rest + delta = chunk'.total + rest := by
      rw [old, total]
      abel
    have climbed : Fenwick.Indexes (Fenwick.climb index.sums (earlier.length + 1) (· + delta)) _ :=
      consistent.sums.climb inside shifts
    have values : (index.chunks.map (·.total)).set earlier.length chunk'.total
        = (earlier ++ chunk' :: later).map (·.total) := by
      rw [chunks]
      simp
    rwa [values] at climbed
  · have same : (parts (earlier ++ chunk' :: later)).map List.length
        = (parts index.chunks).map List.length := by
      rw [chunks]
      simp [size]
    change Fenwick.Indexes index.counts ((parts (earlier ++ chunk' :: later)).map List.length)
    rw [same]
    exact consistent.counts
  · change index.len = (parts (earlier ++ chunk' :: later)).flatten.length
    rw [consistent.len, flat, chunks]
    simp [size]

theorem Consistent.update {ordinal : Nat} (inside : ordinal < index.flat.length) (height : H)
    : ∃ updated,
        index.update ordinal height = some updated
        ∧ updated.Consistent
        ∧ updated.flat = index.flat.set ordinal (max height 0) := by
  obtain ⟨before, left, old, right, after, split, place, found⟩ := consistent.locate inside
  obtain ⟨earlier, chunk, later, chunks, rfl, heights, rfl⟩ := exists_chunk split
  have position : ordinal = ((parts earlier).flatten ++ left).length := by
    rw [place, List.length_append]
  have here : index.chunks[earlier.length]? = some chunk := by
    rw [chunks]
    simp
  have slot : chunk.heights[left.length]? = some old := by
    rw [heights]
    simp
  let chunk' : HeightChunk H :=
    { heights := left ++ max height 0 :: right
      total := chunk.total + (max height 0 - old) }
  have changed : chunk.heights.set left.length (max height 0) = chunk'.heights := by
    rw [heights]
    simp [chunk']
  have rechunked : index.chunks.set earlier.length chunk' = earlier ++ chunk' :: later := by
    rw [chunks]
    simp
  have was := consistent.chunks chunk (by rw [chunks]; simp)
  have sound : Sound chunk' := by
    refine ⟨by simp [chunk'], ?_, ?_⟩
    · simp only [chunk', was.total, heights, List.sum_append, List.sum_cons]
      abel
    · intro value member
      have nonneg := was.nonneg value
      simp only [chunk', heights, List.mem_append, List.mem_cons] at nonneg member
      rcases member with inLeft | rfl | inRight
      · exact nonneg (.inl inLeft)
      · exact le_max_right height 0
      · exact nonneg (.inr (.inr inRight))
  have size : chunk'.heights.length = chunk.heights.length := by
    rw [heights]
    simp [chunk']
  have updated : index.update ordinal height
      = some ({ index with chunks := earlier ++ chunk' :: later }.addSum earlier.length
          (max height 0 - old)) := by
    simp only [HeightIndex.update, found, Option.bind_eq_bind, Option.bind_some, length_parts, here,
      slot, changed, pure]
    rw [← rechunked]
  refine ⟨_, updated, consistent.replaceChunk chunks sound size rfl, ?_⟩
  change (parts (earlier ++ chunk' :: later)).flatten = _
  rw [flat, flatten_split split, position]
  simp [chunk']

theorem Consistent.update_past {ordinal : Nat} (past : index.flat.length ≤ ordinal) (height : H)
    : index.update ordinal height = none := by
  simp [HeightIndex.update, consistent.locate_past past]

theorem Consistent.cutAt {ordinal : Nat} (inside : ordinal ≤ index.flat.length)
    : ∃ chunk slot,
        index.locateInsert ordinal = (chunk, slot)
        ∧ index.flat.take ordinal
          = ((parts index.chunks).take chunk).flatten ++ (index.heightsAt chunk).take slot
        ∧ index.flat.drop ordinal
          = (index.heightsAt chunk).drop slot ++ ((parts index.chunks).drop (chunk + 1)).flatten := by
  by_cases filled : index.chunks = []
  · refine ⟨0, 0, consistent.locateInsert_empty filled ordinal, ?_, ?_⟩
    all_goals simp [flat, heightsAt, parts, filled]
  · obtain ⟨before, left, right, after, split, place, found⟩ :=
      consistent.locateInsert inside filled
    have position : ordinal = (before.flatten ++ left).length := by
      rw [place, List.length_append]
    have next : (parts index.chunks).drop (before.length + 1) = after := by
      rw [split]
      simp
    refine ⟨before.length, left.length, found, ?_, ?_⟩
    · rw [flat, flatten_split split, position, List.take_left, heightsAt_of_split split,
        List.take_left, split, List.take_left]
    · rw [next, flat, flatten_split split, position, List.drop_left, heightsAt_of_split split,
        List.drop_left]

theorem Consistent.locateInsert_le {start stop : Nat} (ordered : start ≤ stop)
    (inside : stop ≤ index.flat.length)
    : (index.locateInsert start).1 ≤ (index.locateInsert stop).1 + 1
      ∧ (index.locateInsert start).1 ≤ index.chunks.length := by
  by_cases filled : index.chunks = []
  · simp [consistent.locateInsert_empty filled]
  · obtain ⟨before, left, right, after, split, place, found⟩ :=
      consistent.locateInsert (ordered.trans inside) filled
    obtain ⟨before', left', right', after', split', place', found'⟩ :=
      consistent.locateInsert inside filled
    rw [found, found']
    refine ⟨length_before_le consistent.nonempty split split' (by omega), ?_⟩
    rw [← length_parts, split]
    simp

/-- Splicing replaces an ordinal range in the flat list. -/
theorem Consistent.splice {start stop : Nat} (ordered : start ≤ stop)
    (inside : stop ≤ index.flat.length) (heights : List H)
    : ∃ spliced,
        index.splice start stop heights = some spliced
        ∧ spliced.Consistent
        ∧ spliced.flat = index.flat.take start ++ clamped heights ++ index.flat.drop stop := by
  obtain ⟨chunk, slot, found, taken, -⟩ := consistent.cutAt (ordered.trans inside)
  obtain ⟨chunk', slot', found', -, dropped⟩ := consistent.cutAt inside
  obtain ⟨next, bound⟩ := consistent.locateInsert_le ordered inside
  rw [found, found'] at next
  rw [found] at bound
  dsimp only at next bound
  obtain ⟨merged, isMerged⟩ : ∃ merged, merged
      = (index.heightsAt chunk).take slot ++ clamped heights ++ (index.heightsAt chunk').drop slot' :=
    ⟨_, rfl⟩
  obtain ⟨chunks, rechunked⟩ : ∃ chunks, chunks
      = index.chunks.take chunk ++ cut merged ++ index.chunks.drop (chunk' + 1) := ⟨_, rfl⟩
  have first : min chunk (min (chunk' + 1) index.chunks.length) = chunk := by omega
  have last : index.chunks.drop (min (chunk' + 1) index.chunks.length)
      = index.chunks.drop (chunk' + 1) := by
    rcases Nat.le_total (chunk' + 1) index.chunks.length with short | past
    · rw [Nat.min_eq_left short]
    · rw [Nat.min_eq_right past, List.drop_length, List.drop_eq_nil_of_le past]
  have spliced : index.splice start stop heights
      = some (HeightIndex.retree
          { index with
            chunks
            len := index.len - (stop - start) + (clamped heights).length }) := by
    rw [HeightIndex.splice, consistent.len, if_pos ⟨ordered, inside⟩, found, found']
    dsimp only
    rw [first, last, rechunked, isMerged]
    rfl
  have flattened : (parts chunks).flatten
      = index.flat.take start ++ clamped heights ++ index.flat.drop stop := by
    rw [rechunked, parts_append, parts_append, parts_cut, taken, dropped, List.flatten_append,
      List.flatten_append, chunksOf_flatten, isMerged]
    simp [parts]
  refine ⟨_, spliced, .retree ?_ ?_, flattened⟩
  · have nonneg : ∀ height ∈ merged, 0 ≤ height := by
      intro height member
      rw [isMerged] at member
      simp only [List.mem_append] at member
      rcases member with (before | inserted) | after
      · apply consistent.nonneg height (List.mem_of_mem_take (i := start) _)
        rw [taken]
        exact List.mem_append_right _ before
      · exact clamped_nonneg heights height inserted
      · apply consistent.nonneg height (List.mem_of_mem_drop (i := stop) _)
        rw [dropped]
        exact List.mem_append_left _ after
    intro other member
    change other ∈ chunks at member
    rw [rechunked] at member
    simp only [List.mem_append] at member
    rcases member with (earlier | fresh) | later
    · exact consistent.chunks other (List.mem_of_mem_take earlier)
    · exact sound_of_mem_cut nonneg fresh
    · exact consistent.chunks other (List.mem_of_mem_drop later)
  · change index.len - (stop - start) + (clamped heights).length = (parts chunks).flatten.length
    rw [flattened, consistent.len]
    simp only [List.length_append, List.length_take, List.length_drop]
    omega

theorem Consistent.splice_invalid {start stop : Nat}
    (invalid : ¬ (start ≤ stop ∧ stop ≤ index.flat.length)) (heights : List H)
    : index.splice start stop heights = none := by
  rw [HeightIndex.splice, consistent.len, if_neg invalid]

end Changes

end HeightIndex

end Hane.Presentation
