import Hane.Markdown.BlockStore

/-! The chunked store against the flat list of its blocks. -/

namespace Hane.Markdown

open Hane.Foundations

theorem sliceChunks_flatten {α : Type*} (items : List α) : (sliceChunks items).flatten = items := by
  fun_induction sliceChunks items with
  | case1 => rfl
  | case2 item rest ih =>
      rw [List.flatten_cons, ih, List.cons_append, List.take_append_drop]

theorem ne_nil_of_mem_sliceChunks {α : Type*} {items part : List α}
    (member : part ∈ sliceChunks items)
    : part ≠ [] := by
  fun_induction sliceChunks items with
  | case1 => exact absurd member List.not_mem_nil
  | case2 item rest ih =>
      rcases List.mem_cons.mp member with rfl | later
      · exact List.cons_ne_nil _ _
      · exact ih later

@[simp] theorem totalLength_append {T : Type} (left right : List (T × Nat))
    : totalLength (left ++ right) = totalLength left + totalLength right :=
  weight_append Prod.snd left right

namespace BlockStore

variable {T : Type}

/-- The blocks of all chunks in order. -/
def flatItems (chunks : List (Chunk T)) : List (T × Nat) := (chunks.map (·.items)).flatten

def flat (store : BlockStore T) : List (T × Nat) := flatItems store.chunks

@[simp] theorem flatItems_nil : flatItems ([] : List (Chunk T)) = [] := rfl

@[simp] theorem flatItems_append (left right : List (Chunk T))
    : flatItems (left ++ right) = flatItems left ++ flatItems right := by
  simp [flatItems]

@[simp] theorem flatItems_cons (chunk : Chunk T) (rest : List (Chunk T))
    : flatItems (chunk :: rest) = chunk.items ++ flatItems rest := by
  simp [flatItems]

/-- A chunk that holds blocks and their summed length. -/
structure Chunk.Sound (chunk : Chunk T) : Prop where
  nonempty : chunk.items ≠ []
  bytes : chunk.bytes = totalLength chunk.items

/-- Every chunk is sound and both trees hold the chunk totals. -/
structure Consistent (store : BlockStore T) : Prop where
  chunks : ∀ chunk ∈ store.chunks, Chunk.Sound chunk
  bytes : store.bytes.Indexes (store.chunks.map (·.bytes))
  counts : store.counts.Indexes (store.chunks.map (·.items.length))

theorem Consistent.fromChunks {chunks : List (Chunk T)}
    (sound : ∀ chunk ∈ chunks, Chunk.Sound chunk)
    : (fromChunks chunks).Consistent :=
  ⟨sound, .build _, .build _⟩

theorem sound_of_mem_cut {items : List (T × Nat)} {chunk : Chunk T}
    (member : chunk ∈ (sliceChunks items).map Chunk.new)
    : Chunk.Sound chunk := by
  obtain ⟨part, partOf, rfl⟩ := List.mem_map.mp member
  exact ⟨ne_nil_of_mem_sliceChunks partOf, rfl⟩

theorem flatItems_cut (items : List (T × Nat))
    : flatItems ((sliceChunks items).map Chunk.new) = items := by
  have same : ((sliceChunks items).map Chunk.new).map (·.items) = sliceChunks items := by
    rw [List.map_map]
    exact List.map_id _
  unfold flatItems
  rw [same, sliceChunks_flatten]

theorem Consistent.new (items : List (T × Nat)) : (new items).Consistent :=
  .fromChunks fun _ member => sound_of_mem_cut member

theorem flat_new (items : List (T × Nat)) : (new items).flat = items := flatItems_cut items

theorem sum_counts (chunks : List (Chunk T))
    : (chunks.map (·.items.length)).sum = (flatItems chunks).length := by
  unfold flatItems
  rw [List.length_flatten, List.map_map]
  rfl

/-- The chunk bytes before a chunk sum to the bytes of the blocks before it, by induction on
the chunks.
-/
theorem sum_bytes {chunks : List (Chunk T)} (sound : ∀ chunk ∈ chunks, Chunk.Sound chunk)
    : (chunks.map (·.bytes)).sum = totalLength (flatItems chunks) := by
  induction chunks with
  | nil => rfl
  | cons chunk rest ih =>
      have first := (sound chunk List.mem_cons_self).bytes
      have later := ih fun other member => sound other (List.mem_cons_of_mem _ member)
      rw [List.map_cons, List.sum_cons, first, later, flatItems_cons, totalLength_append]

theorem flat_split {store : BlockStore T} {before after : List (Chunk T)} {chunk : Chunk T}
    {left right : List (T × Nat)} (split : store.chunks = before ++ chunk :: after)
    (items : chunk.items = left ++ right)
    : store.flat = (flatItems before ++ left) ++ (right ++ flatItems after) := by
  unfold flat
  rw [split, flatItems_append, flatItems_cons, items]
  simp only [List.append_assoc]

theorem itemsAt_append {store : BlockStore T} {before after : List (Chunk T)}
    {chunk : Chunk T} (split : store.chunks = before ++ chunk :: after)
    : store.itemsAt before.length = chunk.items := by
  unfold itemsAt
  rw [split]
  simp

section Consistent

variable {store : BlockStore T} (consistent : store.Consistent)

include consistent

theorem Consistent.len : store.len = store.flat.length := by
  unfold BlockStore.len
  rw [consistent.counts.total, sum_counts]
  rfl

theorem Consistent.totalBytes : store.totalBytes = totalLength store.flat := by
  unfold BlockStore.totalBytes
  rw [consistent.bytes.total, sum_bytes consistent.chunks]
  rfl

/-- A search by counts finds the chunk and the slot of a block. Witness: the highest prefix of
counts within the ordinal stops right before the chunk that holds it.
-/
theorem Consistent.locate {ordinal : Nat} (inside : ordinal < store.flat.length)
    : ∃ before chunk after left item right,
        store.chunks = before ++ chunk :: after
        ∧ chunk.items = left ++ item :: right
        ∧ ordinal = (flatItems before ++ left).length
        ∧ store.locate ordinal = some (before.length, left.length) := by
  have highest := consistent.counts.search ordinal
  unfold BlockStore.locate
  rw [if_neg (by rw [consistent.len]; omega)]
  rcases found : store.counts.search ordinal with ⟨index, sum⟩
  rw [found] at highest
  obtain ⟨bound, sumEq, reaches, highest⟩ := highest
  dsimp only at bound sumEq reaches highest
  rw [List.length_map] at bound highest
  rw [← List.map_take, sum_counts] at sumEq
  have total : (flatItems (store.chunks.take store.chunks.length)).length = store.flat.length := by
    rw [List.take_length]
    rfl
  have short : index < store.chunks.length := by
    rcases Nat.lt_or_eq_of_le bound with short | full
    · exact short
    · rw [full] at sumEq
      omega
  have split : store.chunks
      = store.chunks.take index ++ store.chunks[index] :: store.chunks.drop (index + 1) := by
    rw [List.cons_getElem_drop_succ, List.take_append_drop]
  have next : ordinal < sum + store.chunks[index].items.length := by
    by_contra past
    have higher := highest (index + 1) (by omega)
    rw [← List.map_take, sum_counts, List.take_add_one, List.getElem?_eq_getElem short,
      flatItems_append, List.length_append, ← sumEq] at higher
    simp only [Option.toList_some, flatItems_cons, List.length_append] at higher
    have small := higher (by simp [flatItems]; omega)
    omega
  have slot : ordinal - sum < store.chunks[index].items.length := by omega
  refine ⟨_, _, _, store.chunks[index].items.take (ordinal - sum),
    store.chunks[index].items[ordinal - sum], store.chunks[index].items.drop (ordinal - sum + 1),
    split, ?_, ?_, ?_⟩
  · rw [List.cons_getElem_drop_succ, List.take_append_drop]
  · rw [List.length_append, ← sumEq, List.length_take]
    omega
  · rw [List.length_take, List.length_take, Nat.min_eq_left bound, Nat.min_eq_left slot.le]

theorem Consistent.locate_past {ordinal : Nat} (past : store.flat.length ≤ ordinal)
    : store.locate ordinal = none := by
  unfold BlockStore.locate
  rw [consistent.len]
  exact if_pos past

/-- The insertion point of an ordinal up to the end splits the blocks there. -/
theorem Consistent.locateInsert {ordinal : Nat} (inside : ordinal ≤ store.flat.length)
    (filled : store.chunks ≠ [])
    : ∃ before chunk after left right,
        store.chunks = before ++ chunk :: after
        ∧ chunk.items = left ++ right
        ∧ ordinal = (flatItems before).length + left.length
        ∧ store.locateInsert ordinal = (before.length, left.length) := by
  unfold BlockStore.locateInsert
  rcases Nat.lt_or_eq_of_le inside with block | stop
  · obtain ⟨before, chunk, after, left, item, right, split, items, position, found⟩ :=
      consistent.locate block
    refine ⟨before, chunk, after, left, item :: right, split, items,
      position.trans List.length_append, ?_⟩
    rw [found]
    rfl
  · obtain ⟨before, chunk, split⟩ : ∃ before chunk, store.chunks = before ++ [chunk] :=
      ⟨store.chunks.dropLast, store.chunks.getLast filled, (List.dropLast_append_getLast filled).symm⟩
    refine ⟨before, chunk, [], chunk.items, [], split, (List.append_nil _).symm, ?_, ?_⟩
    · rw [stop]
      unfold BlockStore.flat
      rw [split, flatItems_append, List.length_append, flatItems_cons]
      simp [flatItems]
    · rw [consistent.locate_past stop.ge, split]
      simp

theorem Consistent.locateInsert_empty (empty : store.chunks = []) (ordinal : Nat)
    : store.locateInsert ordinal = (0, 0) := by
  have none : store.flat = [] := by
    unfold BlockStore.flat
    rw [empty]
    rfl
  unfold BlockStore.locateInsert
  rw [consistent.locate_past (by rw [none]; exact Nat.zero_le _), empty]
  rfl

theorem Consistent.bytes_before {before after : List (Chunk T)}
    (split : store.chunks = before ++ after)
    : store.bytes.prefixTotal before.length = totalLength (flatItems before) := by
  rw [consistent.bytes.prefixTotal, ← List.map_take, split, List.take_left]
  apply sum_bytes
  intro chunk member
  exact consistent.chunks chunk (split ▸ List.mem_append_left _ member)

theorem Consistent.counts_before {before after : List (Chunk T)}
    (split : store.chunks = before ++ after)
    : store.counts.prefixTotal before.length = (flatItems before).length := by
  rw [consistent.counts.prefixTotal, ← List.map_take, split, List.take_left, sum_counts]

/-- Reading a block reads it off the flat list. -/
theorem Consistent.get (ordinal : Nat) : store.get ordinal = store.flat[ordinal]? := by
  unfold BlockStore.get
  rcases Nat.lt_or_ge ordinal store.flat.length with inside | past
  · obtain ⟨before, chunk, after, left, item, right, split, items, place, found⟩ :=
      consistent.locate inside
    rw [found, flat_split split items, place]
    simp only [Option.bind_eq_bind, Option.bind_some]
    rw [itemsAt_append split, items]
    simp
  · rw [consistent.locate_past past, List.getElem?_eq_none past]
    rfl

/-- A block starts where the blocks before it end. -/
theorem Consistent.start (ordinal : Nat)
    : store.start ordinal = totalLength (store.flat.take ordinal) := by
  unfold BlockStore.start
  rcases Nat.lt_or_ge ordinal store.flat.length with inside | past
  · obtain ⟨before, chunk, after, left, item, right, split, items, place, found⟩ :=
      consistent.locate inside
    rw [found, flat_split split items, place, List.take_left, totalLength_append]
    dsimp only
    rw [consistent.bytes_before split, itemsAt_append split, items, List.take_left]
  · rw [consistent.locate_past past, List.take_of_length_le past]
    exact consistent.totalBytes

end Consistent

/-- Scanning a chunk finds the block that owns the position, counted from the chunk's start, by
induction on the blocks.
-/
theorem scanSlots_eq (items : List (T × Nat)) {target sum : Nat} (slot : Nat)
    (reached : sum ≤ target)
    : scanSlots target items slot sum
      = if target < sum + totalLength items then
          some (slot + indexAt Prod.snd items (target - sum))
        else
          none := by
  unfold totalLength
  induction items generalizing slot sum with
  | nil =>
      rw [if_neg (by simp; omega)]
      rfl
  | cons item rest ih =>
      obtain ⟨payload, length⟩ := item
      rw [scanSlots, weight_cons, indexAt]
      by_cases here : target < sum + length
      · rw [if_pos here, if_pos (by omega), if_pos (show target - sum < length by omega)]
        rfl
      · rw [if_neg here, ih (slot + 1) (Nat.le_of_not_lt here),
          if_neg (show ¬ target - sum < length by omega), Nat.add_assoc sum]
        split
        · rw [Nat.sub_sub]
          congr 1
          dsimp only
          omega
        · rfl

section Consistent

variable {store : BlockStore T} (consistent : store.Consistent)

include consistent

theorem Consistent.isEmpty : store.isEmpty = store.flat.isEmpty := by
  unfold BlockStore.isEmpty
  rw [consistent.len]
  cases store.flat <;> rfl

/-- A search by bytes finds the chunk of the block that owns an offset, or the last chunk at
the end. Witness: the highest prefix of bytes within the offset stops right before that chunk.
-/
theorem Consistent.search_bytes (filled : store.chunks ≠ []) {target : Nat}
    (inside : target ≤ totalLength store.flat)
    : ∃ before chunk after,
        store.chunks = before ++ chunk :: after
        ∧ min (store.bytes.search target).1 (store.chunks.length - 1) = before.length
        ∧ totalLength (flatItems before) ≤ target
        ∧ (target < totalLength store.flat
          → target < totalLength (flatItems before) + totalLength chunk.items)
        ∧ (target = totalLength store.flat → after = []) := by
  have size := List.length_pos_of_ne_nil filled
  have whole : ((store.chunks.map (·.bytes)).take store.chunks.length).sum
      = totalLength store.flat := by
    rw [← List.map_take, List.take_length, sum_bytes consistent.chunks]
    rfl
  obtain ⟨bound, sum, reaches, highest⟩ := consistent.bytes.search target
  rw [List.length_map] at bound highest
  rw [sum] at reaches
  generalize found : (store.bytes.search target).1 = top at bound reaches highest
  obtain ⟨index, isMin⟩ : ∃ index, index = min top (store.chunks.length - 1) := ⟨_, rfl⟩
  have short : index < store.chunks.length := by omega
  have split : store.chunks
      = store.chunks.take index ++ store.chunks[index] :: store.chunks.drop (index + 1) := by
    rw [List.cons_getElem_drop_succ, List.take_append_drop]
  have prefixes (stop : Nat) : ((store.chunks.map (·.bytes)).take stop).sum
      = totalLength (flatItems (store.chunks.take stop)) := by
    rw [← List.map_take]
    exact sum_bytes fun chunk member => consistent.chunks chunk (List.mem_of_mem_take member)
  have next : totalLength (flatItems (store.chunks.take (index + 1)))
      = totalLength (flatItems (store.chunks.take index))
        + totalLength store.chunks[index].items := by
    rw [List.take_add_one, List.getElem?_eq_getElem short]
    simp only [Option.toList_some, flatItems_append, flatItems_cons, flatItems_nil,
      List.append_nil, totalLength_append]
  refine ⟨_, _, _, split, ?_, ?_, ?_, ?_⟩
  · rw [List.length_take]
    omega
  · have mono := weight_take_mono id (store.chunks.map (·.bytes)) (show index ≤ top by omega)
    simp only [weight, List.map_id, prefixes] at mono
    rw [prefixes] at reaches
    omega
  · intro before
    by_contra past
    have higher := highest (index + 1) short (by rw [prefixes, next]; omega)
    have full : top = store.chunks.length := by omega
    rw [full, whole] at reaches
    omega
  · intro atEnd
    have higher := highest store.chunks.length (Nat.le_refl _) (by rw [whole, atEnd])
    apply List.drop_eq_nil_of_le
    omega

/-- Looking an offset up finds the block that owns it, or the last block at and past the end.
-/
theorem Consistent.ordinalAt (offset : Nat)
    : store.ordinalAt offset
      = if store.flat = [] then
          none
        else
          some (min (indexAt Prod.snd store.flat offset) (store.flat.length - 1)) := by
  unfold BlockStore.ordinalAt
  rw [consistent.isEmpty, consistent.totalBytes]
  by_cases empty : store.flat = []
  · rw [if_pos empty, empty]
    rfl
  · have filled : store.chunks ≠ [] := by
      intro none
      apply empty
      unfold flat
      rw [none]
      rfl
    obtain ⟨before, chunk, after, split, place, reached, owned, last⟩ :=
      consistent.search_bytes filled (Nat.min_le_right offset (totalLength store.flat))
    have flat : store.flat = flatItems before ++ (chunk.items ++ flatItems after) := by
      have parts := flat_split split (List.append_nil chunk.items).symm
      simpa using parts
    rw [if_neg empty, if_neg (by simpa using empty)]
    dsimp only
    rw [place, consistent.bytes_before split, consistent.counts_before split,
      itemsAt_append split, scanSlots_eq _ _ reached]
    by_cases inside : offset < totalLength store.flat
    · have target : min offset (totalLength store.flat) = offset := by omega
      rw [target] at reached owned ⊢
      have owner := indexAt_lt_length Prod.snd store.flat inside
      have here : offset - weight Prod.snd (flatItems before) < weight Prod.snd chunk.items :=
        Nat.sub_lt_left_of_lt_add reached (owned inside)
      rw [if_pos (owned inside), Nat.min_eq_left (by omega), flat,
        indexAt_append_right Prod.snd _ _ reached, indexAt_append_left Prod.snd _ _ here,
        Nat.zero_add]
      rfl
    · have target : min offset (totalLength store.flat) = totalLength store.flat := by omega
      rw [target] at reached last ⊢
      obtain rfl := last rfl
      have nonempty := (consistent.chunks chunk (by rw [split]; simp)).nonempty
      have size := List.length_pos_of_ne_nil nonempty
      have total : totalLength store.flat
          = totalLength (flatItems before) + totalLength chunk.items := by
        rw [flat]
        simp [flatItems]
      have count : store.flat.length = (flatItems before).length + chunk.items.length := by
        rw [flat]
        simp [flatItems]
      rw [if_neg (by omega), indexAt_eq_length _ _ (show weight Prod.snd store.flat ≤ offset from
        Nat.le_of_not_lt inside)]
      dsimp only
      congr 1
      omega

end Consistent

-- Iteration

/-- Blocks with their ordinals and start offsets, counted from `next` and `offset`. -/
def numbered (next offset : Nat) : List (T × Nat) → List (Nat × T × Nat × Nat)
  | [] => []
  | (payload, length) :: rest =>
      (next, payload, offset, length) :: numbered (next + 1) (offset + length) rest

/-- The blocks left from a slot of the first chunk on. -/
def remaining : List (Chunk T) → Nat → List (T × Nat)
  | [], _ => []
  | chunk :: rest, slot => chunk.items.drop slot ++ flatItems rest

theorem remaining_cons (chunk : Chunk T) (rest : List (Chunk T)) (slot : Nat)
    : remaining (chunk :: rest) slot = chunk.items.drop slot ++ flatItems rest := rfl

/-- The iteration stands where `rest` is left. -/
def Blocks.Stands (store : BlockStore T) (blocks : Blocks) (rest : List (T × Nat)) : Prop :=
  ∃ before parts,
    store.chunks = before ++ parts
    ∧ blocks.chunk = before.length
    ∧ remaining parts blocks.slot = rest

/-- Skipping exhausted chunks leaves the same blocks and stops at one of them, or past the last
chunk. By induction on the chunks.
-/
theorem skipExhausted_spec (before parts : List (Chunk T)) (slot : Nat)
    : ∃ before' parts' slot',
        before ++ parts = before' ++ parts'
        ∧ skipExhausted parts before.length slot = (before'.length, slot')
        ∧ remaining parts' slot' = remaining parts slot
        ∧ ∀ chunk ∈ parts'.head?, slot' < chunk.items.length := by
  induction parts generalizing before slot with
  | nil => exact ⟨before, [], slot, rfl, rfl, rfl, by simp⟩
  | cons chunk rest ih =>
      unfold skipExhausted
      by_cases exhausted : slot ≥ chunk.items.length
      · obtain ⟨before', parts', slot', split, found, same, inside⟩ := ih (before ++ [chunk]) 0
        refine ⟨before', parts', slot', ?_, ?_, ?_, inside⟩
        · rw [← split, List.append_assoc, List.singleton_append]
        · rw [if_pos exhausted]
          simpa using found
        · rw [same, remaining_cons, List.drop_eq_nil_of_le exhausted, List.nil_append]
          cases rest with
          | nil => rfl
          | cons next later => rw [remaining_cons, List.drop_zero, flatItems_cons]
      · refine ⟨before, chunk :: rest, slot, rfl, if_neg exhausted, rfl, ?_⟩
        simpa using exhausted

theorem Blocks.Stands.step {store : BlockStore T} {blocks : Blocks} {rest : List (T × Nat)}
    (stands : blocks.Stands store rest)
    : match rest with
      | [] => blocks.step store = none
      | (payload, length) :: rest =>
          ∃ chunk slot,
            blocks.step store
              = some ((blocks.next, payload, blocks.offset, length),
                  ⟨chunk, slot, blocks.offset + length, blocks.next + 1⟩)
            ∧ Blocks.Stands store ⟨chunk, slot, blocks.offset + length, blocks.next + 1⟩ rest := by
  obtain ⟨before, parts, split, chunk, left⟩ := stands
  obtain ⟨before', parts', slot', split', found, same, inside⟩ :=
    skipExhausted_spec before parts blocks.slot
  have position : skipExhausted (store.chunks.drop blocks.chunk) blocks.chunk blocks.slot
      = (before'.length, slot') := by
    rw [split, chunk, List.drop_left, found]
  rw [← split] at split'
  unfold Blocks.step
  rw [position]
  dsimp only
  cases parts' with
  | nil =>
      have none : rest = [] := by
        rw [← left, ← same]
        rfl
      subst none
      have past : store.itemsAt before'.length = [] := by
        unfold itemsAt
        rw [split']
        simp
      simp [past]
  | cons current later =>
      have slotInside := inside current rfl
      have here : store.itemsAt before'.length = current.items := itemsAt_append split'
      have next : rest = current.items[slot'] :: remaining (current :: later) (slot' + 1) := by
        rw [← left, ← same, remaining_cons, List.drop_eq_getElem_cons slotInside]
        rfl
      subst next
      rw [here, List.getElem?_eq_getElem slotInside]
      exact ⟨before'.length, slot' + 1, rfl, before', current :: later, split', rfl, rfl⟩

/-- An iteration yields the blocks left, numbered, by induction on how many are asked for. -/
theorem Blocks.Stands.take {store : BlockStore T} {blocks : Blocks} {rest : List (T × Nat)}
    (stands : blocks.Stands store rest) (count : Nat)
    : Blocks.take store count blocks = (numbered blocks.next blocks.offset rest).take count := by
  induction count generalizing blocks rest with
  | zero => rfl
  | succ count ih =>
      unfold Blocks.take
      have step := stands.step
      cases rest with
      | nil =>
          dsimp only at step
          rw [step]
          rfl
      | cons item rest =>
          obtain ⟨chunk, slot, stepped, stands⟩ := step
          rw [stepped]
          dsimp only
          rw [ih stands]
          rfl

theorem Consistent.iterFrom {store : BlockStore T} (consistent : store.Consistent)
    (ordinal : Nat)
    : (store.iterFrom ordinal).Stands store (store.flat.drop ordinal) := by
  unfold BlockStore.iterFrom
  by_cases filled : store.chunks = []
  · have none : store.flat = [] := by
      unfold flat
      rw [filled]
      rfl
    rw [consistent.locateInsert_empty filled, none, List.drop_nil]
    exact ⟨[], [], filled, rfl, rfl⟩
  · have atMost : store.locateInsert ordinal = store.locateInsert (min ordinal store.flat.length)
        ∧ store.flat.drop ordinal = store.flat.drop (min ordinal store.flat.length) := by
      rcases Nat.le_total ordinal store.flat.length with inside | past
      · rw [Nat.min_eq_left inside]
        exact ⟨rfl, rfl⟩
      · rw [Nat.min_eq_right past]
        unfold BlockStore.locateInsert
        rw [consistent.locate_past past, consistent.locate_past (Nat.le_refl _),
          List.drop_eq_nil_of_le past, List.drop_length]
        exact ⟨rfl, rfl⟩
    obtain ⟨before, chunk, after, left, right, split, items, position, found⟩ :=
      consistent.locateInsert (Nat.min_le_right ordinal store.flat.length) filled
    have place : min ordinal store.flat.length = (flatItems before ++ left).length := by
      rw [position, List.length_append]
    rw [atMost.1, atMost.2, found, place, flat_split split items, List.drop_left]
    refine ⟨before, chunk :: after, split, rfl, ?_⟩
    dsimp only
    rw [remaining_cons, items, List.drop_left]

-- Updates

theorem modify_append_cons {α : Type*} (f : α → α) (left : List α) (item : α) (right : List α)
    : (left ++ item :: right).modify left.length f = left ++ f item :: right := by
  induction left with
  | nil => rfl
  | cons first left ih => exact congrArg (List.cons first) ih

/-- Replacing one chunk by one with as many blocks keeps the counts tree. -/
theorem Consistent.replaceChunk {store : BlockStore T} (consistent : store.Consistent)
    {before after : List (Chunk T)} {chunk chunk' : Chunk T}
    (split : store.chunks = before ++ chunk :: after) (sound : Chunk.Sound chunk')
    (size : chunk'.items.length = chunk.items.length)
    : Consistent
        { store with
          chunks := before ++ chunk' :: after
          bytes := store.bytes.add before.length ((chunk'.bytes : Int) - chunk.bytes) } := by
  obtain ⟨chunks, bytes, counts⟩ := consistent
  refine {
    chunks := ?_
    bytes := ?_
    counts := ?_
  }
  · intro other member
    rcases List.mem_append.mp member with earlier | later
    · exact chunks other (split ▸ List.mem_append_left _ earlier)
    · rcases List.mem_cons.mp later with rfl | later
      · exact sound
      · exact chunks other (split ▸ List.mem_append_right _ (List.mem_cons_of_mem _ later))
  · have inside : before.length < (store.chunks.map (·.bytes)).length := by
      rw [split]
      simp
    have old : (store.chunks.map (·.bytes))[before.length] = chunk.bytes := by
      simp [split]
    have added := bytes.add inside chunk'.bytes
    rw [old] at added
    have values : (store.chunks.map (·.bytes)).set before.length chunk'.bytes
        = (before ++ chunk' :: after).map (·.bytes) := by
      rw [split]
      simp
    rwa [values] at added
  · have same : (before ++ chunk' :: after).map (·.items.length)
        = store.chunks.map (·.items.length) := by
      rw [split]
      simp [size]
    dsimp only
    rw [same]
    exact counts

/-- Setting a length sets it in the flat list, and does nothing past the last block. -/
theorem Consistent.setLength {store : BlockStore T} (consistent : store.Consistent)
    (ordinal length : Nat)
    : (store.setLength ordinal length).Consistent
      ∧ (store.setLength ordinal length).flat
        = store.flat.modify ordinal fun item => (item.1, length) := by
  unfold BlockStore.setLength
  rcases Nat.lt_or_ge ordinal store.flat.length with inside | past
  · obtain ⟨before, chunk, after, left, item, right, split, items, place, found⟩ :=
      consistent.locate inside
    have here : store.chunks[before.length]? = some chunk := by
      rw [split]
      simp
    have old : ((chunk.items[left.length]?).map Prod.snd).getD 0 = item.2 := by
      rw [items]
      simp
    have bytes := (consistent.chunks chunk (by rw [split]; simp)).bytes
    let chunk' : Chunk T :=
      { items := left ++ (item.1, length) :: right
        bytes := wrappingAddSigned chunk.bytes ((length : Int) - item.2) }
    have modified : chunk.items.modify left.length (fun item => (item.1, length))
        = chunk'.items := by
      rw [items]
      exact modify_append_cons _ left item right
    have sum : chunk'.bytes = totalLength chunk'.items
        ∧ (chunk'.bytes : Int) - chunk.bytes = (length : Int) - item.2 := by
      rw [bytes, items]
      simp only [chunk', wrappingAddSigned, bytes, items, totalLength, weight_append,
        weight_cons]
      omega
    have sound : Chunk.Sound chunk' := ⟨by simp [chunk'], sum.1⟩
    have replaced := consistent.replaceChunk split sound (by rw [items]; simp [chunk'])
    rw [sum.2] at replaced
    rw [found]
    dsimp only
    rw [here]
    dsimp only
    rw [old, modified, split, List.set_append_right _ _ (Nat.le_refl _), Nat.sub_self,
      List.set_cons_zero]
    refine ⟨replaced, ?_⟩
    rw [flat_split split items, place, List.cons_append, modify_append_cons]
    simp [flat, chunk']
  · rw [consistent.locate_past past, List.modify_eq_self past]
    exact ⟨consistent, rfl⟩

/-- Setting a payload sets it in the flat list, and does nothing past the last block. -/
theorem Consistent.setPayload {store : BlockStore T} (consistent : store.Consistent)
    (ordinal : Nat) (payload : T)
    : (store.setPayload ordinal payload).Consistent
      ∧ (store.setPayload ordinal payload).flat
        = store.flat.modify ordinal fun item => (payload, item.2) := by
  unfold BlockStore.setPayload
  rcases Nat.lt_or_ge ordinal store.flat.length with inside | past
  · obtain ⟨before, chunk, after, left, item, right, split, items, place, found⟩ :=
      consistent.locate inside
    have modified : chunk.items.modify left.length (fun item => (payload, item.2))
        = left ++ (payload, item.2) :: right := by
      rw [items]
      exact modify_append_cons _ left item right
    have chunks : store.chunks.modify before.length (fun found =>
          { found with items := found.items.modify left.length fun item => (payload, item.2) })
        = before ++ { chunk with items := left ++ (payload, item.2) :: right } :: after := by
      rw [split, modify_append_cons, modified]
    have sameBytes : (before ++ { chunk with items := left ++ (payload, item.2) :: right } :: after).map
          (·.bytes)
        = store.chunks.map (·.bytes) := by
      rw [split]
      simp
    have sameCounts : (before ++ { chunk with items := left ++ (payload, item.2) :: right } :: after).map
          (·.items.length)
        = store.chunks.map (·.items.length) := by
      rw [split]
      simp [items]
    rw [found]
    dsimp only
    rw [chunks]
    refine ⟨⟨?_, ?_, ?_⟩, ?_⟩
    · intro other member
      rcases List.mem_append.mp member with earlier | later
      · exact consistent.chunks other (split ▸ List.mem_append_left _ earlier)
      · rcases List.mem_cons.mp later with rfl | later
        · have bytes := (consistent.chunks chunk (by rw [split]; simp)).bytes
          refine ⟨by simp, ?_⟩
          rw [bytes, items]
          simp [totalLength]
        · exact consistent.chunks other
            (split ▸ List.mem_append_right _ (List.mem_cons_of_mem _ later))
    · dsimp only
      rw [sameBytes]
      exact consistent.bytes
    · dsimp only
      rw [sameCounts]
      exact consistent.counts
    · rw [flat_split split items, place, List.cons_append, modify_append_cons]
      simp [flat]
  · rw [consistent.locate_past past, List.modify_eq_self past]
    exact ⟨consistent, rfl⟩

/-- Chunks of which some are cut anew are consistent once the trees are rebuilt. -/
theorem Consistent.rechunk {store : BlockStore T} (consistent : store.Consistent)
    (first last : Nat) (merged : List (T × Nat))
    : (BlockStore.fromChunks (store.chunks.take first ++ (sliceChunks merged).map Chunk.new
        ++ store.chunks.drop last)).Consistent := by
  apply Consistent.fromChunks
  intro chunk partOf
  rcases List.mem_append.mp partOf with partOf | later
  · rcases List.mem_append.mp partOf with earlier | cut
    · exact consistent.chunks chunk (List.mem_of_mem_take earlier)
    · exact sound_of_mem_cut cut
  · exact consistent.chunks chunk (List.mem_of_mem_drop later)

theorem flat_fromChunks (chunks : List (Chunk T))
    : (fromChunks chunks).flat = flatItems chunks := rfl

/-- Splicing replaces an ordinal range in the flat list. Witness: the two insertion points, of
which the first lies at most one chunk past the last.
-/
theorem Consistent.splice {store : BlockStore T} (consistent : store.Consistent)
    {start stop : Nat} (ordered : start ≤ stop) (inside : stop ≤ store.flat.length)
    (items : List (T × Nat))
    : (store.splice start stop items).Consistent
      ∧ (store.splice start stop items).flat
        = store.flat.take start ++ items ++ store.flat.drop stop := by
  unfold BlockStore.splice
  refine ⟨consistent.rechunk _ _ _, ?_⟩
  by_cases filled : store.chunks = []
  · have none : store.flat = [] := by
      unfold flat
      rw [filled]
      rfl
    rw [consistent.locateInsert_empty filled, consistent.locateInsert_empty filled,
      flat_fromChunks, none]
    simp [filled, itemsAt, flatItems_cut]
  · obtain ⟨before, chunk, after, left, right, split, parts, position, found⟩ :=
      consistent.locateInsert (Nat.le_trans ordered inside) filled
    obtain ⟨before', chunk', after', left', right', split', parts', position', found'⟩ :=
      consistent.locateInsert inside filled
    have size : store.chunks.length = before'.length + 1 + after'.length := by
      rw [split']
      simp
      omega
    have first : before.length ≤ before'.length + 1 := by
      by_contra later
      have short : before.length < store.chunks.length := by
        rw [split]
        simp
      obtain ⟨next, rest, rfl⟩ : ∃ next rest, after' = next :: rest :=
        List.exists_cons_of_length_pos (by omega)
      have longer : before' ++ [chunk', next] <+: before := by
        apply List.prefix_of_prefix_length_le ⟨rest, _⟩ ⟨chunk :: after, split.symm⟩
        · rw [List.length_append, List.length_cons, List.length_singleton]
          omega
        · rw [split']
          simp
      obtain ⟨extra, rfl⟩ := longer
      have nonempty := (consistent.chunks next (by rw [split']; simp)).nonempty
      have positive := List.length_pos_of_ne_nil nonempty
      have whole := congrArg List.length parts'
      simp only [flatItems_append, flatItems_cons, List.length_append] at position whole
      omega
    have place : start = (flatItems before ++ left).length := by
      rw [position, List.length_append]
    have place' : stop = (flatItems before' ++ left').length := by
      rw [position', List.length_append]
    have chunksBefore : store.chunks.take before.length = before := by
      rw [split, List.take_left]
    have chunksAfter : store.chunks.drop (before'.length + 1) = after' := by
      rw [split']
      simp
    rw [found, found', flat_fromChunks]
    rw [itemsAt_append split, itemsAt_append split', parts, parts', List.take_left, List.drop_left,
      Nat.min_eq_left (show before'.length + 1 ≤ store.chunks.length by omega),
      Nat.min_eq_left first, chunksBefore, chunksAfter, flatItems_append, flatItems_append,
      flatItems_cut]
    nth_rewrite 1 [flat_split split parts]
    rw [place, List.take_left, flat_split split' parts', place', List.drop_left]
    simp only [List.append_assoc]

end BlockStore

end Hane.Markdown
