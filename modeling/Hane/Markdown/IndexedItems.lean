import Hane.Document.EditLog
import Hane.Markdown.BlockIndex
import Hane.Markdown.FlatBlocks

/-! What the operations of the block index do to the flat list of its entries and lengths. -/

namespace Hane.Markdown

open Hane.Document Hane.Foundations

namespace BlockStore

variable {T : Type} {store : BlockStore T}

/-- The block looked up for an offset starts at or before it and ends after it, unless the
offset is the end of the last block.
-/
theorem Consistent.ordinalAt_some (consistent : store.Consistent) {offset ordinal : Nat}
    (found : store.ordinalAt offset = some ordinal) (inside : offset ≤ totalLength store.flat)
    : ordinal < store.flat.length
      ∧ totalLength (store.flat.take ordinal) ≤ offset
      ∧ (offset < totalLength (store.flat.take (ordinal + 1))
        ∨ (ordinal + 1 = store.flat.length ∧ offset = totalLength store.flat)) := by
  rw [consistent.ordinalAt] at found
  split at found
  · cases found
  · rename_i filled
    have positive := List.length_pos_iff.mpr filled
    obtain rfl := Option.some.inj found
    rcases Nat.lt_or_ge offset (totalLength store.flat) with before | past
    · have bound := indexAt_lt_length Prod.snd store.flat before
      rw [Nat.min_eq_left (by omega)]
      exact ⟨bound, weight_take_indexAt_le _ _ _,
        .inl (lt_weight_take_indexAt_succ _ _ before)⟩
    · have index : indexAt Prod.snd store.flat offset = store.flat.length :=
        indexAt_eq_length Prod.snd store.flat past
      have start := weight_take_le Prod.snd store.flat (store.flat.length - 1)
      rw [index, Nat.min_eq_right (Nat.sub_le _ _)]
      exact ⟨by omega, Nat.le_trans start past, .inr ⟨by omega, by omega⟩⟩

theorem Consistent.ordinalAt_mono (consistent : store.Consistent)
    {offset later first last : Nat} (found : store.ordinalAt offset = some first)
    (foundLater : store.ordinalAt later = some last) (ordered : offset ≤ later)
    (inside : later ≤ totalLength store.flat)
    : first ≤ last := by
  obtain ⟨firstInside, start, _⟩ :=
    consistent.ordinalAt_some found (Nat.le_trans ordered inside)
  obtain ⟨_, _, stop⟩ := consistent.ordinalAt_some foundLater inside
  by_contra after
  have mono := weight_take_mono Prod.snd store.flat (show last + 1 ≤ first by omega)
  rcases stop with stop | ⟨final, _⟩
  · have := Nat.lt_of_lt_of_le stop mono
    have startsAt : weight Prod.snd (store.flat.take first) ≤ offset := start
    omega
  · omega

theorem numbered_payloads (next offset : Nat) (items : List (T × Nat))
    : (numbered next offset items).map (fun (_, payload, _, length) => (payload, length))
      = items := by
  induction items generalizing next offset with
  | nil => rfl
  | cons item rest ih =>
      rw [numbered, List.map_cons, ih]

theorem Consistent.collect (consistent : store.Consistent) (ordinal count : Nat)
    : (Blocks.take store count (store.iterFrom ordinal)).map
          (fun (_, payload, _, length) => (payload, length))
      = (store.flat.drop ordinal).take count := by
  rw [(consistent.iterFrom ordinal).take, List.map_take, numbered_payloads]

/-- Rewriting slots in place replaces as many blocks, by induction on the new ones. -/
theorem Consistent.rewriteSlots {store : BlockStore Entry} (consistent : store.Consistent)
    {before existing after items : List (Entry × Nat)}
    (split : store.flat = before ++ existing ++ after)
    (same : items.length = existing.length)
    : (BlockIndex.rewriteSlots store before.length items).Consistent
      ∧ (BlockIndex.rewriteSlots store before.length items).flat = before ++ items ++ after := by
  induction items generalizing store before existing with
  | nil =>
      obtain rfl := List.eq_nil_of_length_eq_zero same.symm
      exact ⟨consistent, split⟩
  | cons item rest ih =>
      obtain ⟨old, existing, rfl⟩ :=
        List.exists_cons_of_length_pos (show 0 < existing.length by simp at same; omega)
      have paid := consistent.setPayload before.length item.1
      have sized := paid.1.setLength before.length item.2
      have flat : ((store.setPayload before.length item.1).setLength before.length item.2).flat
          = (before ++ [item]) ++ existing ++ after := by
        rw [sized.2, paid.2, split, List.append_assoc, List.cons_append, modify_append_cons,
          modify_append_cons]
        simp
      have next := ih sized.1 flat (by simpa using same)
      rw [List.length_append, List.length_singleton] at next
      simpa [BlockIndex.rewriteSlots] using next

theorem Consistent.joinAbove {store : BlockStore Entry} (consistent : store.Consistent)
    {before after : List (Entry × Nat)} {entry : Entry} {length : Nat}
    (split : store.flat = before ++ (entry, length) :: after) (bytes lines : Nat)
    : (BlockIndex.joinAbove store before.length bytes lines).Consistent
      ∧ (BlockIndex.joinAbove store before.length bytes lines).flat
        = before
          ++ ({ entry with lines := entry.lines + lines }, length + bytes) :: after := by
  have here : store.get before.length = some (entry, length) := by
    rw [consistent.get, split]
    simp
  have sized := consistent.setLength before.length (length + bytes)
  have size : store.length before.length = length := by
    unfold BlockStore.length
    rw [here]
    rfl
  have flat : (store.setLength before.length (length + bytes)).flat
      = before ++ (entry, length + bytes) :: after := by
    rw [sized.2, split, modify_append_cons]
  have found : (store.setLength before.length (length + bytes)).get before.length
      = some (entry, length + bytes) := by
    rw [sized.1.get, flat]
    simp
  have paid := sized.1.setPayload before.length { entry with lines := entry.lines + lines }
  unfold BlockIndex.joinAbove
  rw [size]
  dsimp only
  rw [found]
  refine ⟨paid.1, ?_⟩
  rw [paid.2, flat, modify_append_cons]

end BlockStore

namespace BlockIndex

variable {parser : Parser} {index : BlockIndex parser}

/-- The physical lines recorded for entries, summed. -/
def recordedLines (items : List (Entry × Nat)) : Nat := weight (fun item => item.1.lines) items

/-- Looking up an ordinal range collects its entries, by induction on their number. -/
private theorem filterMap_range' {α : Type} (entries : List α) (first count : Nat)
    (inside : first + count ≤ entries.length)
    : (List.range' first count).filterMap (fun ordinal => entries[ordinal]?)
      = (entries.drop first).take count := by
  induction count generalizing first with
  | zero => simp
  | succ count ih =>
      have here : first < entries.length := by omega
      rw [List.range'_succ, List.drop_eq_getElem_cons here, List.take_succ_cons,
        List.filterMap_cons, List.getElem?_eq_getElem here, ih (first + 1) (by omega)]

-- Absorbing edits

/-- The run an edit touches covers its range; it ends past the edit unless it ends the
document.
-/
structure EditedRun (index : BlockIndex parser) (delta : RevisionDelta)
    (first last combined : Nat) : Prop where
  ordered : first ≤ last
  inside : last < index.store.flat.length
  start : totalLength (index.store.flat.take first) ≤ delta.editedSourceRangeBefore.start
  stop :
    delta.editedSourceRangeBefore.stop < totalLength (index.store.flat.take (last + 1))
    ∨ (last + 1 = index.store.flat.length
      ∧ delta.editedSourceRangeBefore.stop = totalLength index.store.flat)
  combined :
    (combined : Int)
      = (totalLength (index.store.flat.take (last + 1)) : Int)
        - totalLength (index.store.flat.take first) + delta.byteDelta

theorem span_eq (consistent : index.store.Consistent) {ordinal : Nat}
    (inside : ordinal < index.store.flat.length)
    : index.span ordinal
      = ⟨totalLength (index.store.flat.take ordinal),
          totalLength (index.store.flat.take (ordinal + 1))⟩ := by
  have length : index.store.length ordinal = (index.store.flat[ordinal]).2 := by
    unfold BlockStore.length
    rw [consistent.get, List.getElem?_eq_getElem inside]
    rfl
  have stop := weight_take_succ Prod.snd index.store.flat ordinal inside
  unfold span
  rw [consistent.start, length]
  exact congrArg (SourceRange.mk _) stop.symm

/-- Looking up an edit finds the run it touches. -/
theorem editedRun_spec (consistent : index.store.Consistent) {delta : RevisionDelta}
    {first last combined : Nat}
    (ordered : delta.editedSourceRangeBefore.start ≤ delta.editedSourceRangeBefore.stop)
    (found : index.editedRun delta = some (first, last, combined))
    : index.EditedRun delta first last combined := by
  unfold editedRun at found
  dsimp only at found
  split at found
  · cases found
  · rename_i within
    obtain ⟨first', foundFirst, found⟩ := Option.bind_eq_some_iff.mp found
    obtain ⟨last', foundLast, found⟩ := Option.bind_eq_some_iff.mp found
    obtain ⟨combined', sum, found⟩ := Option.bind_eq_some_iff.mp found
    obtain ⟨rfl, rfl, rfl⟩ : first' = first ∧ last' = last ∧ combined' = combined := by
      simpa using found
    have covered : index.coveredBytes = totalLength index.store.flat := consistent.totalBytes
    rw [covered] at within
    have stopInside := Nat.le_of_not_lt within
    have mono := consistent.ordinalAt_mono foundFirst foundLast ordered stopInside
    obtain ⟨_, start, _⟩ :=
      consistent.ordinalAt_some foundFirst (Nat.le_trans ordered stopInside)
    obtain ⟨inside, _, stop⟩ := consistent.ordinalAt_some foundLast stopInside
    rw [span_eq consistent inside, span_eq consistent (Nat.lt_of_le_of_lt mono inside)] at sum
    refine ⟨mono, inside, start, stop, ?_⟩
    unfold checkedAddSigned at sum
    dsimp only at sum
    split at sum
    · obtain rfl := Option.some.inj sum
      rename_i positive
      have lower := weight_take_mono Prod.snd index.store.flat
        (show first' ≤ last' + 1 by omega)
      change totalLength _ ≤ totalLength _ at lower
      omega
    · cases sum

/-- A run collapses into its first entry, which then carries the lines of the whole run. -/
theorem mergeRun_flat (consistent : index.store.Consistent) {first last : Nat}
    (ordered : first ≤ last) (inside : last < index.store.flat.length) (length revision : Nat)
    : ∃ entry size,
        index.store.flat[first]? = some (entry, size)
        ∧ (index.mergeRun first last length revision).store.Consistent
        ∧ (index.mergeRun first last length revision).store.flat
          = collapse index.store.flat first last
              ({ entry with
                 revision
                 lines :=
                   recordedLines ((index.store.flat.drop first).take (last + 1 - first)) },
                length) := by
  obtain ⟨before, run, after, split, place, filled, stop⟩ := exists_run ordered inside
  obtain ⟨⟨entry, size⟩, rest, rfl⟩ := List.exists_cons_of_ne_nil filled
  have here : index.store.flat[first]? = some (entry, size) := by
    rw [split, ← place]
    simp
  have middle : (index.store.flat.drop first).take (last + 1 - first) = (entry, size) :: rest := by
    have count : last + 1 - first = ((entry, size) :: rest).length := by omega
    rw [split, ← place, List.append_assoc, List.drop_left, place, count, List.take_left]
  refine ⟨entry, size, here, ?_⟩
  unfold mergeRun
  rw [consistent.get, here]
  dsimp only
  rw [middle]
  by_cases single : first = last
  · have alone : rest = [] := by
      apply List.eq_nil_of_length_eq_zero
      rw [List.length_cons] at stop
      omega
    subst alone
    rw [if_pos single]
    have paid := consistent.setPayload first { entry with revision }
    have sized := paid.1.setLength first length
    refine ⟨sized.1, ?_⟩
    rw [sized.2, paid.2, split, ← single, ← place, List.append_assoc, List.singleton_append,
      BlockStore.modify_append_cons, BlockStore.modify_append_cons]
    have collapsed := collapse_append before [(entry, size)] after
      ({ entry with revision, lines := recordedLines [(entry, size)] }, length) (by simp)
    simpa [recordedLines] using collapsed.symm
  · rw [if_neg single]
    have run : (List.range' first (last + 1 - first)).filterMap index.store.get
        = (entry, size) :: rest := by
      have found : index.store.get = fun ordinal => index.store.flat[ordinal]? :=
        funext consistent.get
      rw [found, ← middle]
      exact filterMap_range' _ _ _ (by omega)
    rw [run]
    have paid := consistent.setPayload first
      { entry with revision, lines := (((entry, size) :: rest).map fun item => item.1.lines).sum }
    have same : (index.store.setPayload first
          { entry with
            revision
            lines := (((entry, size) :: rest).map fun item => item.1.lines).sum }).flat.length
        = index.store.flat.length := by
      rw [paid.2, List.length_modify]
    have spliced := paid.1.splice (show first ≤ last + 1 by omega) (by omega)
      [({ entry with
          revision
          lines := (((entry, size) :: rest).map fun item => item.1.lines).sum }, length)]
    refine ⟨spliced.1, ?_⟩
    rw [spliced.2, paid.2]
    unfold collapse
    rw [List.take_modify, List.modify_eq_self (by rw [List.length_take]; omega),
      List.drop_modify_of_lt _ _ _ _ (by omega)]
    simp [recordedLines, weight]

/-- The items outside the dirty ones are the original ones. -/
def CleanOutside (original items : List (Entry × Nat)) : Option (Nat × Nat) → Prop
  | none => items = original
  | some (low, high) => Untouched original items low high

theorem EditedRun.mergeRun {delta : RevisionDelta} {first last combined : Nat}
    (run : index.EditedRun delta first last combined) (consistent : index.store.Consistent)
    (revision : Nat)
    : ∃ merged,
        (index.mergeRun first last combined revision).store.Consistent
        ∧ (index.mergeRun first last combined revision).store.flat
          = collapse index.store.flat first last merged
        ∧ (totalLength (collapse index.store.flat first last merged) : Int)
          = totalLength index.store.flat + delta.byteDelta
        ∧ recordedLines (collapse index.store.flat first last merged)
          = recordedLines index.store.flat := by
  obtain ⟨entry, size, _, mergedConsistent, flat⟩ :=
    mergeRun_flat consistent run.ordered run.inside combined revision
  refine ⟨_, mergedConsistent, flat, ?_, ?_⟩
  · have before := weight_take_add_drop Prod.snd index.store.flat (last + 1)
    have sum := run.combined
    simp only [collapse, totalLength, weight_append, weight_cons] at sum ⊢
    omega
  · have parts : index.store.flat
        = index.store.flat.take first
          ++ ((index.store.flat.drop first).take (last + 1 - first)
            ++ index.store.flat.drop (last + 1)) := by
      have tail : index.store.flat.drop (last + 1)
          = (index.store.flat.drop first).drop (last + 1 - first) := by
        rw [List.drop_drop]
        congr 1
        have := run.ordered
        omega
      rw [tail, List.take_append_drop, List.take_append_drop]
    have sum := congrArg recordedLines parts
    simp only [collapse, recordedLines, weight_append, weight_cons] at sum ⊢
    exact sum.symm

/-- Everything absorbing edits does: `low` up to and including `high` is what it touched. -/
structure Absorbed (original : List (Entry × Nat)) (index absorbed : BlockIndex parser)
    (deltas : List RevisionDelta) (low high : Nat) : Prop where
  consistent : absorbed.store.Consistent
  untouched : Untouched original absorbed.store.flat low high
  total :
    (totalLength absorbed.store.flat : Int)
      = totalLength index.store.flat + (deltas.map (·.byteDelta)).sum
  lines : recordedLines absorbed.store.flat = recordedLines index.store.flat
  within :
    RopeBuffer.EditsWithin (totalLength (original.take low))
      (totalLength
        (original.drop (original.length - (absorbed.store.flat.length - (high + 1)))))
      (totalLength index.store.flat) deltas

/-- What was dirty stays dirty: at most `count` items at the end are still clean. -/
def StaysDirty (items : List (Entry × Nat)) (low count : Nat) : Option (Nat × Nat) → Prop
  | none => True
  | some (dirtyLow, dirtyHigh) =>
      low ≤ dirtyLow ∧ count ≤ items.length - (dirtyHigh + 1)

theorem CleanOutside.front {original items : List (Entry × Nat)} {low count : Nat}
    {dirty : Option (Nat × Nat)} (clean : CleanOutside original items dirty)
    (covers : StaysDirty items low count dirty)
    : original.take low = items.take low := by
  cases dirty with
  | none =>
      obtain rfl : items = original := clean
      rfl
  | some dirty =>
      have untouched : Untouched original items dirty.1 dirty.2 := clean
      have same := congrArg (List.take low) untouched.front
      rw [List.take_take, List.take_take, Nat.min_eq_left covers.1] at same
      exact same.symm

theorem CleanOutside.back {original items : List (Entry × Nat)} {low count : Nat}
    {dirty : Option (Nat × Nat)} (clean : CleanOutside original items dirty)
    (covers : StaysDirty items low count dirty)
    : original.drop (original.length - count) = items.drop (items.length - count) := by
  cases dirty with
  | none =>
      obtain rfl : items = original := clean
      rfl
  | some dirty =>
      obtain ⟨_, fewer⟩ := covers
      have ⟨_, inside, room, _, back⟩ := clean
      have same := congrArg (List.drop (items.length - (dirty.2 + 1) - count)) back
      rw [List.drop_drop, List.drop_drop] at same
      have left : dirty.2 + 1 + (items.length - (dirty.2 + 1) - count)
          = items.length - count := by omega
      have right : original.length - (items.length - (dirty.2 + 1))
            + (items.length - (dirty.2 + 1) - count)
          = original.length - count := by omega
      rw [left, right] at same
      exact same.symm

/-- An edited run lies between the items before `low` and the last `count` items. -/
theorem EditedRun.within {delta : RevisionDelta} {first last combined : Nat}
    (run : index.EditedRun delta first last combined) {low count : Nat} (before : low ≤ first)
    (after : count ≤ index.store.flat.length - (last + 1))
    : totalLength (index.store.flat.take low) ≤ delta.editedSourceRangeBefore.start
      ∧ delta.editedSourceRangeBefore.stop
            + totalLength (index.store.flat.drop (index.store.flat.length - count))
          ≤ totalLength index.store.flat := by
  have lower : totalLength (index.store.flat.take low)
      ≤ totalLength (index.store.flat.take first) :=
    weight_take_mono Prod.snd index.store.flat before
  refine ⟨Nat.le_trans lower run.start, ?_⟩
  rcases run.stop with stop | ⟨final, stop⟩
  · have kept : last + 1 ≤ index.store.flat.length - count := by
      have := run.inside
      omega
    have mono : totalLength (index.store.flat.take (last + 1))
        ≤ totalLength (index.store.flat.take (index.store.flat.length - count)) :=
      weight_take_mono Prod.snd index.store.flat kept
    have parts : totalLength (index.store.flat.take (index.store.flat.length - count))
          + totalLength (index.store.flat.drop (index.store.flat.length - count))
        = totalLength index.store.flat :=
      weight_take_add_drop Prod.snd index.store.flat _
    omega
  · have none : count = 0 := by omega
    rw [none, Nat.sub_zero, List.drop_length]
    exact Nat.le_of_eq stop

/-- The items are only touched within the dirty range, and outside it every edit leaves the
text alone. By induction on the edits, each of which collapses one run.
-/
theorem absorbEdits_spec {original : List (Entry × Nat)} {revision : Nat}
    {deltas : List RevisionDelta} {dirty : Option (Nat × Nat)} {absorbed : BlockIndex parser}
    {low high : Nat} (consistent : index.store.Consistent)
    (clean : CleanOutside original index.store.flat dirty)
    (ordered :
      ∀ delta ∈ deltas,
        delta.editedSourceRangeBefore.start ≤ delta.editedSourceRangeBefore.stop)
    (ran : index.absorbEdits revision deltas dirty = (absorbed, some (low, high)))
    : Absorbed original index absorbed deltas low high
      ∧ StaysDirty index.store.flat low (absorbed.store.flat.length - (high + 1)) dirty := by
  induction deltas generalizing index dirty with
  | nil =>
      obtain ⟨rfl, rfl⟩ := Prod.mk.inj ran
      exact ⟨⟨consistent, clean, by simp, rfl, trivial⟩, Nat.le_refl _, Nat.le_refl _⟩
  | cons delta deltas ih =>
      unfold absorbEdits at ran
      split at ran
      · cases (Prod.mk.inj ran).2
      · rename_i first last combined found
        have run := editedRun_spec consistent (ordered delta List.mem_cons_self) found
        obtain ⟨merged, mergedConsistent, flat, total, lines⟩ :=
          run.mergeRun consistent revision
        have length := collapse_length merged run.ordered run.inside
        have widened
            : CleanOutside original (collapse index.store.flat first last merged)
                (some (widenDirty first last dirty)) := by
          cases dirty with
          | none =>
              obtain rfl : index.store.flat = original := clean
              exact .collapse merged run.ordered run.inside
          | some dirty => exact clean.widen merged run.ordered run.inside
        obtain ⟨rest, lowest, tail⟩ :=
          ih mergedConsistent (by rw [flat]; exact widened)
            (fun later member => ordered later (List.mem_cons_of_mem _ member)) ran
        rw [flat] at tail
        -- The clean parts lie outside the run that was just collapsed.
        have bounds : low ≤ first
            ∧ absorbed.store.flat.length - (high + 1) ≤ index.store.flat.length - (last + 1)
            ∧ StaysDirty index.store.flat low (absorbed.store.flat.length - (high + 1)) dirty := by
          cases dirty with
          | none =>
              exact ⟨lowest, by dsimp only at tail; omega, trivial⟩
          | some dirty =>
              have top := max_remapped dirty.2 run.ordered
              have bottom := min_remapped first last dirty.1
              dsimp only at lowest tail
              exact ⟨by omega, by omega, by omega, by omega⟩
        obtain ⟨lowFirst, tailLast, covers⟩ := bounds
        refine ⟨⟨rest.consistent, rest.untouched, ?_, ?_, ?_⟩, covers⟩
        · have sum := rest.total
          rw [flat, total] at sum
          rw [sum, List.map_cons, List.sum_cons]
          omega
        · rw [rest.lines, flat, lines]
        · have bounds := run.within lowFirst tailLast
          rw [← clean.front covers, ← clean.back covers] at bounds
          refine ⟨bounds.1, bounds.2, _, total, ?_⟩
          have later := rest.within
          rwa [flat] at later

-- Parsed blocks

def tiledOf (item : Entry × Nat) : TiledBlock where
  kind := item.1.kind
  length := item.2
  lines := item.1.lines
  leadingContentLines := item.1.leadingContentLines

theorem totalLength_of_tiled {items : List (Entry × Nat)} {blocks : List TiledBlock}
    (tiled : items.map tiledOf = blocks)
    : totalLength items = weight TiledBlock.length blocks := by
  rw [← tiled, weight_map]
  rfl

theorem builtEntries_tiled (revision : Nat) (blocks : List TiledBlock)
    : (builtEntries revision blocks).map tiledOf = blocks := by
  apply List.ext_getElem
  · simp [builtEntries]
  · intro ordinal _ _
    simp [builtEntries, tiledOf]

@[simp] theorem spansFrom_length (start : Nat) (lengths : List Nat)
    : (spansFrom start lengths).length = lengths.length := by
  induction lengths generalizing start with
  | nil => rfl
  | cons length rest ih => simp [spansFrom, ih]

theorem takeWhile_zip_length_le {α β : Type} (keep : α × β → Bool) (left : List α)
    (right : List β)
    : ((left.zip right).takeWhile keep).length ≤ left.length
      ∧ ((left.zip right).takeWhile keep).length ≤ right.length := by
  have shorter := (List.takeWhile_prefix keep (l := left.zip right)).length_le
  rw [List.length_zip] at shorter
  omega

/-- As many ids are carried or left open as there are blocks, since the two ends never
overlap.
-/
theorem carriedIds_length (blocks : List TiledBlock) (existing : List (Entry × Nat))
    : (carriedIds blocks existing).length = blocks.length := by
  unfold carriedIds
  extract_lets previous old fresh front back
  have oldLength : old.length = existing.length := by simp [old, previous]
  have freshLength : fresh.length = blocks.length := by simp [fresh]
  obtain ⟨frontFresh, frontOld⟩ : front ≤ fresh.length ∧ front ≤ old.length :=
    takeWhile_zip_length_le _ fresh old
  obtain ⟨backFresh, backOld⟩
      : back ≤ (fresh.drop front).reverse.length ∧ back ≤ (old.drop front).reverse.length :=
    takeWhile_zip_length_le _ (fresh.drop front).reverse (old.drop front).reverse
  simp only [List.length_append, List.length_map, List.length_take, List.length_replicate,
    List.length_drop, List.length_reverse] at backFresh backOld ⊢
  omega

/-- Fresh entries describe their blocks, by induction on them. -/
theorem freshEntries_tiled (revision nextId : Nat) {blocks : List TiledBlock}
    {ids : List (Option Nat)} (same : ids.length = blocks.length)
    : ((freshEntries revision nextId blocks ids).1.zip (blocks.map (·.length))).map tiledOf
      = blocks := by
  fun_induction freshEntries revision nextId blocks ids with
  | case1 nextId block blocks ids entry id entries next rest ih => 
      simpa [tiledOf, entry, rest] using ih (by simpa using same)
  | case2 nextId block blocks ids entry entries next rest ih =>
      simpa [tiledOf, entry, rest] using ih (by simpa using same)
  | case3 blocks nextId ids ended =>
      cases blocks with
      | nil => rfl
      | cons block blocks =>
          obtain ⟨id, ids, rfl⟩ :=
            List.exists_cons_of_length_pos (show 0 < ids.length by simp at same; omega)
          exact (ended block blocks id ids rfl rfl).elim

-- Splicing a window

/-- Replacing a window by some blocks replaces it in the flat list, whether in place or not.
-/
theorem spliceStore_filled {store : BlockStore Entry} (consistent : store.Consistent)
    {before existing after items : List (Entry × Nat)}
    (split : store.flat = before ++ existing ++ after) (filled : items ≠ [])
    : (spliceStore store before.length (before.length + existing.length) existing
        items).Consistent
      ∧ (spliceStore store before.length (before.length + existing.length) existing items).flat
        = before ++ items ++ after := by
  have spliced := consistent.splice (Nat.le_add_right before.length existing.length)
    (by rw [split]; simp) items
  have kept : store.flat.take before.length = before
      ∧ store.flat.drop (before.length + existing.length) = after := by
    rw [split, ← List.length_append, List.drop_left]
    simp
  rw [kept.1, kept.2] at spliced
  unfold spliceStore
  rw [if_neg (by simpa using filled), Nat.add_sub_cancel_left]
  split
  · rename_i same
    exact consistent.rewriteSlots split same
  · exact spliced

/-- A blank window at the start of the document leaves no block behind. -/
theorem spliceStore_leading {store : BlockStore Entry} (consistent : store.Consistent)
    {existing after : List (Entry × Nat)} (split : store.flat = existing ++ after)
    : (spliceStore store 0 existing.length existing []).Consistent
      ∧ (spliceStore store 0 existing.length existing []).flat = after := by
  have spliced := consistent.splice (Nat.zero_le existing.length) (by rw [split]; simp) []
  rw [split, List.take_zero, List.drop_left] at spliced
  exact spliced

/-- A blank window below some block joins it. -/
theorem spliceStore_blank {store : BlockStore Entry} (consistent : store.Consistent)
    {before existing after : List (Entry × Nat)} {entry : Entry} {length : Nat}
    (split : store.flat = before ++ [(entry, length)] ++ existing ++ after)
    : (spliceStore store (before.length + 1) (before.length + 1 + existing.length) existing
        []).Consistent
      ∧ (spliceStore store (before.length + 1) (before.length + 1 + existing.length) existing
          []).flat
        = before
          ++ ({ entry with lines := entry.lines + recordedLines existing },
              length + totalLength existing) :: after := by
  have spliced := consistent.splice (Nat.le_add_right (before.length + 1) existing.length)
    (by rw [split]; simp; omega) []
  have place : before.length + 1 = (before ++ [(entry, length)]).length := by simp
  have kept : store.flat.take (before.length + 1) = before ++ [(entry, length)]
      ∧ store.flat.drop (before.length + 1 + existing.length) = after := by
    rw [split, place, ← List.length_append, List.drop_left, List.append_assoc (before ++ _),
      List.take_left]
    exact ⟨rfl, rfl⟩
  rw [kept.1, kept.2] at spliced
  have flat : (store.splice (before.length + 1) (before.length + 1 + existing.length) []).flat
      = before ++ (entry, length) :: after := by
    rw [spliced.2]
    simp
  exact spliced.1.joinAbove flat _ _

section Window

variable (consistent : index.store.Consistent) {before existing after : List (Entry × Nat)}
  (split : index.store.flat = before ++ existing ++ after)
  {start stop : Nat} (place : start = before.length)
  (size : stop = before.length + existing.length)

include consistent split place size

theorem collect_window
    : (BlockStore.Blocks.take index.store (stop - start) (index.store.iterFrom start)).map
          (fun (_, entry, _, length) => (entry, length))
      = existing := by
  rw [consistent.collect, split, place, size, Nat.add_sub_cancel_left, List.append_assoc,
    List.drop_left, List.take_left]

/-- Splicing parsed blocks replaces the window by entries that describe them. -/
theorem spliceWindow_filled {blocks : List TiledBlock} (filled : blocks ≠ [])
    (fenceHeights : List (Option parser.FenceHeightProjection)) (revision : Nat)
    : ∃ items,
        items.map tiledOf = blocks
        ∧ (index.spliceWindow start stop blocks fenceHeights revision).store.Consistent
        ∧ (index.spliceWindow start stop blocks fenceHeights revision).store.flat
          = before ++ items ++ after := by
  have tiled := freshEntries_tiled revision index.nextId (carriedIds_length blocks existing)
  have some : (freshEntries revision index.nextId blocks (carriedIds blocks existing)).1.zip
        (blocks.map (·.length))
      ≠ [] := by
    intro none
    rw [none] at tiled
    exact filled tiled.symm
  have spliced := spliceStore_filled consistent split some
  rw [← size, ← place] at spliced
  unfold spliceWindow
  rw [collect_window consistent split place size]
  exact ⟨_, tiled, spliced⟩

theorem spliceWindow_leading (leading : before = [])
    (fenceHeights : List (Option parser.FenceHeightProjection)) (revision : Nat)
    : (index.spliceWindow start stop [] fenceHeights revision).store.Consistent
      ∧ (index.spliceWindow start stop [] fenceHeights revision).store.flat = after := by
  have collected := collect_window consistent split place size
  subst leading
  obtain rfl : start = 0 := place
  obtain rfl : stop = existing.length := by simpa using size
  unfold spliceWindow
  rw [collected]
  exact spliceStore_leading consistent split

end Window

/-- Splicing no block below some block joins the window to it. -/
theorem spliceWindow_blank (consistent : index.store.Consistent)
    {before existing after : List (Entry × Nat)} {entry : Entry} {length : Nat}
    (split : index.store.flat = before ++ [(entry, length)] ++ existing ++ after)
    (fenceHeights : List (Option parser.FenceHeightProjection)) (revision : Nat)
    : let spliced :=
        index.spliceWindow (before.length + 1) (before.length + 1 + existing.length) []
          fenceHeights revision
      spliced.store.Consistent
      ∧ spliced.store.flat
        = before
          ++ ({ entry with lines := entry.lines + recordedLines existing },
              length + totalLength existing) :: after := by
  intro spliced
  have start : before.length + 1 = (before ++ [(entry, length)]).length := by simp
  have stop : before.length + 1 + existing.length
      = (before ++ [(entry, length)]).length + existing.length := by simp
  simp only [spliced]
  unfold spliceWindow
  rw [collect_window consistent split start stop]
  exact spliceStore_blank consistent split

end BlockIndex

end Hane.Markdown
