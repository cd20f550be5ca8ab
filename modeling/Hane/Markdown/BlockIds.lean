import Hane.Foundations.Numbering
import Hane.Markdown.TilingRuns

/-! The ids of the blocks of an index: which of them an update keeps, and which it gives out. -/

namespace Hane.Markdown.BlockIndex

open Hane.Document Hane.Foundations

variable {parser : Parser} {index : BlockIndex parser}

def keyOf (item : Entry × Nat) : Nat × NodeKind := (item.1.id, item.1.kind)

def ids (index : BlockIndex parser) : List Nat := index.blocks.map (·.id)

-- Absorbing edits

/-- A collapsed run keeps the key of its first entry and drops the others. -/
theorem mergeRun_keys (consistent : index.store.Consistent) {first last : Nat}
    (ordered : first ≤ last) (inside : last < index.store.flat.length) (length revision : Nat)
    : (index.mergeRun first last length revision).store.Consistent
      ∧ (index.mergeRun first last length revision).store.flat ≠ []
      ∧ ((index.mergeRun first last length revision).store.flat.map keyOf).Sublist
          (index.store.flat.map keyOf)
      ∧ (index.mergeRun first last length revision).nextId = index.nextId := by
  obtain ⟨entry, size, here, mergedConsistent, flat⟩ :=
    mergeRun_flat consistent ordered inside length revision
  obtain ⟨before, run, after, split, place, filled, stop⟩ := exists_run ordered inside
  obtain ⟨item, rest, rfl⟩ := List.exists_cons_of_ne_nil filled
  have first_eq : item = (entry, size) := by
    rw [split, ← place, List.append_assoc, List.getElem?_append_right (Nat.le_refl _)] at here
    simpa using here
  refine ⟨mergedConsistent, ?_, ?_, ?_⟩
  · rw [flat]
    exact List.append_ne_nil_of_right_ne_nil _ (List.cons_ne_nil _ _)
  · rw [flat, split, first_eq]
    have run := collapse_append before ((entry, size) :: rest) after
    rw [← place, show last = before.length + ((entry, size) :: rest).length - 1 by simp at stop ⊢; omega, run _ (List.cons_ne_nil _ _)]
    simp only [List.map_append, List.map_cons, List.append_assoc]
    apply List.Sublist.append_left
    exact (List.sublist_append_right _ _).cons_cons _
  · unfold mergeRun
    split
    · rfl
    · split <;> rfl

/-- Absorbing edits only drops keys, by induction on the edits. -/
theorem absorbEdits_keys {revision : Nat} {deltas : List RevisionDelta}
    {dirty : Option (Nat × Nat)} {absorbed : BlockIndex parser} {low high : Nat}
    (consistent : index.store.Consistent) (filled : index.store.flat ≠ [])
    (ordered :
      ∀ delta ∈ deltas,
        delta.editedSourceRangeBefore.start ≤ delta.editedSourceRangeBefore.stop)
    (ran : index.absorbEdits revision deltas dirty = (absorbed, some (low, high)))
    : absorbed.store.Consistent
      ∧ absorbed.store.flat ≠ []
      ∧ (absorbed.store.flat.map keyOf).Sublist (index.store.flat.map keyOf)
      ∧ absorbed.nextId = index.nextId := by
  induction deltas generalizing index dirty with
  | nil =>
      obtain ⟨rfl, rfl⟩ := Prod.mk.inj ran
      exact ⟨consistent, filled, .refl _, rfl⟩
  | cons delta deltas ih =>
      unfold absorbEdits at ran
      split at ran
      · cases (Prod.mk.inj ran).2
      · rename_i first last combined found
        have run := editedRun_spec consistent (ordered delta List.mem_cons_self) found
        obtain ⟨mergedConsistent, some, fewer, next⟩ :=
          mergeRun_keys consistent run.ordered run.inside combined revision
        obtain ⟨absorbedConsistent, left, later, same⟩ := ih mergedConsistent some
          (fun later member => ordered later (List.mem_cons_of_mem _ member)) ran
        exact ⟨absorbedConsistent, left, later.trans fewer, same.trans next⟩

-- Carrying ids over

/-- Two lists agree on the pairs a predicate lets through, by induction on the lists. -/
theorem map_take_takeWhile_zip {α β γ : Type} {keep : α × β → Bool} {f : α → γ} {g : β → γ}
    (same : ∀ left right, keep (left, right) = true → f left = g right) (left : List α)
    (right : List β)
    : (left.take ((left.zip right).takeWhile keep).length).map f
      = (right.take ((left.zip right).takeWhile keep).length).map g := by
  induction left generalizing right with
  | nil => simp
  | cons item rest ih =>
      cases right with
      | nil => simp
      | cons item' rest' =>
          rw [List.zip_cons_cons, List.takeWhile_cons]
          cases kept : keep (item, item') with
          | false => rfl
          | true => simp [same _ _ kept, ih rest']

/-- What carrying ids over a window decides: the blocks at both ends take the ids of as many
old blocks of the same kinds, and the ones between get none.
-/
structure Carries (blocks : List TiledBlock) (existing : List (Entry × Nat))
    (front gone back : List (Entry × Nat)) (front' fresh back' : List TiledBlock) : Prop where
  split : existing = front ++ gone ++ back
  split' : blocks = front' ++ fresh ++ back'
  frontKinds : front'.map (·.kind) = front.map (·.1.kind)
  backKinds : back'.map (·.kind) = back.map (·.1.kind)
  ids :
    carriedIds blocks existing
      = front.map (fun item => some item.1.id)
        ++ fresh.map (fun _ => none)
        ++ back.map fun item => some item.1.id

theorem reverse_take_drop {α β : Type} (items : List α) (f : α → β) {front back : Nat}
    (inside : front + back ≤ items.length)
    : (((items.drop front).reverse.take back).map f).reverse
      = (items.drop (items.length - back)).map f := by
  rw [List.take_reverse, List.map_reverse, List.reverse_reverse, List.drop_drop,
    List.length_drop]
  congr 2
  omega

/-- Ids are carried from both ends, as long as the kinds there agree. -/
theorem carries_carriedIds (blocks : List TiledBlock) (existing : List (Entry × Nat))
    : ∃ front gone back front' fresh back',
        Carries blocks existing front gone back front' fresh back' := by
  have ids : carriedIds blocks existing = carriedIds blocks existing := rfl
  conv at ids => rhs; unfold carriedIds
  extract_lets previous old fresh front back at ids
  have oldKeys : old.map Prod.fst = existing.map fun item => (item.1.kind, item.1.id) :=
    List.map_fst_zip (by simp [previous])
  have freshKinds : fresh.map Prod.fst = blocks.map (·.kind) := List.map_fst_zip (by simp)
  have oldKinds : old.map (fun item => item.1.1) = existing.map (·.1.kind) := by
    have kinds := congrArg (List.map Prod.fst) oldKeys
    rwa [List.map_map, List.map_map] at kinds
  have oldIds : old.map (fun item => some item.1.2) = existing.map fun item => some item.1.id := by
    have kept := congrArg (List.map fun key => some key.2) oldKeys
    rwa [List.map_map, List.map_map] at kept
  have oldLength : old.length = existing.length := by simp [old, previous]
  have freshLength : fresh.length = blocks.length := by simp [fresh]
  have frontSame : (fresh.take front).map Prod.fst = (old.take front).map fun item => item.1.1 :=
    map_take_takeWhile_zip
      (fun _ _ kept => (of_decide_eq_true kept).1) fresh old
  have backSame
      : ((fresh.drop front).reverse.take back).map Prod.fst
        = ((old.drop front).reverse.take back).map fun item => item.1.1 :=
    map_take_takeWhile_zip
      (fun _ _ kept => (of_decide_eq_true kept).1) (fresh.drop front).reverse
      (old.drop front).reverse
  obtain ⟨frontFresh, frontOld⟩ : front ≤ fresh.length ∧ front ≤ old.length :=
    takeWhile_zip_length_le _ fresh old
  obtain ⟨backFresh, backOld⟩
      : back ≤ (fresh.drop front).reverse.length ∧ back ≤ (old.drop front).reverse.length :=
    takeWhile_zip_length_le _ (fresh.drop front).reverse (old.drop front).reverse
  rw [List.length_reverse, List.length_drop] at backFresh backOld
  refine ⟨existing.take front, (existing.drop front).take (existing.length - front - back),
    existing.drop (existing.length - back), blocks.take front,
    (blocks.drop front).take (blocks.length - front - back), blocks.drop (blocks.length - back),
    ?_⟩
  refine {
    split := take_drop_ends existing front back (by omega)
    split' := take_drop_ends blocks front back (by omega)
    frontKinds := ?_
    backKinds := ?_
    ids := ?_
  }
  · rw [List.map_take, List.map_take, ← freshKinds, ← oldKinds, ← List.map_take, ← List.map_take]
    exact frontSame
  · have same := congrArg List.reverse backSame
    rw [reverse_take_drop fresh _ (by omega), reverse_take_drop old _ (by omega)] at same
    rw [List.map_drop, List.map_drop, ← freshKinds, ← oldKinds, ← List.map_drop, ← List.map_drop,
      ← freshLength, ← oldLength]
    exact same
  · rw [ids]
    congr 1
    · congr 1
      · rw [List.map_take, oldIds, List.map_take]
      · rw [List.map_const', List.length_take, List.length_drop]
        congr 1
        omega
    · rw [List.map_drop, oldIds, List.map_drop, oldLength]

-- Numbering parsed blocks

/-- The entries of two runs of blocks follow each other, by induction on the first run. -/
theorem freshEntries_append (revision nextId : Nat) {blocks : List TiledBlock}
    {carried : List (Option Nat)} (same : carried.length = blocks.length)
    (blocks' : List TiledBlock) (carried' : List (Option Nat))
    : freshEntries revision nextId (blocks ++ blocks') (carried ++ carried')
      = ((freshEntries revision nextId blocks carried).1
          ++ (freshEntries revision (freshEntries revision nextId blocks carried).2 blocks'
              carried').1,
          (freshEntries revision (freshEntries revision nextId blocks carried).2 blocks'
              carried').2) := by
  induction blocks generalizing nextId carried with
  | nil =>
      obtain rfl := List.eq_nil_of_length_eq_zero same
      simp [freshEntries]
  | cons block blocks ih =>
      obtain ⟨id, carried, rfl⟩ :=
        List.exists_cons_of_length_pos (show 0 < carried.length by simp at same; omega)
      have rest (nextId : Nat) := ih nextId (by simpa using same)
      cases id with
      | none => simp only [List.cons_append, freshEntries, rest]
      | some id => simp only [List.cons_append, freshEntries, rest]

/-- There is one entry for each block, by induction on the blocks. -/
theorem freshEntries_length (revision nextId : Nat) {blocks : List TiledBlock}
    {carried : List (Option Nat)} (same : carried.length = blocks.length)
    : (freshEntries revision nextId blocks carried).1.length = blocks.length := by
  induction blocks generalizing nextId carried with
  | nil => simp [freshEntries]
  | cons block blocks ih =>
      obtain ⟨id, carried, rfl⟩ :=
        List.exists_cons_of_length_pos (show 0 < carried.length by simp at same; omega)
      have rest (nextId : Nat) := ih nextId (by simpa using same)
      cases id with
      | none => simp [freshEntries, rest]
      | some id => simp [freshEntries, rest]

def entryKey (entry : Entry) : Nat × NodeKind := (entry.id, entry.kind)

/-- Blocks that carry the ids of old blocks of their kinds get their keys, by induction on
them.
-/
theorem freshEntries_carried (revision nextId : Nat) {blocks : List TiledBlock}
    {old : List (Entry × Nat)} (kinds : blocks.map (·.kind) = old.map (·.1.kind))
    : (freshEntries revision nextId blocks (old.map fun item => some item.1.id)).1.map entryKey
        = old.map keyOf
      ∧ (freshEntries revision nextId blocks (old.map fun item => some item.1.id)).2 = nextId := by
  induction blocks generalizing old with
  | nil =>
      obtain rfl := List.map_eq_nil_iff.mp kinds.symm
      exact ⟨rfl, rfl⟩
  | cons block blocks ih =>
      obtain ⟨item, old, rfl, kind, rest⟩ := List.map_eq_cons_iff.mp kinds.symm
      obtain ⟨keys, next⟩ := ih rest.symm
      simp only [List.map_cons, freshEntries]
      exact ⟨congrArg₂ List.cons (Prod.ext rfl kind.symm) keys, next⟩

/-- Blocks that carry no id are numbered from the next one on, by induction on them. -/
theorem freshEntries_fresh (revision nextId : Nat) (blocks : List TiledBlock)
    : (freshEntries revision nextId blocks (blocks.map fun _ => none)).1.map entryKey
        = numberFrom nextId (blocks.map (·.kind))
      ∧ (freshEntries revision nextId blocks (blocks.map fun _ => none)).2
        = nextId + blocks.length := by
  induction blocks generalizing nextId with
  | nil => exact ⟨rfl, rfl⟩
  | cons block blocks ih =>
      obtain ⟨keys, next⟩ := ih (nextId + 1)
      simp only [List.map_cons, freshEntries, List.length_cons]
      exact ⟨congrArg (List.cons _) keys, by omega⟩

/-- The entries of a re-parsed window keep keys at both ends and number the rest afresh. -/
theorem freshEntries_keys (revision nextId : Nat) (blocks : List TiledBlock)
    (existing : List (Entry × Nat))
    : ∃ front gone back kinds,
        existing.map keyOf = front ++ gone ++ back
        ∧ (freshEntries revision nextId blocks (carriedIds blocks existing)).1.map entryKey
          = front ++ numberFrom nextId kinds ++ back
        ∧ (freshEntries revision nextId blocks (carriedIds blocks existing)).2
          = nextId + kinds.length := by
  obtain ⟨front, gone, back, front', fresh, back', carries⟩ := carries_carriedIds blocks existing
  obtain ⟨split, split', frontKinds, backKinds, ids⟩ := carries
  refine ⟨front.map keyOf, gone.map keyOf, back.map keyOf, fresh.map (·.kind), ?_, ?_⟩
  · rw [split, List.map_append, List.map_append]
  · have frontSize : front'.length = front.length := by
      simpa using congrArg List.length frontKinds
    have first := freshEntries_carried revision nextId frontKinds
    have middle := freshEntries_fresh revision nextId fresh
    have last := freshEntries_carried revision (nextId + fresh.length) backKinds
    rw [ids, split', freshEntries_append _ _ (by simp [frontSize]),
      freshEntries_append _ _ (by simp [frontSize]), first.2, middle.2]
    simp only [List.map_append, first.1, middle.1, last.1, last.2, List.length_map, and_self]

theorem zip_keys {entries : List Entry} {lengths : List Nat}
    (same : entries.length = lengths.length)
    : (entries.zip lengths).map keyOf = entries.map entryKey := by
  have firsts : (entries.zip lengths).map Prod.fst = entries :=
    List.map_fst_zip (Nat.le_of_eq same)
  have keys := congrArg (List.map entryKey) firsts
  rwa [List.map_map] at keys

-- Updating

/-- Every block of the index has an id of its own, given out before. -/
def HasIds (index : BlockIndex parser) : Prop :=
  Numbered index.nextId (index.store.flat.map keyOf)

/-- What the ids of an index say of a later one: an id given out before still stands for a
block that had it, and the block has kept its kind.
-/
def KeepsIds (index later : BlockIndex parser) : Prop :=
  Renumbers index.nextId (index.store.flat.map keyOf) later.nextId (later.store.flat.map keyOf)

/-- A full parse numbers the blocks from zero on. -/
theorem hasIds_build (parser : Parser) (revision : Nat) (source : Text)
    : (build parser revision source).HasIds := by
  generalize blocks : tiledBlocks
    (parser.parseDocument revision ⟨0, utf8Len source⟩ source).tree ⟨0, utf8Len source⟩
    source = tiled
  have flat : (build parser revision source).store.flat = builtEntries revision tiled := by
    rw [← blocks]
    exact BlockStore.flat_new _
  have next : (build parser revision source).nextId = tiled.length := by
    rw [← blocks]
    rfl
  have numbers : ((builtEntries revision tiled).map keyOf).map Prod.fst
      = List.range tiled.length := by
    apply List.ext_getElem
    · simp [builtEntries]
    · intro ordinal _ _
      simp [builtEntries, keyOf]
  unfold HasIds
  rw [flat, next]
  refine ⟨?_, ?_⟩
  · rw [numbers]
    exact List.nodup_range
  · intro key member
    have number := List.mem_map_of_mem (f := Prod.fst) member
    rw [numbers] at number
    exact List.mem_range.mp number

/-- Splicing a window keeps ids or gives out fresh ones, by the blocks parsed in it. -/
theorem spliceWindow_ids (consistent : index.store.Consistent) (has : index.HasIds)
    {before existing after : List (Entry × Nat)}
    (split : index.store.flat = before ++ existing ++ after) {start stop : Nat}
    (place : start = before.length) (size : stop = before.length + existing.length)
    (blocks : List TiledBlock) (fenceHeights : List (Option parser.FenceHeightProjection))
    (revision : Nat)
    : (index.spliceWindow start stop blocks fenceHeights revision).store.Consistent
      ∧ (index.spliceWindow start stop blocks fenceHeights revision).HasIds
      ∧ index.KeepsIds (index.spliceWindow start stop blocks fenceHeights revision) := by
  have collected := collect_window consistent split place size
  have dropped {spliced : BlockIndex parser} (fewer : (spliced.store.flat.map keyOf).Sublist
        (index.store.flat.map keyOf)) (next : spliced.nextId = index.nextId)
      : spliced.HasIds ∧ index.KeepsIds spliced := by
    unfold HasIds KeepsIds
    rw [next]
    exact ⟨Numbered.sublist has fewer, .of_sublist fewer⟩
  by_cases filled : blocks = []
  · subst filled
    have next : (index.spliceWindow start stop [] fenceHeights revision).nextId
        = index.nextId := rfl
    rcases List.eq_nil_or_concat before with leading | ⟨front, ⟨entry, length⟩, above⟩
    · have spliced := spliceWindow_leading consistent split place size leading fenceHeights
        revision
      refine ⟨spliced.1, dropped ?_ next⟩
      rw [spliced.2, split, List.map_append]
      exact List.sublist_append_right _ _
    · rw [List.concat_eq_append] at above
      subst above
      have here : front.length + 1 = start := by simpa using place.symm
      have stops : front.length + 1 + existing.length = stop := by simpa using size.symm
      have spliced := spliceWindow_blank consistent split fenceHeights revision
      rw [stops, here] at spliced
      refine ⟨spliced.1, dropped ?_ next⟩
      rw [spliced.2, split]
      simp only [List.map_append, List.map_cons, List.map_nil, List.append_assoc]
      apply List.Sublist.append_left
      exact (List.sublist_append_right _ _).cons_cons _
  · obtain ⟨front, gone, back, kinds, old, new, next⟩ :=
      freshEntries_keys revision index.nextId blocks existing
    have tiled := freshEntries_tiled revision index.nextId (carriedIds_length blocks existing)
    have some : (freshEntries revision index.nextId blocks (carriedIds blocks existing)).1.zip
          (blocks.map (·.length))
        ≠ [] := by
      intro none
      rw [none] at tiled
      exact filled tiled.symm
    have spliced := spliceStore_filled consistent split some
    rw [← size, ← place] at spliced
    have counts : (freshEntries revision index.nextId blocks
          (carriedIds blocks existing)).1.length
        = (blocks.map (·.length)).length := by
      rw [freshEntries_length _ _ (carriedIds_length blocks existing), List.length_map]
    have keys : (index.spliceWindow start stop blocks fenceHeights revision).store.flat.map keyOf
        = (before.map keyOf ++ front) ++ numberFrom index.nextId kinds
          ++ (back ++ after.map keyOf) := by
      unfold spliceWindow
      rw [collected]
      dsimp only
      rw [spliced.2]
      simp only [List.map_append, zip_keys counts, new, List.append_assoc]
    have was : index.store.flat.map keyOf
        = (before.map keyOf ++ front) ++ gone ++ (back ++ after.map keyOf) := by
      rw [split]
      simp only [List.map_append, old, List.append_assoc]
    have nextId : (index.spliceWindow start stop blocks fenceHeights revision).nextId
        = index.nextId + kinds.length := by
      unfold spliceWindow
      rw [collected]
      exact next
    refine ⟨?_, ?_⟩
    · unfold spliceWindow
      rw [collected]
      exact spliced.1
    · unfold HasIds KeepsIds
      unfold HasIds at has
      rw [keys, nextId, was]
      rw [was] at has
      exact has.replace kinds

/-- Closing a window, read or not, keeps ids or gives out fresh ones. -/
theorem closeAt_ids (consistent : index.store.Consistent) (has : index.HasIds)
    {first last : Nat} (ordered : first ≤ last) (inside : last < index.store.flat.length)
    (buffer : RopeBuffer) (reparsedBytes : Nat)
    : (index.closeAt buffer first last reparsedBytes).2.store.Consistent
      ∧ (index.closeAt buffer first last reparsedBytes).2.HasIds
      ∧ index.KeepsIds (index.closeAt buffer first last reparsedBytes).2 := by
  unfold closeAt
  dsimp only
  cases buffer.text (index.windowRange first last) with
  | error problem => exact ⟨consistent, has, .of_sublist (.refl _)⟩
  | ok text =>
      obtain ⟨before, existing, after, split, place, stop, _, _⟩ :=
        windowRange_split consistent ordered inside
      have spliced := spliceWindow_ids consistent has split place.symm stop.symm
        (parsedBlocks parser buffer.revision (index.windowRange first last) text)
        (parser.buildFenceHeightProjections
          (parser.parseDocument buffer.revision (index.windowRange first last) text)
          (parsedBlocks parser buffer.revision (index.windowRange first last) text)
          (index.windowRange first last) text)
        buffer.revision
      dsimp only
      unfold closeWindow
      dsimp only
      split <;> exact spliced

/-- Whether an update falls back to a full parse: the index holds no block, or an edit falls
outside the indexed bytes.
-/
def Rebuilds (index : BlockIndex parser) (buffer : RopeBuffer) (deltas : List RevisionDelta)
    : Prop :=
  deltas ≠ []
  ∧ (index.isEmpty = true
    ∨ (index.clearProjections.absorbEdits buffer.revision deltas none).2 = none)

/-- An update by ordered edits keeps the blocks consistent and their ids distinct; one without a
full parse also keeps the ids given out before.
-/
theorem update_ids (consistent : index.store.Consistent) (has : index.HasIds)
    (buffer : RopeBuffer) {deltas : List RevisionDelta}
    (ordered :
      ∀ delta ∈ deltas,
        delta.editedSourceRangeBefore.start ≤ delta.editedSourceRangeBefore.stop)
    : (index.update buffer deltas).2.store.Consistent
      ∧ (index.update buffer deltas).2.HasIds
      ∧ (¬ index.Rebuilds buffer deltas → index.KeepsIds (index.update buffer deltas).2) := by
  have rebuilt (replaced : Nat) : (rebuild parser buffer replaced).2.store.Consistent
      ∧ (rebuild parser buffer replaced).2.HasIds :=
    ⟨.new _, hasIds_build parser buffer.revision buffer.fullText⟩
  by_cases edited : deltas = []
  · subst edited
    exact ⟨consistent, has, fun _ => .of_sublist (.refl _)⟩
  · unfold update
    rw [if_neg (by simpa using edited)]
    dsimp only
    cases empty : index.clearProjections.isEmpty with
    | true =>
        obtain ⟨rebuiltConsistent, rebuiltHas⟩ := rebuilt 0
        exact ⟨rebuiltConsistent, rebuiltHas, fun kept => (kept ⟨edited, .inl empty⟩).elim⟩
    | false =>
        rw [if_neg Bool.false_ne_true]
        cases ran : index.clearProjections.absorbEdits buffer.revision deltas none with
        | mk absorbed dirty =>
            cases dirty with
            | none =>
                obtain ⟨rebuiltConsistent, rebuiltHas⟩ := rebuilt absorbed.len
                refine ⟨rebuiltConsistent, rebuiltHas, fun kept => (kept ⟨edited, .inr ?_⟩).elim⟩
                rw [ran]
            | some dirty =>
                obtain ⟨low, high⟩ := dirty
                have cleared : index.clearProjections.store.Consistent := consistent
                have filled : index.clearProjections.store.flat ≠ [] := by
                  intro none
                  have isEmpty := cleared.isEmpty
                  rw [none] at isEmpty
                  exact Bool.false_ne_true (empty.symm.trans isEmpty)
                obtain ⟨absorbedConsistent, some, fewer, next⟩ :=
                  absorbEdits_keys cleared filled ordered ran
                have absorbedHas : absorbed.HasIds := by
                  unfold HasIds
                  rw [next]
                  exact Numbered.sublist has fewer
                have absorbedKeeps : index.KeepsIds absorbed := by
                  unfold KeepsIds
                  rw [next]
                  exact .of_sublist fewer
                have clean : CleanOutside index.store.flat index.clearProjections.store.flat none :=
                  rfl
                obtain ⟨absorbs, _⟩ := absorbEdits_spec cleared clean ordered ran
                have len : absorbed.len = absorbed.store.flat.length := absorbedConsistent.len
                have bound := absorbs.untouched.inside
                have lowHigh := absorbs.untouched.ordered
                obtain ⟨last, inside, stops, closes⟩ :=
                  absorbed.growWindow_closes buffer (low - 1)
                    (show min (high + 1) (absorbed.len - 1) < absorbed.len by omega)
                have ordered := stops.ordered
                obtain ⟨closedConsistent, closedHas, closedKeeps⟩ :=
                  closeAt_ids absorbedConsistent absorbedHas (show low - 1 ≤ last by omega)
                    (by omega) buffer
                    (absorbed.reparsedBefore (low - 1) (min (high + 1) (absorbed.len - 1)) last)
                dsimp only
                rw [closes]
                exact ⟨closedConsistent, closedHas, fun _ => absorbedKeeps.trans closedKeeps⟩

end Hane.Markdown.BlockIndex
