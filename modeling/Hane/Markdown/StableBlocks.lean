import Hane.Markdown.BlockIds
import Hane.Markdown.Slices

/-! What an update leaves alone: the ids it keeps, and the blocks outside the region it reports.
-/

namespace Hane.Markdown.BlockIndex

open Hane.Document Hane.Foundations

variable {parser : Parser} {index : BlockIndex parser}

-- The entries around a spliced window

/-- The entries after an update that replaced those between `above` and `below` by `inserted`
new ones. A blank window inserts none and joins the last entry above, if there is one.
-/
def Spliced (above below : List (Entry × Nat)) (inserted : Nat) (new : List (Entry × Nat))
    : Prop :=
  (∃ items,
    items.length = inserted
    ∧ (0 < inserted ∨ above = [])
    ∧ new = above ++ items ++ below)
  ∨ (inserted = 0
    ∧ ∃ front entry length lines bytes,
      above = front ++ [(entry, length)]
      ∧ new = front ++ ({ entry with lines := entry.lines + lines }, length + bytes) :: below)

/-- An update replaced the entries between `above` and `below`; none of its edits touches
these.
-/
structure SplicedBy (old new : List (Entry × Nat)) (deltas : List RevisionDelta)
    (report : BlockIndexUpdate) (above replaced below : List (Entry × Nat)) : Prop where
  split : old = above ++ replaced ++ below
  first : above.length = report.firstReplacedBlock
  replaces : report.replacedBlocks ≤ replaced.length
  spliced : Spliced above below report.insertedBlocks new
  within : RopeBuffer.EditsWithin (totalLength above) (totalLength below) (totalLength old) deltas

theorem closeAt_report (index : BlockIndex parser) {buffer : RopeBuffer} {first last : Nat}
    {text : Text} (reparsedBytes : Nat)
    (read : buffer.text (index.windowRange first last) = .ok text)
    : (index.closeAt buffer first last reparsedBytes).1.firstReplacedBlock = first
      ∧ (index.closeAt buffer first last reparsedBytes).1.replacedBlocks = last + 1 - first
      ∧ (index.closeAt buffer first last reparsedBytes).1.insertedBlocks
        = (parsedBlocks parser buffer.revision (index.windowRange first last) text).length := by
  unfold closeAt
  dsimp only
  rw [read]
  exact ⟨rfl, rfl, rfl⟩

section Close

variable {buffer : RopeBuffer} {first last : Nat} (consistent : index.store.Consistent)
  (firstLast : first ≤ last) (inside : last < index.store.flat.length)
  {before middle after : Text} (whole : buffer.rope = before ++ (middle ++ after))
  (aboveSlices : Slices ((index.store.flat.take first).map Prod.snd) before)
  (belowSlices : Slices ((index.store.flat.drop (last + 1)).map Prod.snd) after)
  (range : index.windowRange first last = ⟨utf8Len before, utf8Len before + utf8Len middle⟩)

include consistent firstLast inside whole aboveSlices belowSlices range

/-- Closing a window that starts and ends between slices of the text splices it, and the new
entries cut the text again unless bytes were dropped.
-/
theorem closeAt_spliced (ordered : parser.Ordered) (aligned : parser.Aligned)
    (reparsedBytes : Nat) (kept : ¬ index.DropsWindow buffer first last)
    : let closed := index.closeAt buffer first last reparsedBytes
      closed.1.firstReplacedBlock = first
      ∧ closed.1.replacedBlocks = last + 1 - first
      ∧ Spliced (index.store.flat.take first) (index.store.flat.drop (last + 1))
          closed.1.insertedBlocks closed.2.store.flat
      ∧ closed.2.Cuts buffer.rope := by
  intro closed
  have read : buffer.text (index.windowRange first last) = .ok middle := by
    rw [range]
    exact RopeBuffer.text_append whole
  obtain ⟨reportFirst, reportReplaced, reportInserted⟩ := closeAt_report index reparsedBytes read
  obtain ⟨fenceHeights, store⟩ := closeAt_store index reparsedBytes read
  refine ⟨reportFirst, reportReplaced, ?_⟩
  change Spliced _ _ (index.closeAt buffer first last reparsedBytes).1.insertedBlocks
      (index.closeAt buffer first last reparsedBytes).2.store.flat ∧ _
  unfold Cuts
  rw [reportInserted, store]
  generalize parsed : parsedBlocks parser buffer.revision (index.windowRange first last) middle
    = blocks
  obtain ⟨above, existing, below, split, place, stop, _, range'⟩ :=
    windowRange_split consistent firstLast inside
  obtain ⟨starts, stops⟩ := SourceRange.mk.inj (range'.symm.trans range)
  have takes : index.store.flat.take first = above := by
    rw [split, ← place, List.append_assoc, List.take_left]
  have drops : index.store.flat.drop (last + 1) = below := by
    rw [split, ← stop, ← List.length_append, List.drop_left]
  rw [takes] at aboveSlices ⊢
  rw [drops] at belowSlices ⊢
  by_cases filled : blocks = []
  · subst filled
    have nodes := (parsedBlocks_eq_nil_iff _ _ _).mp parsed
    rcases List.eq_nil_or_concat above with leading | ⟨front, ⟨entry, length⟩, above_eq⟩
    · -- A blank window at the start of the document holds no byte, or ends it.
      obtain ⟨_, flat⟩ := spliceWindow_leading consistent split place.symm stop.symm leading
        fenceHeights buffer.revision
      subst leading
      rw [flat]
      refine ⟨.inl ⟨[], rfl, .inr rfl, rfl⟩, ?_⟩
      intro followed
      have empty : utf8Len middle = 0 := by
        by_contra bytes
        refine kept ⟨place.symm, ?_, ?_, middle, read, nodes⟩
        · have positive := List.length_pos_iff.mpr followed
          change last + 1 < index.store.len
          rw [consistent.len, split]
          simp only [List.length_append]
          omega
        · rw [range]
          simp only [SourceRange.lenBytes]
          omega
      obtain rfl := (utf8Len_eq_zero_iff middle).mp empty
      obtain rfl : before = [] := by
        apply (utf8Len_eq_zero_iff before).mp
        rw [← aboveSlices.sum]
        rfl
      rw [whole]
      exact belowSlices
    · rw [List.concat_eq_append] at above_eq
      subst above_eq
      have here : front.length + 1 = first := by simpa using place
      have next : front.length + 1 + existing.length = last + 1 := by simpa using stop
      obtain ⟨_, flat⟩ := spliceWindow_blank consistent split fenceHeights buffer.revision
      rw [next, here] at flat
      rw [flat]
      refine ⟨.inr ⟨rfl, front, entry, length, recordedLines existing, totalLength existing, rfl,
        rfl⟩, ?_⟩
      intro _
      rw [List.map_append] at aboveSlices
      obtain ⟨far, near, rfl, frontSlices, nearSlices⟩ := (slices_append_iff _ _ _).mp aboveSlices
      have joined : length + totalLength existing = utf8Len (near ++ middle) := by
        have nearLength := nearSlices.sum
        simp only [List.map_cons, List.map_nil, List.sum_cons, List.sum_nil] at nearLength
        rw [utf8Len_append]
        omega
      have regrouped : buffer.rope = far ++ ((near ++ middle) ++ after) := by
        rw [whole]
        simp only [List.append_assoc]
      rw [regrouped, List.map_append, List.map_cons, joined]
      exact frontSlices.append ((slices_singleton _).append belowSlices)
  · obtain ⟨items, tiled, _, flat⟩ := spliceWindow_filled consistent split place.symm stop.symm
      filled fenceHeights buffer.revision
    rw [flat]
    constructor
    · refine .inl ⟨items, ?_, .inl (List.length_pos_iff.mpr filled), rfl⟩
      simpa using congrArg List.length tiled
    · intro _
      have lengths := congrArg (List.map (·.length)) tiled
      rw [List.map_map] at lengths
      have slices := parsedBlocks_slices ordered aligned buffer.revision (text_fits read)
        (by rw [parsed]; exact filled)
      rw [parsed, ← lengths] at slices
      rw [whole, ← List.append_assoc, List.map_append, List.map_append]
      exact (aboveSlices.append slices).append belowSlices

end Close

/-- An update of a filled index splices the window it settles on, and the entries cut the text
again unless it dropped bytes.
-/
theorem update_spliced (ordered : parser.Ordered) (aligned : parser.Aligned)
    (consistent : index.store.Consistent) (filled : index.store.flat ≠ []) {text : Text}
    {next : RopeBuffer} {deltas : List RevisionDelta} (cuts : index.Cuts text)
    (edited : deltas ≠ []) (rewrites : RopeBuffer.Rewrites text deltas next.rope)
    (kept : ¬ index.DropsBytes next deltas)
    : (index.update next deltas).2.Cuts next.rope
      ∧ ∃ above replaced below,
        SplicedBy index.store.flat (index.update next deltas).2.store.flat deltas
          (index.update next deltas).1 above replaced below := by
  have slices := cuts filled
  obtain ⟨absorbed, low, high, last, settles, window, closes⟩ :=
    update_settles consistent filled slices.sum edited rewrites
  obtain ⟨before, middle, after, whole, aboveSlices, belowSlices, range⟩ :=
    window.slices slices rewrites
  have closed := closeAt_spliced window.edits.consistent window.firstLast window.inside whole
    aboveSlices belowSlices range ordered aligned
    (absorbed.reparsedBefore (low - 1) (min (high + 1) (absorbed.len - 1)) last)
    fun dropped => kept ⟨absorbed, low, high, last, settles, dropped⟩
  rw [closes]
  obtain ⟨first, replaces, spliced, cutsNext⟩ := closed
  refine ⟨cutsNext, ?_⟩
  have ⟨lowHigh, highInside, room, _, _⟩ := window.edits.untouched
  have clean : CleanOutside index.store.flat absorbed.store.flat (some (low, high)) :=
    window.edits.untouched
  have firstLast := window.firstLast
  have lastInside := window.inside
  have reaches := window.reaches
  have outside : StaysDirty absorbed.store.flat (low - 1)
      (absorbed.store.flat.length - (last + 1)) (some (low, high)) :=
    ⟨Nat.sub_le _ _, by omega⟩
  have aboveSame := clean.front outside
  have belowSame := clean.back outside
  rw [show absorbed.store.flat.length - (absorbed.store.flat.length - (last + 1)) = last + 1 by
    omega] at belowSame
  have fewer : absorbed.store.flat.length ≤ index.store.flat.length := by
    have cleared : index.clearProjections.store.Consistent := consistent
    obtain ⟨_, _, keys, _⟩ :=
      absorbEdits_keys cleared filled rewrites.lengths.1 settles.absorbs
    have lengths := keys.length_le
    rwa [List.length_map, List.length_map] at lengths
  have parts := take_drop_ends index.store.flat (low - 1)
    (absorbed.store.flat.length - (last + 1)) (by omega)
  rw [aboveSame, belowSame] at parts
  refine ⟨absorbed.store.flat.take (low - 1),
    (index.store.flat.drop (low - 1)).take
      (index.store.flat.length - (low - 1) - (absorbed.store.flat.length - (last + 1))),
    absorbed.store.flat.drop (last + 1), ?_⟩
  refine {
    split := parts
    first := ?_
    replaces := ?_
    spliced := spliced
    within := ?_
  }
  · rw [first, List.length_take]
    omega
  · rw [replaces, List.length_take, List.length_drop]
    omega
  · apply window.edits.within.mono
    · rw [← aboveSame]
      exact weight_take_mono Prod.snd index.store.flat (Nat.sub_le low 1)
    · rw [← belowSame]
      have mono := weight_take_mono Prod.snd index.store.flat
        (show index.store.flat.length - (absorbed.store.flat.length - (high + 1))
            ≤ index.store.flat.length - (absorbed.store.flat.length - (last + 1)) by omega)
      have upper := weight_take_add_drop Prod.snd index.store.flat
        (index.store.flat.length - (absorbed.store.flat.length - (high + 1)))
      have lower := weight_take_add_drop Prod.snd index.store.flat
        (index.store.flat.length - (absorbed.store.flat.length - (last + 1)))
      unfold totalLength
      omega

end Hane.Markdown.BlockIndex
