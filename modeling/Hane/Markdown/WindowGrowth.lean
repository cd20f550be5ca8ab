import Hane.Markdown.IndexedItems

/-! Where the growth of a re-parse window stops, and what an update ends with. -/

namespace Hane.Markdown.BlockIndex

open Hane.Document Hane.Foundations

variable {parser : Parser}

def parsedBlocks (parser : Parser) (revision : Nat) (window : SourceRange) (text : Text)
    : List TiledBlock :=
  tiledBlocks (parser.parseDocument revision window text).tree window text

/-- Whether a window can be read, does not re-synchronize and may still grow. -/
def growsAt (index : BlockIndex parser) (buffer : RopeBuffer) (first last reparsedBytes : Nat)
    : Bool :=
  let window := index.windowRange first last
  match buffer.text window with
  | .error _ => false
  | .ok text =>
      !index.resynchronizes buffer window last
          (parsedBlocks parser buffer.revision window text)
      && index.canGrow first last (reparsedBytes + window.lenBytes)

/-- How an update ends with a window that does not grow any more. -/
def closeAt (index : BlockIndex parser) (buffer : RopeBuffer) (first last reparsedBytes : Nat)
    : BlockIndexUpdate × BlockIndex parser :=
  let window := index.windowRange first last
  match buffer.text window with
  | .error _ => index.closeUnread buffer.revision reparsedBytes first
  | .ok text =>
      let parsed := parser.parseDocument buffer.revision window text
      let blocks := parsedBlocks parser buffer.revision window text
      index.closeWindow buffer.revision (reparsedBytes + window.lenBytes) first last blocks
        (parser.buildFenceHeightProjections parsed blocks window text)
        (index.resynchronizes buffer window last blocks)

/-- One round of the growth. -/
theorem growWindow_eq (index : BlockIndex parser) (buffer : RopeBuffer)
    (first last reparsedBytes : Nat)
    : index.growWindow buffer first last reparsedBytes
      = if index.growsAt buffer first last reparsedBytes then
          index.growWindow buffer first (last + 1)
            (reparsedBytes + (index.windowRange first last).lenBytes)
        else
          index.closeAt buffer first last reparsedBytes := by
  have outcome : (∃ problem, buffer.text (index.windowRange first last) = .error problem)
      ∨ ∃ text, buffer.text (index.windowRange first last) = .ok text := by
    cases buffer.text (index.windowRange first last) with
    | error problem => exact .inl ⟨problem, rfl⟩
    | ok text => exact .inr ⟨text, rfl⟩
  rw [growWindow]
  unfold growsAt closeAt parsedBlocks
  rcases outcome with ⟨problem, read⟩ | ⟨text, read⟩
  · simp only [read]
    rfl
  · simp [read]

/-- The bytes re-parsed by the windows from `start` up to before `last`. -/
def reparsedBefore (index : BlockIndex parser) (first start last : Nat) : Nat :=
  weight (fun last => (index.windowRange first last).lenBytes) (List.range' start (last - start))

theorem reparsedBefore_self (index : BlockIndex parser) (first start : Nat)
    : index.reparsedBefore first start start = 0 := by
  unfold reparsedBefore
  rw [Nat.sub_self]
  rfl

theorem reparsedBefore_next (index : BlockIndex parser) {first start last : Nat}
    (later : start < last)
    : index.reparsedBefore first start last
      = (index.windowRange first start).lenBytes
        + index.reparsedBefore first (start + 1) last := by
  unfold reparsedBefore
  have count : last - start = last - (start + 1) + 1 := by omega
  rw [count, List.range'_succ, weight_cons]

/-- A window that starts with the block `start` at its end grows block by block up to `last`.
-/
structure StopsAt (index : BlockIndex parser) (buffer : RopeBuffer) (first start last : Nat)
    : Prop where
  ordered : start ≤ last
  grew :
    ∀ earlier, start ≤ earlier → earlier < last
      → index.growsAt buffer first earlier (index.reparsedBefore first start earlier) = true
  stopped : index.growsAt buffer first last (index.reparsedBefore first start last) = false

/-- A window grows to at most one place. -/
theorem StopsAt.unique {index : BlockIndex parser} {buffer : RopeBuffer}
    {first start last last' : Nat} (stops : index.StopsAt buffer first start last)
    (stops' : index.StopsAt buffer first start last')
    : last = last' := by
  rcases Nat.lt_trichotomy last last' with before | same | after
  · have grew := stops'.grew last stops.ordered before
    rw [stops.stopped] at grew
    cases grew
  · exact same
  · have grew := stops.grew last' stops'.ordered after
    rw [stops'.stopped] at grew
    cases grew

theorem growsAt_inside {index : BlockIndex parser} {buffer : RopeBuffer}
    {first last reparsedBytes : Nat}
    (grows : index.growsAt buffer first last reparsedBytes = true)
    : last + 1 < index.len := by
  unfold growsAt at grows
  dsimp only at grows
  split at grows
  · cases grows
  · simp only [canGrow, Bool.and_eq_true, decide_eq_true_eq] at grows
    exact grows.2.1.1

/-- The growth stops at some block and the update ends with that window, by following the
growth.
-/
theorem growWindow_stops (index : BlockIndex parser) (buffer : RopeBuffer)
    (first : Nat) {start : Nat} (inside : start < index.len) (reparsedBytes : Nat)
    : ∃ last,
        start ≤ last
        ∧ last < index.len
        ∧ (∀ earlier, start ≤ earlier → earlier < last
          → index.growsAt buffer first earlier
              (reparsedBytes + index.reparsedBefore first start earlier) = true)
        ∧ index.growsAt buffer first last
            (reparsedBytes + index.reparsedBefore first start last) = false
        ∧ index.growWindow buffer first start reparsedBytes
          = index.closeAt buffer first last
              (reparsedBytes + index.reparsedBefore first start last) := by
  generalize left : index.len - start = fuel
  induction fuel generalizing start reparsedBytes with
  | zero => omega
  | succ fuel ih =>
      rw [growWindow_eq]
      cases grows : index.growsAt buffer first start reparsedBytes with
      | false =>
          refine ⟨start, Nat.le_refl _, inside, ?_, ?_, ?_⟩
          · intro earlier atLeast upTo
            omega
          · rw [reparsedBefore_self, Nat.add_zero, grows]
          · rw [if_neg Bool.false_ne_true, reparsedBefore_self, Nat.add_zero]
      | true =>
          obtain ⟨last, ordered, lastInside, grew, stopped, closed⟩ :=
            ih (growsAt_inside grows)
              (reparsedBytes + (index.windowRange first start).lenBytes) (by omega)
          have sum {later : Nat} (after : start < later)
              : reparsedBytes + index.reparsedBefore first start later
                = reparsedBytes + (index.windowRange first start).lenBytes
                  + index.reparsedBefore first (start + 1) later := by
            rw [reparsedBefore_next index after, Nat.add_assoc]
          refine ⟨last, by omega, lastInside, ?_, ?_, ?_⟩
          · intro earlier atLeast upTo
            rcases Nat.eq_or_lt_of_le atLeast with rfl | after
            · rw [reparsedBefore_self, Nat.add_zero, grows]
            · rw [sum after]
              exact grew earlier after upTo
          · rw [sum (by omega), stopped]
          · rw [if_pos rfl, sum (by omega), closed]

theorem growWindow_closes (index : BlockIndex parser) (buffer : RopeBuffer)
    (first : Nat) {start : Nat} (inside : start < index.len)
    : ∃ last,
        last < index.len
        ∧ index.StopsAt buffer first start last
        ∧ index.growWindow buffer first start 0
          = index.closeAt buffer first last (index.reparsedBefore first start last) := by
  obtain ⟨last, ordered, lastInside, grew, stopped, closed⟩ :=
    index.growWindow_stops buffer first inside 0
  simp only [Nat.zero_add] at grew stopped closed
  exact ⟨last, lastInside, ⟨ordered, grew, stopped⟩, closed⟩

-- What an update ends with

theorem editedRun_isSome {index : BlockIndex parser} (consistent : index.store.Consistent)
    (filled : index.store.flat ≠ []) {delta : RevisionDelta}
    (ordered : delta.editedSourceRangeBefore.start ≤ delta.editedSourceRangeBefore.stop)
    (inside : delta.editedSourceRangeBefore.stop ≤ totalLength index.store.flat)
    (shrinks :
      -(delta.byteDelta)
        ≤ (delta.editedSourceRangeBefore.stop : Int) - delta.editedSourceRangeBefore.start)
    : ∃ first last combined, index.editedRun delta = some (first, last, combined) := by
  have owned (offset : Nat) : ∃ ordinal, index.store.ordinalAt offset = some ordinal := by
    rw [consistent.ordinalAt, if_neg filled]
    exact ⟨_, rfl⟩
  obtain ⟨first, foundFirst⟩ := owned delta.editedSourceRangeBefore.start
  obtain ⟨last, foundLast⟩ := owned delta.editedSourceRangeBefore.stop
  obtain ⟨firstInside, start, _⟩ :=
    consistent.ordinalAt_some foundFirst (Nat.le_trans ordered inside)
  obtain ⟨lastInside, _, stop⟩ := consistent.ordinalAt_some foundLast inside
  have covers : delta.editedSourceRangeBefore.stop
      ≤ totalLength (index.store.flat.take (last + 1)) := by
    rcases stop with before | ⟨final, whole⟩
    · exact Nat.le_of_lt before
    · rw [final, List.take_length, whole]
  have covered : index.coveredBytes = totalLength index.store.flat := consistent.totalBytes
  obtain ⟨combined, sum⟩ : ∃ combined,
      checkedAddSigned
          (totalLength (index.store.flat.take (last + 1))
            - totalLength (index.store.flat.take first))
          delta.byteDelta
        = some combined :=
    ⟨_, if_pos (by omega)⟩
  refine ⟨first, last, combined, ?_⟩
  unfold editedRun
  dsimp only
  rw [covered, if_neg (Nat.not_lt.mpr inside), foundFirst, foundLast]
  simp only [Option.bind_eq_bind, Option.bind_some, span_eq consistent firstInside,
    span_eq consistent lastInside, sum]
  rfl

/-- Edits of the indexed document are always absorbed, by induction on them. -/
theorem absorbEdits_isSome {index : BlockIndex parser} (consistent : index.store.Consistent)
    (filled : index.store.flat ≠ []) {text final : Text} {deltas : List RevisionDelta}
    (total : totalLength index.store.flat = utf8Len text)
    (rewrites : RopeBuffer.Rewrites text deltas final) (revision : Nat)
    (dirty : Option (Nat × Nat)) (touched : deltas ≠ [] ∨ dirty ≠ none)
    : ∃ absorbed low high,
        index.absorbEdits revision deltas dirty = (absorbed, some (low, high)) := by
  induction deltas generalizing index text dirty with
  | nil =>
      obtain ⟨⟨low, high⟩, rfl⟩ :=
        Option.ne_none_iff_exists'.mp (touched.resolve_left fun none => none rfl)
      exact ⟨index, low, high, rfl⟩
  | cons delta deltas ih =>
      obtain ⟨before, deleted, after, replacement, rfl, same, rest⟩ := rewrites
      have start : delta.editedSourceRangeBefore.start = utf8Len before := by rw [same]; rfl
      have stop : delta.editedSourceRangeBefore.stop = utf8Len before + utf8Len deleted := by
        rw [same]
        rfl
      have moved : delta.byteDelta = (utf8Len replacement : Int) - utf8Len deleted := by
        rw [same]
        simp [RopeBuffer.editDelta, SourceRange.lenBytes]
      simp only [utf8Len_append] at total
      have ordered : delta.editedSourceRangeBefore.start
          ≤ delta.editedSourceRangeBefore.stop := by omega
      obtain ⟨first, last, combined, found⟩ :=
        editedRun_isSome consistent filled ordered (by omega) (by omega)
      have run := editedRun_spec consistent ordered found
      obtain ⟨merged, mergedConsistent, flat, length, _⟩ := run.mergeRun consistent revision
      unfold absorbEdits
      rw [found]
      refine ih mergedConsistent ?_ ?_ rest _ (.inr (Option.some_ne_none _))
      · rw [flat]
        exact List.append_ne_nil_of_right_ne_nil _ (List.cons_ne_nil _ _)
      · rw [flat]
        simp only [utf8Len_append]
        omega

/-- The window an update settles on: the edits touch the blocks `low` up to and including
`high`, and the window around them grows up to `last`.
-/
structure Settles (index : BlockIndex parser) (buffer : RopeBuffer)
    (deltas : List RevisionDelta) (absorbed : BlockIndex parser) (low high last : Nat) : Prop where
  filled : index.store.flat ≠ []
  absorbs :
    index.clearProjections.absorbEdits buffer.revision deltas none = (absorbed, some (low, high))
  stops : absorbed.StopsAt buffer (low - 1) (min (high + 1) (absorbed.len - 1)) last

theorem Settles.unique {index absorbed absorbed' : BlockIndex parser} {buffer : RopeBuffer}
    {deltas : List RevisionDelta} {low low' high high' last last' : Nat}
    (settles : index.Settles buffer deltas absorbed low high last)
    (settles' : index.Settles buffer deltas absorbed' low' high' last')
    : absorbed = absorbed' ∧ low = low' ∧ high = high' ∧ last = last' := by
  obtain ⟨rfl, dirty⟩ := Prod.mk.inj (settles.absorbs.symm.trans settles'.absorbs)
  obtain ⟨rfl, rfl⟩ := Prod.mk.inj (Option.some.inj dirty)
  exact ⟨rfl, rfl, rfl, settles.stops.unique settles'.stops⟩

theorem update_rebuilds {index : BlockIndex parser} (consistent : index.store.Consistent)
    (empty : index.store.flat = []) {buffer : RopeBuffer} {deltas : List RevisionDelta}
    (edited : deltas ≠ [])
    : index.update buffer deltas = rebuild parser buffer 0 := by
  have isEmpty : index.clearProjections.isEmpty = true := by
    refine consistent.isEmpty.trans ?_
    rw [empty]
    rfl
  unfold update
  rw [if_neg (by simpa using edited)]
  dsimp only
  rw [if_pos isEmpty]

theorem update_empty {index : BlockIndex parser} (consistent : index.store.Consistent)
    (empty : index.store.flat = []) {buffer : RopeBuffer} {deltas : List RevisionDelta}
    (edited : deltas ≠ [])
    : (index.update buffer deltas).2 = fromBuffer parser buffer :=
  congrArg Prod.snd (update_rebuilds consistent empty edited)

/-- What an update knows about the window it settles on. -/
structure Window (index : BlockIndex parser) (deltas : List RevisionDelta)
    (absorbed : BlockIndex parser) (low high last : Nat) : Prop where
  edits : Absorbed index.store.flat index absorbed deltas low high
  firstLast : low - 1 ≤ last
  inside : last < absorbed.store.flat.length
  reaches : high < last ∨ last + 1 = absorbed.store.flat.length

theorem update_settles {index : BlockIndex parser} (consistent : index.store.Consistent)
    (filled : index.store.flat ≠ []) {text : Text} {next : RopeBuffer}
    {deltas : List RevisionDelta} (total : totalLength index.store.flat = utf8Len text)
    (edited : deltas ≠ []) (rewrites : RopeBuffer.Rewrites text deltas next.rope)
    : ∃ absorbed low high last,
        index.Settles next deltas absorbed low high last
        ∧ index.Window deltas absorbed low high last
        ∧ index.update next deltas
          = absorbed.closeAt next (low - 1) last
              (absorbed.reparsedBefore (low - 1) (min (high + 1) (absorbed.len - 1)) last) := by
  have cleared : index.clearProjections.store.Consistent := consistent
  obtain ⟨absorbed, low, high, ran⟩ :=
    absorbEdits_isSome cleared filled total rewrites next.revision none (.inl edited)
  have clean : CleanOutside index.store.flat index.clearProjections.store.flat none := rfl
  obtain ⟨absorbs, _⟩ := absorbEdits_spec cleared clean rewrites.lengths.1 ran
  have len : absorbed.len = absorbed.store.flat.length := absorbs.consistent.len
  have bound := absorbs.untouched.inside
  have lowHigh := absorbs.untouched.ordered
  obtain ⟨last, inside, stops, closes⟩ :=
    absorbed.growWindow_closes next (low - 1)
      (show min (high + 1) (absorbed.len - 1) < absorbed.len by omega)
  have ordered := stops.ordered
  refine ⟨absorbed, low, high, last, ⟨filled, ran, stops⟩, ?_, ?_⟩
  · exact ⟨⟨absorbs.consistent, absorbs.untouched, absorbs.total, absorbs.lines,
      absorbs.within⟩, by omega, by omega, by omega⟩
  · have isEmpty : index.clearProjections.isEmpty = false := by
      have some : index.store.flat.isEmpty = false := by simpa using filled
      exact cleared.isEmpty.trans some
    have update : index.update next deltas
        = absorbed.growWindow next (low - 1) (min (high + 1) (absorbed.len - 1)) 0 := by
      unfold update
      rw [if_neg (by simpa using edited)]
      dsimp only
      rw [if_neg (by simp [isEmpty]), ran]
    rw [update, closes]

end Hane.Markdown.BlockIndex
