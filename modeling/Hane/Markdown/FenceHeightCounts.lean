import Hane.Markdown.FenceHeightOwners

/-! When the counts of the fence index are those of a look at every row. -/

namespace Hane.Markdown.FenceHeight

open Hane.Document
open Hane.Foundations
open Hane.Foundations.Cuts

-- A look at every row

/-- The disclosure touches the row itself: half-open, and a caret also at an end the row owns. -/
def touchesDirectly (row : QuotedRow) (disclosure : SourceRange) : Bool :=
  if disclosure.isEmpty then
    decide (row.range.start ≤ disclosure.start)
    && (decide (disclosure.start < row.range.stop)
      || (row.ownsEnd && disclosure.start == row.range.stop))
  else
    row.range.intersects disclosure

/-- The disclosure touches a quote: a caret that its block has also at the end of the quote. The end
of the block is the block's own only in the final block.
-/
def touchesQuote (block : SourceRange) (blockIsFinal : Bool) (owner disclosure : SourceRange)
    : Bool :=
  if disclosure.isEmpty then
    decide (owner.start ≤ disclosure.start)
    && decide (disclosure.start ≤ owner.stop)
    && (decide (disclosure.start < block.stop)
      || (blockIsFinal && disclosure.start == block.stop))
  else
    owner.intersects disclosure

def touchesThroughQuote (block : SourceRange) (blockIsFinal : Bool) (row : QuotedRow)
    (disclosure : SourceRange)
    : Bool :=
  row.quoteOwners.any (touchesQuote block blockIsFinal · disclosure)

def queriedIn (range : SourceRange) (row : QuotedRow) : Bool :=
  !range.isEmpty && row.range.intersects range

def queriedBefore (line : Nat) (row : QuotedRow) : Bool := decide (row.line < line)

/-- The queried rows that the disclosure touches neither directly nor through a quote. -/
def untouchedRows (block : SourceRange) (rows : List QuotedRow) (queried : QuotedRow → Bool)
    (disclosure : Option SourceRange) (blockIsFinal : Bool)
    : Nat :=
  rows.countP fun row => queried row && !(disclosure.any fun disclosure =>
    touchesDirectly row disclosure || touchesThroughQuote block blockIsFinal row disclosure)

/-- Disjoint fence rows of a block, their lines in the order of the source, each with the nested
quotes around it.
-/
structure FenceRows (block : SourceRange) (rows : List QuotedRow) : Prop where
  filled : ∀ row ∈ rows, row.range.start < row.range.stop
  inside : ∀ row ∈ rows, block.start ≤ row.range.start ∧ row.range.stop ≤ block.stop
  apart : rows.Pairwise fun first second =>
    first.range.stop ≤ second.range.start ∨ second.range.stop ≤ first.range.start
  lines : ∀ first ∈ rows, ∀ second ∈ rows,
    first.range.start < second.range.start → first.line ≤ second.line
  enclosed : ∀ row ∈ rows, ∀ owner ∈ row.quoteOwners,
    block.start ≤ owner.start ∧ owner.start < owner.stop ∧ owner.stop ≤ block.stop
  nested : ∀ row ∈ rows, ∀ inner ∈ row.quoteOwners, ∀ outer ∈ row.quoteOwners,
    (outer.start ≤ inner.start ∧ inner.stop ≤ outer.stop)
    ∨ (inner.start ≤ outer.start ∧ outer.stop ≤ inner.stop)

/-- Every queried row that the disclosure touches directly and through no quote has no quote, and a
caret touches no queried row before it.
-/
def CountsTouched (block : SourceRange) (rows : List QuotedRow) (queried : QuotedRow → Bool)
    (disclosure : Option SourceRange) (blockIsFinal : Bool)
    : Prop :=
  ∀ disclosed ∈ disclosure, ∀ row ∈ rows, queried row = true →
    touchesDirectly row disclosed = true →
    touchesThroughQuote block blockIsFinal row disclosed = false →
    row.quoteOwners = []
    ∧ (disclosed.isEmpty = true →
        ∀ other ∈ rows, queried other = true → touchesDirectly other disclosed = true →
          row.range.start ≤ other.range.start)

-- The rows in order

/-- Rows one behind the other, none of them empty. -/
structure Arranged (rows : List QuotedRow) : Prop where
  filled : ∀ row ∈ rows, row.range.start < row.range.stop
  ordered : rows.Pairwise fun first second => first.range.stop ≤ second.range.start
  lines : rows.Pairwise fun first second => first.line ≤ second.line

theorem Arranged.sublist {rows fewer : List QuotedRow} (arranged : Arranged rows)
    (part : fewer.Sublist rows)
    : Arranged fewer :=
  ⟨fun row member => arranged.filled row (part.subset member), arranged.ordered.sublist part,
    arranged.lines.sublist part⟩

/-- Rows of different ranges are not merged, by induction over them. -/
theorem foldl_pushRow {done items : List QuotedRow}
    (distinct : (done ++ items).Pairwise fun first second => first.range ≠ second.range)
    : items.foldl pushRow done = done ++ items := by
  induction items generalizing done with
  | nil => rw [List.foldl_nil, List.append_nil]
  | cons row rest ih =>
      have pushed : pushRow done row = done ++ [row] := by
        rw [pushRow]
        cases last : done.getLast? with
        | none => rw [List.getLast?_eq_none_iff.mp last, List.nil_append]
        | some previous =>
            have different := (List.pairwise_append.mp distinct).2.2 previous
              (List.mem_of_getLast? last) row List.mem_cons_self
            simp only
            rw [if_neg different]
      rw [List.foldl_cons, pushed, ih (by simpa using distinct), List.append_assoc,
        List.singleton_append]

theorem rowFirst_trans (first second third : QuotedRow)
    (before : rowFirst first second = true) (after : rowFirst second third = true)
    : rowFirst first third = true := by
  rcases first with ⟨⟨start, stop⟩, _, _, line⟩
  rcases second with ⟨⟨start', stop'⟩, _, _, line'⟩
  rcases third with ⟨⟨start'', stop''⟩, _, _, line''⟩
  simp only [rowFirst, rangeFirst, SourceRange.mk.injEq] at *
  split_ifs at * <;> simp at * <;> omega

theorem rowFirst_total (first second : QuotedRow)
    : (rowFirst first second || rowFirst second first) = true := by
  rcases first with ⟨⟨start, stop⟩, _, _, line⟩
  rcases second with ⟨⟨start', stop'⟩, _, _, line'⟩
  simp only [rowFirst, rangeFirst, SourceRange.mk.injEq]
  split_ifs <;> simp <;> omega

/-- The index holds the rows in order, each once. -/
theorem FenceRows.deduplicated_perm {block : SourceRange} {rows : List QuotedRow}
    (fits : FenceRows block rows)
    : (deduplicated block rows).Perm (rows.map (normalizeRow block))
      ∧ Arranged (deduplicated block rows) := by
  have sorted : ((rows.map (normalizeRow block)).mergeSort rowFirst).Pairwise
      fun first second => rowFirst first second = true :=
    List.pairwise_mergeSort rowFirst_trans rowFirst_total _
  have same := List.mergeSort_perm (rows.map (normalizeRow block)) rowFirst
  have filled : ∀ row ∈ (rows.map (normalizeRow block)).mergeSort rowFirst,
      row.range.start < row.range.stop := by
    intro row member
    obtain ⟨given, present, rfl⟩ := List.mem_map.mp (List.mem_mergeSort.mp member)
    have := fits.filled given present
    have := fits.inside given present
    simp only [normalizeRow, relativeTo]
    omega
  have apart : ((rows.map (normalizeRow block)).mergeSort rowFirst).Pairwise fun first second =>
      first.range.stop ≤ second.range.start ∨ second.range.stop ≤ first.range.start := by
    refine (same.pairwise_iff fun either => either.symm).mpr (List.pairwise_map.mpr ?_)
    refine fits.apart.imp fun either => ?_
    simp only [normalizeRow, relativeTo]
    omega
  have lines : ((rows.map (normalizeRow block)).mergeSort rowFirst).Pairwise fun first second =>
      first.range.start < second.range.start → first.line ≤ second.line := by
    refine List.pairwise_of_forall_mem_list fun first member second member' before => ?_
    obtain ⟨given, present, rfl⟩ := List.mem_map.mp (List.mem_mergeSort.mp member)
    obtain ⟨given', present', rfl⟩ := List.mem_map.mp (List.mem_mergeSort.mp member')
    refine fits.lines given present given' present' ?_
    simp only [normalizeRow, relativeTo] at before
    omega
  have unmerged : deduplicated block rows
      = (rows.map (normalizeRow block)).mergeSort rowFirst := by
    rw [deduplicated, foldl_pushRow, List.nil_append]
    rw [List.nil_append]
    refine List.Pairwise.imp_of_mem (fun {first second} member _ either same => ?_) apart
    have := filled first member
    rw [← same] at either
    omega
  rw [unmerged]
  have ordered : ((rows.map (normalizeRow block)).mergeSort rowFirst).Pairwise
      fun first second => first.range.stop ≤ second.range.start := by
    refine List.Pairwise.imp_of_mem (fun {first second} member member' both => ?_)
      (sorted.and apart)
    have := filled first member
    have := filled second member'
    obtain ⟨before, either⟩ := both
    rcases either with behind | swapped
    · exact behind
    · have low : second.range.start < first.range.start := by omega
      have different : first.range ≠ second.range := fun same => by rw [same] at low; omega
      rw [rowFirst, if_neg different] at before
      simp only [rangeFirst, Bool.or_eq_true, Bool.and_eq_true, decide_eq_true_eq,
        beq_iff_eq] at before
      omega
  refine ⟨same, filled, ordered, List.Pairwise.imp_of_mem (fun {first second} member _ both => ?_)
    (ordered.and lines)⟩
  have := filled first member
  exact both.2 (by omega)

-- Windows of rows

/-- Two positions in the rows with what lies between them. -/
structure Window (rows : List QuotedRow) (start stop : Nat) (queried : QuotedRow → Bool)
    : Prop where
  ordered : start ≤ stop
  inside : stop ≤ rows.length
  holds : (rows.take stop).drop start = rows.filter queried

theorem Arranged.divides_stop {rows : List QuotedRow} (arranged : Arranged rows) (limit : Nat)
    : Divides (fun row => decide (row.range.stop ≤ limit)) rows := by
  refine List.Pairwise.imp_of_mem (fun {first second} _ member' behind => ?_) arranged.ordered
  have := arranged.filled second member'
  simp only [decide_eq_true_eq]
  omega

theorem Arranged.divides_start {rows : List QuotedRow} (arranged : Arranged rows) (limit : Nat)
    : Divides (fun row => decide (row.range.start < limit)) rows := by
  refine List.Pairwise.imp_of_mem (fun {first second} member _ behind => ?_) arranged.ordered
  have := arranged.filled first member
  simp only [decide_eq_true_eq]
  omega

/-- The rows that meet a range lie between the two positions searched for it. -/
theorem Arranged.window_range {rows : List QuotedRow} (arranged : Arranged rows)
    {range : SourceRange} (ordered : range.start ≤ range.stop)
    : Window rows (partitionPoint (fun row => decide (row.range.stop ≤ range.start)) rows)
        (partitionPoint (fun row => decide (row.range.start < range.stop)) rows)
        (·.range.intersects range) := by
  have included : ∀ row ∈ rows, decide (row.range.stop ≤ range.start) = true →
      decide (row.range.start < range.stop) = true := by
    intro row member
    have := arranged.filled row member
    simp only [decide_eq_true_eq]
    omega
  have before := arranged.divides_stop range.start
  have within := arranged.divides_start range.stop
  refine ⟨?_, (List.takeWhile_prefix _).length_le, ?_⟩
  · rw [before.partitionPoint_eq, within.partitionPoint_eq]
    exact List.countP_mono_left included
  · rw [List.drop_take, take_drop_partitionPoint before within included]
    refine List.filter_congr fun row _ => ?_
    simp only [SourceRange.intersects, ← decide_not, Nat.not_le]

theorem Arranged.window_line {rows : List QuotedRow} (arranged : Arranged rows) (line : Nat)
    : Window rows 0 (partitionPoint (fun row => decide (row.line < line)) rows)
        (queriedBefore line) := by
  have divides : Divides (queriedBefore line) rows := by
    refine arranged.lines.imp fun le => ?_
    simp only [queriedBefore, decide_eq_true_eq]
    omega
  exact ⟨Nat.zero_le _, (List.takeWhile_prefix _).length_le, by
    rw [List.drop_zero]
    exact divides.take_eq⟩

theorem Window.slice_rows {rows : List QuotedRow} {start stop : Nat} {queried : QuotedRow → Bool}
    (window : Window rows start stop queried)
    : slice (rows.map QuotedRow.heightRow) start stop
        = some ((rows.filter queried).map QuotedRow.heightRow) := by
  rw [slice, List.length_map, if_pos ⟨window.ordered, window.inside⟩, ← List.map_take,
    ← List.map_drop, window.holds]

theorem Window.quotedBefore_at {rows : List QuotedRow} {start stop : Nat}
    {queried : QuotedRow → Bool} (window : Window rows start stop queried) {place : Nat}
    (within : place ≤ (rows.filter queried).length)
    : (quotedBefore rows)[start + place]?
        = some ((rows.take start).countP QuotedRow.quoted
          + ((rows.filter queried).take place).countP QuotedRow.quoted) := by
  have size := congrArg List.length window.holds
  rw [List.length_drop, List.length_take, Nat.min_eq_left window.inside] at size
  have ordered := window.ordered
  have inside := window.inside
  rw [quotedBefore_getElem? rows (by omega), List.take_add, List.countP_append, ← window.holds,
    List.drop_take, List.take_take, Nat.min_eq_left (by omega)]

-- Counts under a disclosure

def QuotedRow.touchedThroughOutermost (disclosure : SourceRange) (allowOwnerEnd : Bool)
    (row : QuotedRow)
    : Bool :=
  (outermostOwner row.quoteOwners).any (ownerTouched disclosure allowOwnerEnd)

theorem QuotedRow.quoted_of_touched {disclosure : SourceRange} {allowOwnerEnd : Bool}
    {row : QuotedRow} (touched : row.touchedThroughOutermost disclosure allowOwnerEnd = true)
    : row.quoted = true := by
  rw [QuotedRow.touchedThroughOutermost] at touched
  rw [QuotedRow.quoted, ← outermostOwner_isSome]
  cases owned : outermostOwner row.quoteOwners with
  | none => simp [owned] at touched
  | some owner => rfl

/-- Between the two positions of a selection lie the rows it touches: those without a quote, and
no fewer with one behind the second position than behind the first.
-/
theorem direct_uncounted {rows : List QuotedRow} {clipped : SourceRange}
    (filled : ∀ row ∈ rows, row.range.start < row.range.stop)
    (ordered : clipped.start ≤ clipped.stop)
    : rows.countP (fun row => decide (row.range.start < clipped.stop) && !row.quoted)
          = rows.countP (fun row => decide (row.range.stop ≤ clipped.start) && !row.quoted)
            + rows.countP (fun row => row.range.intersects clipped && !row.quoted)
      ∧ rows.countP (fun row => decide (row.range.stop ≤ clipped.start) && row.quoted)
          ≤ rows.countP (fun row => decide (row.range.start < clipped.stop) && row.quoted) := by
  constructor
  · rw [countP_split _ fun row => decide (row.range.stop ≤ clipped.start)]
    congr 1
    · refine List.countP_congr fun row member => ?_
      have := filled row member
      simp only [Bool.and_eq_true, decide_eq_true_eq]
      constructor
      · rintro ⟨⟨_, plain⟩, behind⟩
        exact ⟨behind, plain⟩
      · rintro ⟨behind, plain⟩
        exact ⟨⟨by omega, plain⟩, behind⟩
    · refine List.countP_congr fun row _ => ?_
      simp only [SourceRange.intersects, Bool.and_eq_true, Bool.not_eq_true', decide_eq_true_eq,
        decide_eq_false_iff_not, Nat.not_le]
      exact and_right_comm
  · refine List.countP_mono_left fun row member both => ?_
    have := filled row member
    simp only [Bool.and_eq_true, decide_eq_true_eq] at both ⊢
    exact ⟨by omega, both.2⟩

/-- What the code takes off under a selection: the rows touched through a quote, and those touched
directly that have no quote.
-/
theorem inactiveRowsInSelection_eq {block : SourceRange} {rows : List QuotedRow}
    {start stop : Nat} {queried : QuotedRow → Bool}
    (window : Window (deduplicated block rows) start stop queried)
    (arranged : Arranged (deduplicated block rows)) {selection : SourceRange}
    (ordered : (clipTo block selection).start ≤ (clipTo block selection).stop)
    : inactiveRowsInSelection (fromAbsoluteRows block rows) block start stop
          (((deduplicated block rows).filter queried).map QuotedRow.heightRow) selection
        = some (((deduplicated block rows).filter queried).length
            - (((deduplicated block rows).filter queried).countP
                (·.touchedThroughOutermost (clipTo block selection) false)
              + ((deduplicated block rows).filter queried).countP
                fun row => row.range.intersects (clipTo block selection) && !row.quoted)) := by
  generalize clip : clipTo block selection = clipped at *
  have part := arranged.sublist (List.filter_sublist (p := queried))
  have counted := activeQuoteRowsIn_eq block rows start stop clipped false
  rw [window.holds] at counted
  have before := part.divides_stop clipped.start
  have within := part.divides_start clipped.stop
  have atStart := window.quotedBefore_at (List.takeWhile_prefix
    fun row => decide (row.range.stop ≤ clipped.start)).length_le
  have atStop := window.quotedBefore_at (List.takeWhile_prefix
    fun row => decide (row.range.start < clipped.stop)).length_le
  have filled := part.filled
  clear part
  generalize (deduplicated block rows).filter queried = found at *
  rw [← partitionPoint] at atStart atStop
  have activeStart : partitionPoint ((fun row : FenceHeightRow =>
        decide (row.range.stop ≤ clipped.start)) ∘ QuotedRow.heightRow) found
      = partitionPoint (fun row => decide (row.range.stop ≤ clipped.start)) found := rfl
  have activeEnd : partitionPoint ((fun row : FenceHeightRow =>
        decide (row.range.start < clipped.stop)) ∘ QuotedRow.heightRow) found
      = partitionPoint (fun row => decide (row.range.start < clipped.stop)) found := rfl
  simp only [inactiveRowsInSelection, clip, partitionPoint_map, quoteRowPrefix_built, counted,
    activeStart, activeEnd, atStart, atStop, Option.bind_eq_bind, Option.bind_some,
    Option.pure_def, List.length_map, Option.some.injEq]
  rw [before.take_eq, within.take_eq, before.partitionPoint_eq, within.partitionPoint_eq,
    List.countP_filter, List.countP_filter]
  have direct := direct_uncounted filled ordered
  have := countP_split (fun row => decide (row.range.stop ≤ clipped.start)) QuotedRow.quoted found
  have := countP_split (fun row => decide (row.range.start < clipped.stop)) QuotedRow.quoted found
  simp only [Bool.and_comm] at *
  change found.length - (found.countP (·.touchedThroughOutermost clipped false) + _ - _) = _
  omega

theorem ownsCaret_heightRow (row : QuotedRow) (caret : Nat)
    : row.heightRow.ownsCaret caret
        = (decide (row.range.start ≤ caret)
          && (decide (caret < row.range.stop) || (row.ownsEnd && caret == row.range.stop))) := rfl

/-- The row searched for owns the caret if any row does, by induction over the rows: behind a row
that begins past the caret all do.
-/
theorem Arranged.find_owner {rows : List QuotedRow} (arranged : Arranged rows) (caret : Nat)
    : (rows.find? fun row =>
          !(decide (row.range.stop < caret) || (row.range.stop == caret && !row.ownsEnd))).filter
            (·.heightRow.ownsCaret caret)
        = rows.find? (·.heightRow.ownsCaret caret) := by
  induction rows with
  | nil => rfl
  | cons row rest ih =>
      have smaller := ih (arranged.sublist (List.sublist_cons_self _ _))
      have filled := arranged.filled row List.mem_cons_self
      cases passed : (decide (row.range.stop < caret)
          || (row.range.stop == caret && !row.ownsEnd)) with
      | true =>
          have missed : row.heightRow.ownsCaret caret = false := by
            simp only [Bool.or_eq_true, Bool.and_eq_true, decide_eq_true_eq, beq_iff_eq,
              Bool.not_eq_true'] at passed
            simp only [ownsCaret_heightRow, Bool.and_eq_false_iff,
              Bool.or_eq_false_iff, decide_eq_false_iff_not, beq_eq_false_iff_ne]
            rcases passed with behind | ⟨atEnd, open_⟩
            · omega
            · exact .inr ⟨by omega, .inl open_⟩
          rw [List.find?_cons_of_neg (by simp [passed]), smaller,
            List.find?_cons_of_neg (by simp [missed])]
      | false =>
          rw [List.find?_cons_of_pos (by simp [passed])]
          cases owns : row.heightRow.ownsCaret caret with
          | true =>
              rw [List.find?_cons_of_pos (by simpa using owns)]
              exact Option.filter_some_pos owns
          | false =>
              have past : caret < row.range.start := by
                by_contra reached
                simp only [Bool.or_eq_false_iff, Bool.and_eq_false_iff, decide_eq_false_iff_not,
                  beq_eq_false_iff_ne, Bool.not_eq_false'] at passed
                simp only [ownsCaret_heightRow, Bool.and_eq_false_iff,
                  Bool.or_eq_false_iff, decide_eq_false_iff_not, beq_eq_false_iff_ne] at owns
                rcases owns with early | ⟨notInside, notEnd⟩
                · omega
                · rcases passed.2 with elsewhere | held
                  · omega
                  · rcases notEnd with open_ | apart
                    · rw [held] at open_
                      cases open_
                    · omega
              have none : rest.find? (·.heightRow.ownsCaret caret) = none := by
                refine List.find?_eq_none.mpr fun other member => ?_
                have behind := (List.pairwise_cons.mp arranged.ordered).1 other member
                simp only [ownsCaret_heightRow, Bool.and_eq_true,
                  decide_eq_true_eq]
                omega
              rw [List.find?_cons_of_neg (by simp [owns]), none]
              exact Option.filter_some_neg (by simp [owns])

/-- What the code takes off for the row that owns the caret: nothing when it has a quote. -/
def directlyCounted : Option QuotedRow → Nat
  | none => 0
  | some row => if row.quoted then 0 else 1

/-- What the code takes off at a caret: the rows touched through a quote, and the first row that
owns the caret unless it has a quote.
-/
theorem inactiveRowsAtCaret_eq {block : SourceRange} {rows : List QuotedRow}
    {start stop : Nat} {queried : QuotedRow → Bool}
    (window : Window (deduplicated block rows) start stop queried)
    (arranged : Arranged (deduplicated block rows)) (caret : Nat) (blockIsFinal : Bool)
    : inactiveRowsAtCaret (fromAbsoluteRows block rows) block start stop
          (((deduplicated block rows).filter queried).map QuotedRow.heightRow) caret blockIsFinal
        = some (((deduplicated block rows).filter queried).length
            - (((deduplicated block rows).filter queried).countP
                (·.touchedThroughOutermost (.empty caret)
                  (decide (block.start + caret < block.stop)
                    || (blockIsFinal && block.start + caret == block.stop)))
              + directlyCounted (((deduplicated block rows).filter queried).find?
                (·.heightRow.ownsCaret caret)))) := by
  have counted := activeQuoteRowsIn_eq block rows start stop (.empty caret)
    (decide (block.start + caret < block.stop)
      || (blockIsFinal && block.start + caret == block.stop))
  rw [window.holds] at counted
  have owner := (arranged.sublist (List.filter_sublist (p := queried))).find_owner caret
  have at_ := fun place => @Window.quotedBefore_at _ _ _ _ window place
  generalize (deduplicated block rows).filter queried = found at *
  have place := getElem?_partitionPoint (fun row : QuotedRow =>
    decide (row.range.stop < caret) || (row.range.stop == caret && !row.ownsEnd)) found
  simp only [inactiveRowsAtCaret, partitionPoint_map, quoteRowPrefix_built, counted,
    Option.bind_eq_bind, Option.bind_some, Option.pure_def, List.length_map, List.getElem?_map]
  have same : partitionPoint ((fun row : FenceHeightRow => decide (row.range.stop < caret)
        || (row.range.stop == caret && !row.ownsEnd)) ∘ QuotedRow.heightRow) found
      = partitionPoint (fun row : QuotedRow => decide (row.range.stop < caret)
        || (row.range.stop == caret && !row.ownsEnd)) found := rfl
  rw [same]
  generalize partitionPoint (fun row : QuotedRow => decide (row.range.stop < caret)
    || (row.range.stop == caret && !row.ownsEnd)) found = spot at *
  rw [← place] at owner
  rw [← owner]
  cases here : found[spot]? with
  | none =>
      simp only [Option.map_none, Option.filter_none, directlyCounted]
      rfl
  | some row =>
      cases owns : row.heightRow.ownsCaret caret with
      | false =>
          have left : Option.filter (fun row : FenceHeightRow => row.ownsCaret caret)
              (some row.heightRow) = none := Option.filter_some_neg (by simp [owns])
          have right : Option.filter (fun row : QuotedRow => row.heightRow.ownsCaret caret)
              (some row) = none := Option.filter_some_neg (by simp [owns])
          simp only [Option.map_some, left, right, Option.map_none, directlyCounted]
          rfl
      | true =>
          obtain ⟨bound, value⟩ := List.getElem?_eq_some_iff.mp here
          have upTo := at_ (spot + 1) bound
          have before := at_ spot (Nat.le_of_lt bound)
          rw [List.take_add_one, here, List.countP_append, ← Nat.add_assoc start] at upTo
          have left : Option.filter (fun row : FenceHeightRow => row.ownsCaret caret)
              (some row.heightRow) = some row.heightRow := Option.filter_some_pos owns
          have right : Option.filter (fun row : QuotedRow => row.heightRow.ownsCaret caret)
              (some row) = some row := Option.filter_some_pos owns
          simp only [Option.map_some, left, right, upTo, before, Option.bind_some,
            directlyCounted, Option.isSome_some, if_true, Option.some.injEq]
          cases quoted : row.quoted with
          | true =>
              rw [if_pos (by simp [quoted]), if_pos rfl, Nat.add_sub_cancel]
              rfl
          | false =>
              rw [if_neg (by simp [quoted]), if_neg (by simp), Nat.sub_zero]
              rfl

-- What is taken off and what is touched

/-- The rows without a quote among those touched directly and through no quote, and at a caret the
first row only: the rows a count takes off beside those it finds through their quotes.
-/
def Uncounted (rows : List QuotedRow) (direct through : QuotedRow → Bool) (caret : Bool) : Prop :=
  ∀ row ∈ rows, direct row = true → through row = false →
    row.quoted = false
    ∧ (caret = true → ∀ other ∈ rows, direct other = true →
        row.range.start ≤ other.range.start)

section Taken

variable {rows : List QuotedRow} {direct through : QuotedRow → Bool}

theorem length_sub_eq_iff {taken : Nat}
    (le : taken ≤ rows.countP fun row => direct row && !through row)
    : rows.length - (rows.countP through + taken)
          = rows.countP (fun row => !(direct row || through row))
        ↔ taken = rows.countP fun row => direct row && !through row := by
  have whole := List.length_eq_countP_add_countP (fun row => direct row || through row) (l := rows)
  have touched := countP_split (fun row => direct row || through row) through rows
  have first : rows.countP (fun row => (direct row || through row) && through row)
      = rows.countP through := by
    refine List.countP_congr fun row _ => ?_
    cases direct row <;> simp
  have second : rows.countP (fun row => (direct row || through row) && !through row)
      = rows.countP fun row => direct row && !through row := by
    refine List.countP_congr fun row _ => ?_
    cases through row <;> simp
  have rest : rows.countP (fun row => decide (¬(direct row || through row) = true))
      = rows.countP fun row => !(direct row || through row) := by
    refine List.countP_congr fun row _ => ?_
    simp
  omega

theorem taken_selection (covers : ∀ row, through row = true → row.quoted = true)
    : rows.countP (fun row => direct row && !row.quoted)
          ≤ rows.countP (fun row => direct row && !through row)
      ∧ (rows.countP (fun row => direct row && !row.quoted)
            = rows.countP (fun row => direct row && !through row)
          ↔ Uncounted rows direct through false) := by
  have split := countP_split (fun row => direct row && !through row) QuotedRow.quoted rows
  have plain : rows.countP (fun row => (direct row && !through row) && !row.quoted)
      = rows.countP fun row => direct row && !row.quoted := by
    refine List.countP_congr fun row _ => ?_
    cases touched : through row with
    | true => simp [covers row touched]
    | false => simp
  have none : rows.countP (fun row => (direct row && !through row) && row.quoted) = 0
      ↔ Uncounted rows direct through false := by
    rw [List.countP_eq_zero]
    refine forall₂_congr fun row _ => ?_
    cases direct row <;> cases through row <;> simp
  exact ⟨by omega, by rw [← none]; omega⟩

theorem Arranged.find_least {rows : List QuotedRow} {direct : QuotedRow → Bool}
    (arranged : Arranged rows) {first : QuotedRow} (found : rows.find? direct = some first)
    : ∀ other ∈ rows, direct other = true →
        other = first ∨ first.range.start < other.range.start := by
  obtain ⟨_, before, after, rfl, earlier⟩ := List.find?_eq_some_iff_append.mp found
  have filled := arranged.filled first (by simp)
  have ordered := (List.pairwise_append.mp arranged.ordered).2.1
  intro other member touched
  rcases List.mem_append.mp member with front | back
  · exact absurd touched (by simpa using earlier other front)
  · rcases List.mem_cons.mp back with rfl | behind
    · exact .inl rfl
    · have := (List.pairwise_cons.mp ordered).1 other behind
      exact .inr (by omega)

/-- At a caret the first directly touched row is taken off when it has no quote. -/
theorem taken_caret (arranged : Arranged rows)
    (covers : ∀ row, through row = true → row.quoted = true)
    : directlyCounted (rows.find? direct)
          ≤ rows.countP (fun row => direct row && !through row)
      ∧ (directlyCounted (rows.find? direct)
            = rows.countP (fun row => direct row && !through row)
          ↔ Uncounted rows direct through true) := by
  cases found : rows.find? direct with
  | none =>
      have untouched := List.find?_eq_none.mp found
      have none : rows.countP (fun row => direct row && !through row) = 0 :=
        List.countP_eq_zero.mpr fun row member => by simp [untouched row member]
      rw [none, directlyCounted]
      exact ⟨Nat.le_refl _, iff_of_true rfl fun row member touched =>
        absurd touched (untouched row member)⟩
  | some first =>
      have touched := List.find?_some found
      have present := List.mem_of_find?_eq_some found
      have least := arranged.find_least found
      cases quoted : first.quoted with
      | true =>
          rw [directlyCounted, if_pos quoted]
          refine ⟨Nat.zero_le _, eq_comm.trans (List.countP_eq_zero.trans ⟨?_, ?_⟩)⟩
          · intro none row member direct_ apart
            exact absurd (by simp [direct_, apart]) (none row member)
          · intro uncounted row member both
            obtain ⟨direct_, apart⟩ := Bool.and_eq_true_iff.mp both
            obtain ⟨plain, front⟩ := uncounted row member direct_ (by simpa using apart)
            rcases least row member direct_ with rfl | behind
            · rw [plain] at quoted
              cases quoted
            · exact absurd (front rfl first present touched) (Nat.not_le.mpr behind)
      | false =>
          have apart : through first = false := by
            by_contra held
            rw [covers first (by simpa using held)] at quoted
            cases quoted
          rw [directlyCounted, if_neg (by simp [quoted])]
          have part := arranged.sublist
            (List.filter_sublist (l := rows) (p := fun row => direct row && !through row))
          have inside : first ∈ rows.filter fun row => direct row && !through row :=
            List.mem_filter.mpr ⟨present, by simp [touched, apart]⟩
          rw [List.countP_eq_length_filter]
          refine ⟨List.length_pos_of_mem inside, ?_, ?_⟩
          · intro one row member direct_ apart_
            obtain ⟨only, single⟩ := List.length_eq_one_iff.mp one.symm
            have same : row ∈ rows.filter fun row => direct row && !through row :=
              List.mem_filter.mpr ⟨member, by simp [direct_, apart_]⟩
            rw [single, List.mem_singleton] at inside same
            obtain rfl := same.trans inside.symm
            refine ⟨quoted, fun _ other member' touched' => ?_⟩
            rcases least other member' touched' with rfl | later
            · exact Nat.le_refl _
            · exact Nat.le_of_lt later
          · intro uncounted
            have only : ∀ row ∈ rows.filter fun row => direct row && !through row,
                row = first := by
              intro row member
              obtain ⟨present', both⟩ := List.mem_filter.mp member
              obtain ⟨direct_, apart_⟩ := Bool.and_eq_true_iff.mp both
              rcases least row present' direct_ with same | behind
              · exact same
              · have front := (uncounted row present' direct_ (by simpa using apart_)).2
                exact absurd (front rfl first present touched) (Nat.not_le.mpr behind)
            generalize rows.filter (fun row => direct row && !through row) = kept at *
            match kept with
            | [] => cases inside
            | [_] => rfl
            | second :: third :: rest =>
                have behind := (List.pairwise_cons.mp part.ordered).1 third List.mem_cons_self
                have filled := part.filled second List.mem_cons_self
                rw [only second List.mem_cons_self] at behind filled
                rw [only third (List.mem_cons_of_mem _ List.mem_cons_self)] at behind
                omega

end Taken

end Hane.Markdown.FenceHeight
