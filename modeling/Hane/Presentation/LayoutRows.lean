import Hane.Presentation.Layout
import Hane.Presentation.Normalizing

/-! Whatever a shaper answers, the rows of a line partition its visual text and its source, and
every source offset of a block has a row.
-/

namespace Hane.Presentation.Layout

open Hane.Document Hane.Foundations Hane.Foundations.Cuts

variable {Length Rest : Type} {lengths : Lengths Length} {shaper : LineShaper Length Rest}

-- Cuts

/-- A place inside a line's visual text that a row may end at. -/
def CutPlace (line : Line Length Rest) (offset : Nat) : Prop :=
  0 < offset ∧ offset < line.visualLen ∧ Boundary line.visualText offset

theorem mem_validBoundaries {line : Line Length Rest} {start offset : Nat} {rowWidth : Length}
    (member : offset ∈ validBoundaries shaper line start rowWidth)
    : start < offset ∧ CutPlace line offset := by
  obtain ⟨-, kept⟩ := List.mem_filter.mp (mem_sortedItems.mp member)
  obtain ⟨after, inside, boundary⟩ := of_decide_eq_true kept
  exact ⟨after, by omega, inside, boundary⟩

/-- The body of a line starts between two characters. -/
def BodyAtBoundary (line : Line Length Rest) (geometry : LineGeometry Length) : Prop :=
  ∀ body, geometry.bodyVisualStart = some body → body < line.visualLen
    → Boundary line.visualText body

theorem mem_innerBoundaries {line : Line Length Rest} {geometry : LineGeometry Length}
    {offset : Nat} (atBoundary : BodyAtBoundary line geometry)
    (member : offset ∈ innerBoundaries lengths shaper line geometry)
    : CutPlace line offset := by
  rw [innerBoundaries] at member
  split at member
  next body starts =>
    obtain ⟨same, positive⟩ := Option.filter_eq_some_iff.mp starts
    simp only [decide_eq_true_eq] at positive
    simp only at member
    split at member
    next inside =>
      have least : min body line.visualLen = body := by omega
      rw [least] at inside member
      rw [bodyBoundaries] at member
      split at member
      next =>
        rcases List.mem_cons.mp member with rfl | later
        · exact ⟨positive, inside, atBoundary _ same inside⟩
        · exact (mem_validBoundaries later).2
      next =>
        simp only at member
        split at member
        next split found =>
          rcases List.mem_cons.mp member with rfl | later
          · exact (mem_validBoundaries (List.mem_of_find?_eq_some found)).2
          · exact (mem_validBoundaries later).2
        next => exact (mem_validBoundaries member).2
    next => cases member
  next => exact (mem_validBoundaries member).2

/-- The boundaries of a line: its start, places to cut at in order, and its end. -/
structure CutsLine (line : Line Length Rest) (boundaries : List Nat) : Prop where
  exists_cuts
    : ∃ cuts : List Nat, boundaries = 0 :: cuts ++ [line.visualLen]
        ∧ cuts.Pairwise (· < ·)
        ∧ ∀ offset ∈ cuts, CutPlace line offset

theorem cutsLine_whole (line : Line Length Rest) : CutsLine line [0, line.visualLen] :=
  ⟨[], rfl, .nil, fun _ member => absurd member List.not_mem_nil⟩

theorem cutsLine_fragmentBoundaries {line : Line Length Rest} {geometry : LineGeometry Length}
    (atBoundary : BodyAtBoundary line geometry) (width : Length)
    : CutsLine line (fragmentBoundaries lengths shaper line geometry width) := by
  rw [fragmentBoundaries]
  split
  next => exact cutsLine_whole line
  next =>
    obtain ⟨cuts, same, increases, inner⟩ :=
      sortedItems_zero (innerBoundaries lengths shaper line geometry)
    exact ⟨cuts, by rw [same], increases,
      fun offset member => mem_innerBoundaries atBoundary (inner offset member)⟩

-- Source offsets of cuts

/-- Segments that follow each other in a source range and a visual range. -/
def SegmentsTile : List MappingSegment → SourceRange → VisualRange → Prop
  | [], source, visual => source.start = source.stop ∧ visual.start = visual.stop
  | segment :: rest, source, visual =>
    segment.sourceRange.start = source.start
    ∧ segment.visualRange.start = visual.start
    ∧ segment.sourceRange.start ≤ segment.sourceRange.stop
    ∧ segment.visualRange.start ≤ segment.visualRange.stop
    ∧ SegmentsTile rest ⟨segment.sourceRange.stop, source.stop⟩
        ⟨segment.visualRange.stop, visual.stop⟩

/-- What a segment offers for a visual offset lies in its source, and later for a later one. -/
theorem sourceCandidate_bounds {segment : MappingSegment} {visual : Nat}
    {candidate : PositionCandidate}
    (ordered : segment.sourceRange.start ≤ segment.sourceRange.stop)
    (offered : segment.sourceCandidate visual .after = some candidate)
    : segment.visualRange.start ≤ visual
      ∧ visual ≤ segment.visualRange.stop
      ∧ segment.sourceRange.start ≤ candidate.sourceOffset
      ∧ candidate.sourceOffset ≤ segment.sourceRange.stop
      ∧ ∀ {other : Nat} {later : PositionCandidate}, visual ≤ other
          → segment.sourceCandidate other .after = some later
          → candidate.sourceOffset ≤ later.sourceOffset := by
  rw [MappingSegment.sourceCandidate] at offered
  split at offered
  next => cases offered
  next within =>
    cases offered
    refine ⟨by omega, by omega, ?_, ?_, ?_⟩
    · cases segment.visibility <;> simp only <;> omega
    · cases segment.visibility <;> simp only <;> omega
    · intro other later after offered
      rw [MappingSegment.sourceCandidate] at offered
      split at offered
      next => cases offered
      next =>
        cases offered
        cases segment.visibility <;> simp only <;> omega

/-- The segments of a tiling lie between its ends, and each ends before the next starts, by
induction over the segments.
-/
theorem SegmentsTile.bounds {segments : List MappingSegment} {source : SourceRange}
    {visual : VisualRange} (tiles : SegmentsTile segments source visual)
    : source.start ≤ source.stop
      ∧ visual.start ≤ visual.stop
      ∧ (∀ segment ∈ segments,
          source.start ≤ segment.sourceRange.start
          ∧ segment.sourceRange.start ≤ segment.sourceRange.stop
          ∧ segment.sourceRange.stop ≤ source.stop
          ∧ visual.start ≤ segment.visualRange.start)
      ∧ segments.Pairwise fun segment next =>
          segment.sourceRange.stop ≤ next.sourceRange.start
          ∧ segment.visualRange.stop ≤ next.visualRange.start := by
  induction segments generalizing source visual with
  | nil =>
      obtain ⟨sources, visuals⟩ := tiles
      exact ⟨sources.le, visuals.le, fun _ member => absurd member List.not_mem_nil, .nil⟩
  | cons segment rest ih =>
      obtain ⟨source', visual', ordered, ordered', later⟩ := tiles
      obtain ⟨sources, visuals, inside, apart⟩ := ih later
      simp only at sources visuals inside
      refine ⟨by omega, by omega, ?_, .cons (fun next member => ?_) apart⟩
      · intro other member
        rcases List.mem_cons.mp member with rfl | behind
        · omega
        · have bounds := inside other behind
          omega
      · have bounds := inside next member
        omega

/-- Every visual offset inside a tiling lies in a segment, by induction over the segments. -/
theorem SegmentsTile.exists_segment {segments : List MappingSegment} {source : SourceRange}
    {visual : VisualRange} {offset : Nat} (tiles : SegmentsTile segments source visual)
    (lower : visual.start ≤ offset) (upper : offset < visual.stop)
    : ∃ segment ∈ segments,
        segment.visualRange.start ≤ offset ∧ offset ≤ segment.visualRange.stop := by
  induction segments generalizing source visual with
  | nil =>
      have ends := tiles.2
      omega
  | cons segment rest ih =>
      obtain ⟨-, starts, -, ordered, later⟩ := tiles
      by_cases here : offset ≤ segment.visualRange.stop
      · exact ⟨segment, List.mem_cons_self, by omega, here⟩
      · obtain ⟨found, member, inside⟩ := ih later (by simp only; omega) upper
        exact ⟨found, List.mem_cons_of_mem segment member, inside⟩

/-- The segments of a line tile its source and its visual text, and what was trimmed off the end of
the text: its line break.
-/
def Line.Tiled (line : Line Length Rest) : Prop :=
  ∃ stop, line.visualLen ≤ stop
    ∧ SegmentsTile line.sourceMap.segments line.sourceRange ⟨0, stop⟩

/-- A place to cut at stands for what one of the segments there offers. -/
theorem Line.Tiled.exists_candidate {line : Line Length Rest} (tiled : line.Tiled) {visual : Nat}
    (inside : visual < line.visualLen)
    : ∃ segment ∈ line.sourceMap.segments, ∃ candidate,
        segment.sourceCandidate visual .after = some candidate
        ∧ sourceAtVisual line visual = candidate.sourceOffset := by
  obtain ⟨stop, trimmed, tiles⟩ := tiled
  obtain ⟨holder, present, holds⟩ :=
    SegmentsTile.exists_segment tiles (Nat.zero_le visual) (Nat.lt_of_lt_of_le inside trimmed)
  have offers : ∃ candidate, holder.sourceCandidate visual .after = some candidate := by
    rw [MappingSegment.sourceCandidate, if_neg (by omega)]
    exact ⟨_, rfl⟩
  obtain ⟨offered, same⟩ := offers
  have filled : (line.sourceMap.segments.filterMap (·.sourceCandidate visual .after)).mergeSort
      (fun first last => first.sourceOffset ≤ last.sourceOffset) ≠ [] := by
    apply List.ne_nil_of_mem
    exact List.mem_mergeSort.mpr (List.mem_filterMap.mpr ⟨holder, present, same⟩)
  obtain ⟨candidate, picked⟩ :=
    preferred_exists (·.visibility.showsSource) .after filled
  obtain ⟨segment, member, offered⟩ := List.mem_filterMap.mp
    (List.mem_mergeSort.mp (mem_of_preferred picked))
  refine ⟨segment, member, candidate, offered, ?_⟩
  rw [sourceAtVisual, SourceMap.visualToSource_eq, picked]

/-- Places to cut at stand for offsets of the line's source, in order. -/
theorem Line.Tiled.sourceAtVisual {line : Line Length Rest} (tiled : line.Tiled)
    {visual : Nat} (inside : visual < line.visualLen)
    : line.sourceRange.start ≤ sourceAtVisual line visual
      ∧ sourceAtVisual line visual ≤ line.sourceRange.stop
      ∧ ∀ other, visual < other → other < line.visualLen
          → sourceAtVisual line visual ≤ sourceAtVisual line other := by
  obtain ⟨stop, trimmed, tiles⟩ := id tiled
  obtain ⟨-, -, bounds, apart⟩ := SegmentsTile.bounds tiles
  obtain ⟨segment, member, candidate, offered, same⟩ := tiled.exists_candidate inside
  obtain ⟨lower, ordered, upper, -⟩ := bounds segment member
  obtain ⟨starts, -, from', to', grows⟩ := sourceCandidate_bounds ordered offered
  refine ⟨by omega, by omega, fun other after inside' => ?_⟩
  obtain ⟨next, member', later, offered', same'⟩ := tiled.exists_candidate inside'
  obtain ⟨-, ordered', -, -⟩ := bounds next member'
  obtain ⟨-, stops', from'', -, -⟩ := sourceCandidate_bounds ordered' offered'
  rw [same, same']
  by_cases one : segment = next
  · subst next
    exact grows (Nat.le_of_lt after) offered'
  · rcases comparable_of_pairwise apart member member' with rfl | before | behind
    · exact absurd rfl one
    · omega
    · omega

-- The rows of a line

/-- The source of a row as a pair of offsets. -/
def LayoutLine.sourcePair (row : LayoutLine Length) : Nat × Nat :=
  (row.sourceRange.start, row.sourceRange.stop)

/-- Where the source of the row of a fragment starts. -/
def rowSourceStart (line : Line Length Rest) (fragment first : Nat) : Nat :=
  if fragment = 0 then line.sourceRange.start else sourceAtVisual line first

/-- The rows of a line from a fragment on: they partition what is left of its visual text, at
places between characters, and of its source, and the last one alone ends the line.
-/
structure RowsPartition (line : Line Length Rest) (index blockStart fragment first : Nat)
    (rows : List (LayoutLine Length)) : Prop where
  visual : Follows first (rows.map LayoutLine.lineVisualRange) line.visualLen
  source
    : Follows (rowSourceStart line fragment first) (rows.map LayoutLine.sourcePair)
        line.sourceRange.stop
  boundary
    : ∀ row ∈ rows, Boundary line.visualText row.lineVisualRange.1
        ∧ Boundary line.visualText row.lineVisualRange.2
  filled : first < line.visualLen → ∀ row ∈ rows, row.lineVisualRange.1 < row.lineVisualRange.2
  single : first = line.visualLen → rows.length = 1
  wraps
    : ∃ soft last, rows = soft ++ [last] ∧ last.wrap = .hard ∧ ∀ row ∈ soft, row.wrap = .soft
  placed
    : ∀ row ∈ rows, row.line = index ∧ row.lineId = line.lineId
        ∧ row.visualRange
            = (blockStart + row.lineVisualRange.1, blockStart + row.lineVisualRange.2)

theorem rowsPartition_last {line : Line Length Rest} (tiled : line.Tiled)
    (geometry : LineGeometry Length) (index blockStart : Nat) {fragment first : Nat} (y : Length)
    (starts : Boundary line.visualText first) (cut : 0 < fragment → first < line.visualLen)
    : RowsPartition line index blockStart fragment first
        [fragmentRow line geometry index blockStart fragment y (first, line.visualLen)] := by
  have ordered : rowSourceStart line fragment first ≤ line.sourceRange.stop := by
    rw [rowSourceStart]
    split
    next =>
      obtain ⟨stop, -, tiles⟩ := tiled
      exact (SegmentsTile.bounds tiles).1
    next later => exact (tiled.sourceAtVisual (cut (by omega))).2.1
  have sourceEnd : max line.sourceRange.stop (rowSourceStart line fragment first)
      = line.sourceRange.stop := Nat.max_eq_left ordered
  constructor
  · exact ⟨rfl, starts.le, rfl⟩
  · refine ⟨rfl, ?_, ?_⟩
    · simp only [LayoutLine.sourcePair, fragmentRow, if_true]
      exact Nat.le_max_right _ _
    · simp only [LayoutLine.sourcePair, fragmentRow, if_true]
      exact sourceEnd
  · intro row member
    rw [List.mem_singleton.mp member]
    exact ⟨starts, Boundary.utf8Len line.visualText⟩
  · intro before row member
    rw [List.mem_singleton.mp member]
    exact before
  · exact fun _ => rfl
  · exact ⟨[], _, rfl, if_pos rfl, fun _ member => absurd member List.not_mem_nil⟩
  · intro row member
    rw [List.mem_singleton.mp member]
    exact ⟨rfl, rfl, rfl⟩

theorem RowsPartition.cons {line : Line Length Rest} (tiled : line.Tiled)
    {geometry : LineGeometry Length} {index blockStart fragment first next : Nat} {y : Length}
    {rows : List (LayoutLine Length)} (starts : Boundary line.visualText first)
    (cut : 0 < fragment → first < line.visualLen) (after : first < next) (place : CutPlace line next)
    (later : RowsPartition line index blockStart (fragment + 1) next rows)
    : RowsPartition line index blockStart fragment first
        (fragmentRow line geometry index blockStart fragment y (first, next) :: rows) := by
  obtain ⟨positive, inside, boundary⟩ := place
  have notLast : ¬next = line.visualLen := by omega
  have ordered : rowSourceStart line fragment first ≤ sourceAtVisual line next := by
    rw [rowSourceStart]
    split
    next => exact (tiled.sourceAtVisual inside).1
    next later => exact (tiled.sourceAtVisual (cut (by omega))).2.2 next after inside
  have sourceEnd : max (sourceAtVisual line next) (rowSourceStart line fragment first)
      = rowSourceStart line (fragment + 1) next := by
    rw [Nat.max_eq_left ordered, rowSourceStart, if_neg (by omega)]
  constructor
  · exact ⟨rfl, after.le, later.visual⟩
  · refine ⟨rfl, ?_, ?_⟩
    · simp only [LayoutLine.sourcePair, fragmentRow]
      exact Nat.le_max_right _ _
    · simp only [LayoutLine.sourcePair, fragmentRow, if_neg notLast]
      have source := later.source
      rw [← sourceEnd] at source
      exact source
  · exact List.forall_mem_cons.mpr ⟨⟨starts, boundary⟩, later.boundary⟩
  · exact fun _ => List.forall_mem_cons.mpr ⟨after, later.filled inside⟩
  · intro whole
    omega
  · obtain ⟨soft, last, same, hard, others⟩ := later.wraps
    refine ⟨_ :: soft, last, by rw [same, List.cons_append], hard, ?_⟩
    exact List.forall_mem_cons.mpr ⟨if_neg notLast, others⟩
  · exact List.forall_mem_cons.mpr ⟨⟨rfl, rfl, rfl⟩, later.placed⟩

/-- The rows between cuts, by induction over the cuts. -/
theorem rowsPartition_fragmentRows {line : Line Length Rest} (tiled : line.Tiled)
    (geometry : LineGeometry Length) (index blockStart : Nat) {fragment first : Nat} (y : Length)
    {cuts : List Nat} (starts : Boundary line.visualText first)
    (cut : 0 < fragment → first < line.visualLen) (increases : (first :: cuts).Pairwise (· < ·))
    (places : ∀ offset ∈ cuts, CutPlace line offset)
    : RowsPartition line index blockStart fragment first
        (fragmentRows lengths line geometry index blockStart fragment y
          (neighbours (first :: cuts ++ [line.visualLen]))) := by
  induction cuts generalizing fragment first y with
  | nil => exact rowsPartition_last tiled geometry index blockStart y starts cut
  | cons next rest ih =>
      obtain ⟨lower, others⟩ := List.pairwise_cons.mp increases
      obtain ⟨place, later⟩ := List.forall_mem_cons.mp places
      have rows : RowsPartition line index blockStart (fragment + 1) next _ :=
        ih (lengths.add y line.height) place.2.2 (fun _ => place.2.1) others later
      exact .cons tiled starts cut (lower next List.mem_cons_self) place rows

theorem rowsPartition_lineRows {line : Line Length Rest}
    {lineGeometry : Line Length Rest → LineGeometry Length} (tiled : line.Tiled)
    (atBoundary : BodyAtBoundary line (lineGeometry line)) (block : Block Length Rest)
    (width : Length) (index : Nat) (y : Length)
    : RowsPartition line index (lineVisualStart block index) 0 0
        (lineRows lengths shaper lineGeometry block width index line y) := by
  have cutsLine : CutsLine line
      (if lengths.le width lengths.zero then [0, line.visualLen]
      else fragmentBoundaries lengths shaper line (lineGeometry line) width) := by
    split
    next => exact cutsLine_whole line
    next => exact cutsLine_fragmentBoundaries atBoundary width
  obtain ⟨cuts, same, increases, places⟩ := cutsLine.exists_cuts
  rw [lineRows, same]
  refine rowsPartition_fragmentRows tiled (lineGeometry line) index _ y (Boundary.zero _) ?_ ?_
    places
  · intro none
    omega
  · exact .cons (fun offset member => (places offset member).1) increases

-- The rows of a block

/-- The rows of a line: there is one, they partition the visual text and the source in order, cut
between characters, none is empty but the one of an empty line, and the last alone ends hard.
-/
structure LinePartition (line : Line Length Rest) (index blockStart : Nat)
    (rows : List (LayoutLine Length)) : Prop where
  someRow : rows ≠ []
  visual : Follows 0 (rows.map LayoutLine.lineVisualRange) line.visualLen
  boundary
    : ∀ row ∈ rows, Boundary line.visualText row.lineVisualRange.1
        ∧ Boundary line.visualText row.lineVisualRange.2
  filled
    : (∀ row ∈ rows, row.lineVisualRange.1 < row.lineVisualRange.2)
      ∨ (line.visualText = [] ∧ rows.length = 1)
  source
    : Follows line.sourceRange.start (rows.map LayoutLine.sourcePair) line.sourceRange.stop
  wraps
    : ∃ soft last, rows = soft ++ [last] ∧ last.wrap = .hard ∧ ∀ row ∈ soft, row.wrap = .soft
  placed
    : ∀ row ∈ rows, row.line = index ∧ row.lineId = line.lineId
        ∧ row.visualRange
            = (blockStart + row.lineVisualRange.1, blockStart + row.lineVisualRange.2)

/-- The source of a line as a pair of offsets. -/
def Line.sourcePair (line : Line Length Rest) : Nat × Nat :=
  (line.sourceRange.start, line.sourceRange.stop)

theorem RowsPartition.linePartition {line : Line Length Rest} {index blockStart : Nat}
    {rows : List (LayoutLine Length)} (partition : RowsPartition line index blockStart 0 0 rows)
    : LinePartition line index blockStart rows where
  someRow := by
    obtain ⟨soft, last, same, -⟩ := partition.wraps
    simp [same]
  visual := partition.visual
  boundary := partition.boundary
  filled := by
    by_cases empty : line.visualText = []
    · have zero : 0 = line.visualLen := by rw [Line.visualLen, empty, utf8Len_nil]
      exact .inr ⟨empty, partition.single zero⟩
    · have positive : line.visualLen ≠ 0 := fun zero =>
        empty ((utf8Len_eq_zero_iff line.visualText).mp zero)
      exact .inl (partition.filled (by omega))
  source := partition.source
  wraps := partition.wraps
  placed := partition.placed

/-- Lines whose segments tile them and whose bodies start between characters. -/
structure Measurable (lineGeometry : Line Length Rest → LineGeometry Length)
    (lines : List (Line Length Rest)) : Prop where
  tiled : ∀ line ∈ lines, line.Tiled
  atBoundary : ∀ line ∈ lines, BodyAtBoundary line (lineGeometry line)

/-- Every line from one on has its rows, by induction over the lines. -/
theorem rowsFrom_partition {lineGeometry : Line Length Rest → LineGeometry Length}
    {lines : List (Line Length Rest)} (measurable : Measurable lineGeometry lines)
    (block : Block Length Rest) (width : Length) (index : Nat) (y : Length)
    : List.Forall₂
        (fun (line, index) rows => LinePartition line index (lineVisualStart block index) rows)
        (lines.zipIdx index)
        (rowsFrom lengths shaper lineGeometry block width index y lines) := by
  induction lines generalizing index y with
  | nil => exact .nil
  | cons line rest ih =>
      obtain ⟨tiled, others⟩ := List.forall_mem_cons.mp measurable.tiled
      obtain ⟨starts, later⟩ := List.forall_mem_cons.mp measurable.atBoundary
      refine .cons ?_ (ih ⟨others, later⟩ (index + 1) _)
      exact (rowsPartition_lineRows tiled starts block width index y).linePartition

/-- The rows of adjacent lines follow each other in the source, by induction over the lines. -/
theorem follows_rows {lines : List (Line Length Rest × Nat)}
    {perLine : List (List (LayoutLine Length))} {blockStart : Nat → Nat} {start stop : Nat}
    (rows
      : List.Forall₂ (fun (line, index) rows => LinePartition line index (blockStart index) rows)
          lines perLine)
    (adjacent : Follows start (lines.map fun item => item.1.sourcePair) stop)
    : Follows start (perLine.flatten.map LayoutLine.sourcePair) stop := by
  induction rows generalizing start with
  | nil => exact adjacent
  | cons first _ ih =>
      obtain ⟨starts, -, later⟩ := adjacent
      rw [List.flatten_cons, List.map_append]
      have source := first.source
      simp only [Line.sourcePair] at starts later
      rw [starts] at source
      exact source.append (ih later)

/-- The last row of the last line ends hard, by induction over the lines. -/
theorem last_row_hard {lines : List (Line Length Rest × Nat)}
    {perLine : List (List (LayoutLine Length))} {blockStart : Nat → Nat}
    (rows
      : List.Forall₂ (fun (line, index) rows => LinePartition line index (blockStart index) rows)
          lines perLine)
    (filled : lines ≠ [])
    : ∃ others last, perLine.flatten = others ++ [last] ∧ last.wrap = .hard := by
  induction rows with
  | nil => exact absurd rfl filled
  | @cons line found lines perLine first rest ih =>
      cases rest with
      | nil =>
          obtain ⟨soft, last, same, hard, -⟩ := first.wraps
          exact ⟨soft, last, by simp [same], hard⟩
      | cons next more =>
          obtain ⟨others, last, same, hard⟩ := ih (List.cons_ne_nil _ _)
          exact ⟨found ++ others, last, by rw [List.flatten_cons, same, List.append_assoc], hard⟩

/-- A row whose source holds an offset is found. -/
theorem rowForSource_exists {layout : BlockLayout Length} {start stop offset : Nat}
    {others : List (LayoutLine Length)} {last : LayoutLine Length}
    (follows : Follows start (layout.lines.map LayoutLine.sourcePair) stop)
    (ends : layout.lines = others ++ [last]) (hard : last.wrap = .hard) (lower : start ≤ offset)
    (upper : offset ≤ stop)
    : ∃ row, layout.rowForSource offset = some row := by
  rw [BlockLayout.rowForSource]
  cases found : layout.lines.findIdx? (·.ownsSource offset false) with
  | some row => exact ⟨row, rfl⟩
  | none =>
      have unowned := List.findIdx?_eq_none_iff.mp found
      have atEnd : offset = stop := by
        by_contra before
        obtain ⟨range, member, inside, short⟩ := follows.exists_range lower (by omega)
        obtain ⟨row, present, rfl⟩ := List.mem_map.mp member
        have owned := unowned row present
        simp only [LayoutLine.sourcePair] at inside short
        rw [LayoutLine.ownsSource, if_neg (by omega), if_pos short] at owned
        cases owned
      rw [ends, List.map_append] at follows
      obtain ⟨ordered, same⟩ := follows.last
      simp only [LayoutLine.sourcePair] at ordered same
      have owns : last.ownsSource offset true = true := by
        rw [LayoutLine.ownsSource, if_neg (by omega), if_neg (by omega)]
        simp [hard, atEnd, same]
      have found : layout.lines[layout.lines.length - 1]? = some last := by simp [ends]
      exact ⟨layout.lines.length - 1, by simp [found, owns]⟩

/-- Whatever the shaper answers and whatever the width is, the rows of a block without table rows
are those of its lines in order, and with adjacent lines every source offset has a row.
-/
theorem layoutBlock_partitions (lengths : Lengths Length) (shaper : LineShaper Length Rest)
    (lineGeometry : Line Length Rest → LineGeometry Length)
    (layoutTableBlock : Block Length Rest → Length → BlockLayout Length)
    (block : Block Length Rest) (width : Length)
    (noTable : block.isTableRow = false ∧ ∀ line ∈ block.lines, line.tableRow = false)
    (measurable : Measurable lineGeometry block.lines)
    : ∃ perLine,
        (layoutBlock lengths shaper lineGeometry layoutTableBlock block width).lines
            = perLine.flatten
        ∧ List.Forall₂
            (fun (line, index) rows => LinePartition line index (lineVisualStart block index) rows)
            block.lines.zipIdx perLine
        ∧ ∀ start stop,
            Follows start (block.lines.map Line.sourcePair) stop
            → block.lines ≠ []
            → ∀ offset, start ≤ offset → offset ≤ stop
            → ∃ row,
                (layoutBlock lengths shaper lineGeometry layoutTableBlock block width).rowForSource
                  offset = some row := by
  have plain : ¬(block.isTableRow = true ∨ block.lines.any (·.tableRow) = true) := by
    rintro (table | table)
    · rw [noTable.1] at table
      cases table
    · obtain ⟨line, member, is⟩ := List.any_eq_true.mp table
      rw [noTable.2 line member] at is
      cases is
  have rows : List.Forall₂ _ _
      (rowsFrom lengths shaper lineGeometry block width 0 lengths.zero block.lines) :=
    rowsFrom_partition measurable block width 0 lengths.zero
  refine ⟨_, by rw [layoutBlock, if_neg plain], rows, ?_⟩
  intro start stop adjacent filled offset lower upper
  have zipped : block.lines.map Line.sourcePair
      = block.lines.zipIdx.map fun item => item.1.sourcePair := by
    calc block.lines.map Line.sourcePair
        = (block.lines.zipIdx.map Prod.fst).map Line.sourcePair := by rw [List.zipIdx_map_fst]
      _ = block.lines.zipIdx.map fun item => item.1.sourcePair := List.map_map
  rw [zipped] at adjacent
  have follows := follows_rows rows adjacent
  obtain ⟨others, last, same, hard⟩ := last_row_hard rows (by simpa using filled)
  rw [layoutBlock, if_neg plain]
  exact rowForSource_exists follows same hard lower upper

def plainLengths : Lengths Nat where
  zero := 0
  add := (· + ·)
  sub := (· - ·)
  max := max
  le first second := first ≤ second
  lt first second := first < second
  minEffectiveWrapWidth := 1

/-- A shaper whose offsets are unordered, repeated and out of range. -/
def looseShaper : LineShaper Nat Unit where
  wrapBoundaries _ _ _ _ := [9, 1, 0, 1]
  xForOffset _ _ _ offset := offset

def plainGeometry (_ : Line Nat Unit) : LineGeometry Nat where
  textXOrigin := 0
  markerXOrigin := none
  bodyXOrigin := 0
  firstRowWidth := 1
  effectiveWidth := 1
  bodyVisualStart := none
  markerVisualRange := none
  markerBodyGap := 0
  bodyGap := 0
  quoteBarXOrigin := none

/-- A line whose marker, up to `body`, is hidden; its line break is not part of the text. -/
def markedLine (lineId start body stop : Nat) (visualText : Text) : Line Nat Unit where
  lineId
  sourceRange := ⟨start, stop⟩
  visualText
  sourceMap :=
    ⟨[⟨⟨start, body⟩, ⟨0, 0⟩, .hiddenMarkup, some .opening⟩,
      ⟨⟨body, stop⟩, ⟨0, stop - body⟩, .visible, none⟩]⟩
  isTableDelimiter := false
  image := false
  tableRow := false
  height := 1
  rest := ()

/-- The quote of the lines `> ab` and `> cd`. -/
def quoteBlock : Block Nat Unit where
  id := 0
  isTableRow := false
  revision := 0
  lines := [markedLine 0 0 2 5 ['a', 'b'], markedLine 1 5 7 9 ['c', 'd']]
  leadingSpace := 0
  trailingSpace := 0

def quoteLayout : BlockLayout Nat :=
  layoutBlock plainLengths looseShaper plainGeometry (fun _ _ => ⟨0, 0, 0, [], 0, 0⟩) quoteBlock 1

/-- Witness: the first line's segments end behind its text, where its line break was. -/
theorem layoutBlock_partitions_quote
    : (∃ perLine, quoteLayout.lines = perLine.flatten
        ∧ List.Forall₂
            (fun (line, index) rows =>
              LinePartition line index (lineVisualStart quoteBlock index) rows)
            quoteBlock.lines.zipIdx perLine)
      ∧ ∀ offset, offset ≤ 9 → ∃ row, quoteLayout.rowForSource offset = some row := by
  have measurable : Measurable plainGeometry quoteBlock.lines := by
    refine ⟨fun line member => ?_, fun line member body starts => by cases starts⟩
    rcases List.mem_pair.mp member with rfl | rfl
    · exact ⟨3, by decide, by simp only [markedLine, SegmentsTile]; decide⟩
    · exact ⟨2, by decide, by simp only [markedLine, SegmentsTile]; decide⟩
  obtain ⟨perLine, same, rows, found⟩ :=
    layoutBlock_partitions plainLengths looseShaper plainGeometry
      (fun _ _ => ⟨0, 0, 0, [], 0, 0⟩) quoteBlock 1 (by decide) measurable
  refine ⟨⟨perLine, same, rows⟩, fun offset inside => ?_⟩
  exact found 0 9 ⟨rfl, by decide, rfl, by decide, rfl⟩ (by decide) offset (Nat.zero_le offset)
    inside

end Hane.Presentation.Layout
