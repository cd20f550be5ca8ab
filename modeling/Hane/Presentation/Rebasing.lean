import Hane.Document.Coverage
import Hane.Foundations.Traversals
import Hane.Markdown.TilingRuns
import Hane.Presentation.Display

/-! Rebasing follows every range a block holds through the edits, and which text each of them
covers afterwards.
-/

namespace Hane.Presentation

open Hane.Document Hane.Document.RopeBuffer Hane.Foundations Hane.Markdown

-- Range by range

section
variable {Held : Type} {ranges : Held → List SourceRange}
  {move : SourceRange → Option SourceRange} {step : Held → Option Held}

/-- A step moves the ranges of what it is given one by one, and fails exactly when one of them
cannot be moved.
-/
def Follows (move : SourceRange → Option SourceRange) (ranges : Held → List SourceRange)
    (step : Held → Option Held) : Prop :=
  ∀ held, (step held).map ranges = (ranges held).mapM move

/-- A traversal moves the ranges of all elements, by induction on them. -/
theorem Follows.mapM (follows : Follows move ranges step)
    : Follows move (·.flatMap ranges) (List.mapM step) := by
  intro items
  induction items with
  | nil => rfl
  | cons item items ih =>
      dsimp only at ih ⊢
      rw [List.flatMap_cons, List.mapM_append, ← follows, ← ih, List.mapM_cons]
      cases step item with
      | none => rfl
      | some moved =>
          cases items.mapM step with
          | none => rfl
          | some later => simp

theorem Follows.option (follows : Follows move ranges step)
    : Follows move (fun held => held.toList.flatMap ranges) (Option.mapM step) := by
  intro held
  cases held with
  | none => rfl
  | some held =>
      have single := follows held
      cases found : step held with
      | none =>
          rw [found] at single
          simp [found, ← single]
      | some moved =>
          rw [found] at single
          simp [found, ← single]

theorem Follows.single {range : Held → SourceRange} {replace : Held → SourceRange → Held}
    (replaced : ∀ held moved, range (replace held moved) = moved)
    : Follows move (fun held => [range held])
        (fun held => (move (range held)).bind fun moved => some (replace held moved)) := by
  intro held
  dsimp only
  rw [List.mapM_cons]
  cases found : move (range held) with
  | none => rfl
  | some moved => simp [replaced]

/-- Following each edit in turn follows all of them, by induction on the edits. -/
theorem Follows.edits {follow : Held → RevisionDelta → Option Held}
    (follows :
      ∀ delta : RevisionDelta, Follows (delta.transformRange ·) ranges (follow · delta))
    (deltas : List RevisionDelta)
    : Follows (rebaseRange · deltas) ranges (fun held => deltas.foldlM follow held) := by
  induction deltas with
  | nil =>
      exact fun held =>
        foldlM_mapM (fun range (delta : RevisionDelta) => delta.transformRange range) [] _
  | cons delta deltas ih =>
      intro held
      have both := mapM_bind_mapM (delta.transformRange ·) (rebaseRange · deltas) (ranges held)
      rw [← follows delta held, Option.bind_map] at both
      refine Eq.trans ?_ both
      dsimp only
      rw [List.foldlM_cons]
      cases follow held delta with
      | none => rfl
      | some moved => exact ih moved

end

/-- What is built from parts in turn carries the ranges `held` moved one by one, behind those
moved before.
-/
def Carries {Built : Type} (move : SourceRange → Option SourceRange)
    (ranges : Built → List SourceRange) (moved held : List SourceRange) (built : Option Built)
    : Prop :=
  built.map ranges = (held.mapM move).map (moved ++ ·)

theorem Carries.bind {Part Built : Type} {move : SourceRange → Option SourceRange}
    {parts : Part → List SourceRange} {ranges : Built → List SourceRange}
    {moved first later : List SourceRange} {part : Option Part} {next : Part → Option Built}
    (here : part.map parts = first.mapM move)
    (after :
      ∀ done, part = some done → Carries move ranges (moved ++ parts done) later (next done))
    : Carries move ranges moved (first ++ later) (part.bind next) := by
  unfold Carries at after ⊢
  rw [List.mapM_append, ← here]
  cases part with
  | none => rfl
  | some part =>
      rw [Option.bind_some, after part rfl]
      cases later.mapM move <;> simp

theorem Carries.last {Part Built : Type} {move : SourceRange → Option SourceRange}
    {parts : Part → List SourceRange} {ranges : Built → List SourceRange}
    {moved held : List SourceRange} {part : Option Part} {build : Part → Built}
    (here : part.map parts = held.mapM move)
    (built : ∀ part, ranges (build part) = moved ++ parts part)
    : Carries move ranges moved held (part.bind fun part => some (build part)) := by
  unfold Carries
  rw [← here]
  cases part <;> simp [built]

theorem Carries.follows {Built : Type} {move : SourceRange → Option SourceRange}
    {ranges : Built → List SourceRange} {held : List SourceRange} {built : Option Built}
    (carries : Carries move ranges [] held built) : built.map ranges = held.mapM move := by
  simpa [Carries] using carries

theorem map_singleton_mapM {move : SourceRange → Option SourceRange} (range : SourceRange)
    : (move range).map (fun range => [range]) = [range].mapM move := by
  rw [List.mapM_cons]
  cases move range <;> rfl

/-- An item's marker, with its task. -/
theorem ListMarkerMetadata.follow_follows (delta : RevisionDelta)
    : Follows (delta.transformRange ·) ListMarkerMetadata.ranges
        (ListMarkerMetadata.follow · delta) := by
  intro marker
  have task : Follows (delta.transformRange ·)
      (fun task : ListTaskMetadata => [task.markerRange])
      (fun task => do
        return { task with markerRange := ← delta.transformRange task.markerRange }) :=
    .single fun _ _ => rfl
  apply Carries.follows
  apply Carries.bind (map_singleton_mapM _)
  intro range _
  exact Carries.last (task.option marker.task) fun _ => rfl

theorem ListRowMetadata.rebase_follows (deltas : List RevisionDelta)
    : Follows (rebaseRange · deltas) ListRowMetadata.ranges (ListRowMetadata.rebase · deltas) := by
  intro row
  have marker := Follows.edits ListMarkerMetadata.follow_follows deltas
  have held : Follows (rebaseRange · deltas)
      (fun held : ListStructuralPrefixMetadata => [held.sourceRange])
      (fun held => do
        return { held with sourceRange := ← rebaseRange held.sourceRange deltas }) :=
    .single fun _ _ => rfl
  apply Carries.follows
  apply Carries.bind (marker.option row.marker)
  intro marker _
  exact Carries.last (held.mapM row.structuralPrefixes) fun _ => rfl

namespace VisualLine

/-- A line's text, mapping and disclosure. -/
theorem follow_follows (delta : RevisionDelta)
    : Follows (delta.transformRange ·) mappingRanges (follow · delta) := by
  intro line
  have segment : Follows (delta.transformRange ·)
      (fun segment : MappingSegment => [segment.sourceRange])
      (fun segment => do
        return { segment with sourceRange := ← delta.transformRange segment.sourceRange }) :=
    .single fun _ _ => rfl
  have disclosure : Follows (delta.transformRange ·) (fun disclosure => [disclosure])
      (fun disclosure => delta.transformRange disclosure) :=
    map_singleton_mapM
  apply Carries.follows
  apply Carries.bind (map_singleton_mapM _)
  intro range _
  apply Carries.bind (segment.mapM line.sourceMap.segments)
  intro segments _
  exact Carries.last (disclosure.option line.disclosure) fun _ => by
    simp [mappingRanges]

/-- Following edits leaves the rest of a line, by induction on the edits. -/
theorem follow_keeps {line followed : VisualLine} {deltas : List RevisionDelta}
    (follows : deltas.foldlM follow line = some followed)
    : followed.links = line.links
      ∧ followed.list = line.list
      ∧ followed.tableRow = line.tableRow := by
  induction deltas generalizing line with
  | nil =>
      obtain rfl := Option.some.inj follows
      exact ⟨rfl, rfl, rfl⟩
  | cons delta deltas ih =>
      obtain ⟨next, first, rest⟩ := Option.bind_eq_some_iff.mp follows
      obtain ⟨range, _, first⟩ := Option.bind_eq_some_iff.mp first
      obtain ⟨segments, _, first⟩ := Option.bind_eq_some_iff.mp first
      obtain ⟨disclosure, _, first⟩ := Option.bind_eq_some_iff.mp first
      obtain rfl := Option.some.inj first
      obtain ⟨links, list, tableRow⟩ := ih rest
      exact ⟨links, list, tableRow⟩

/-- A line. -/
theorem rebase_follows (deltas : List RevisionDelta) (current : Nat)
    : Follows (rebaseRange · deltas) ranges (rebase · deltas current) := by
  intro line
  have link : Follows (rebaseRange · deltas) (fun link : LinkTarget => [link.sourceRange])
      (fun link => do
        return { link with sourceRange := ← rebaseRange link.sourceRange deltas }) :=
    .single fun _ _ => rfl
  have cell : Follows (rebaseRange · deltas) (fun cell : TableCellDisplay => [cell.sourceRange])
      (fun cell => do
        return { cell with sourceRange := ← rebaseRange cell.sourceRange deltas }) :=
    .single fun _ _ => rfl
  have table : Follows (rebaseRange · deltas)
      (fun table : TableRowDisplay => table.cells.flatMap fun cell => [cell.sourceRange])
      (fun table => do
        let cells ← table.cells.mapM fun cell => do
          return { cell with sourceRange := ← rebaseRange cell.sourceRange deltas }
        return { table with cells }) := by
    intro table
    exact Carries.follows (Carries.last (cell.mapM table.cells) fun _ => rfl)
  apply Carries.follows
  apply Carries.bind (Follows.edits follow_follows deltas line)
  intro followed follows
  obtain ⟨links, list, tableRow⟩ := follow_keeps follows
  rw [← links, ← list, ← tableRow]
  apply Carries.bind (link.mapM followed.links)
  intro links _
  apply Carries.bind ((ListRowMetadata.rebase_follows deltas).option followed.list)
  intro list _
  exact Carries.last (table.option followed.tableRow) fun _ => by
    simp [ranges, mappingRanges]

end VisualLine

theorem VisualBlock.rebase_follows {Table : Type} {block : VisualBlock Table}
    {deltas : List RevisionDelta} (plain : block.tableProjection = none ∨ deltas = [])
    (current : Nat)
    : (block.rebase deltas current).map ranges = block.ranges.mapM (rebaseRange · deltas) := by
  have kept : ¬ (block.tableProjection.isSome ∧ deltas ≠ []) := by
    rcases plain with none | none <;> simp [none]
  unfold rebase
  rw [if_neg kept]
  apply Carries.follows
  apply Carries.bind (map_singleton_mapM _)
  intro range _
  exact Carries.last ((VisualLine.rebase_follows deltas current).mapM block.lines) fun _ => rfl

-- The text covered

/-- One of the edits, made in turn, overlaps the range as the edits before have moved it. -/
def Touches : List RevisionDelta → SourceRange → Prop
  | [], _ => False
  | delta :: later, range =>
      range.intersects delta.editedSourceRangeBefore = true
      ∨ ∃ moved, delta.transformRange range = some moved ∧ Touches later moved

/-- One of the edits, made in turn, puts text directly against the range as the edits before
have moved it.
-/
def Absorbs : List RevisionDelta → SourceRange → Prop
  | [], _ => False
  | delta :: later, range =>
      delta.absorbs range = true
      ∨ ∃ moved, delta.transformRange range = some moved ∧ Absorbs later moved

/-- What the edits, made in turn on the way from one text to another, put directly in front of a
range and directly behind it.
-/
def TakesIn : Text → List RevisionDelta → Text → SourceRange → Text → Text → Prop
  | text, [], final, _, front, back => text = final ∧ front = [] ∧ back = []
  | text, delta :: later, final, range, front, back =>
      ∃ before deleted after replacement moved front' back',
        text = before ++ (deleted ++ after)
        ∧ delta
          = editDelta delta.fromRevision
              ⟨utf8Len before, utf8Len before + utf8Len deleted⟩ replacement
        ∧ delta.transformRange range = some moved
        ∧ TakesIn (before ++ (replacement ++ after)) later final moved front' back'
        ∧ front = front' ++ delta.putInFront replacement range
        ∧ back = delta.putBehind replacement range ++ back'

/-- A range follows the first edit, then the later ones. -/
theorem rebaseRange_cons {range moved : SourceRange} {delta : RevisionDelta}
    {deltas : List RevisionDelta}
    : rebaseRange range (delta :: deltas) = some moved
      ↔ ∃ next, delta.transformRange range = some next ∧ rebaseRange next deltas = some moved :=
  Option.bind_eq_some_iff

/-- What lies in a range that follows all edits and absorbs nothing is moved by the same
distance, by induction on the edits.
-/
theorem rebaseRange_within {text final : Text} {range moved inner : SourceRange}
    {deltas : List RevisionDelta} (rewrites : Rewrites text deltas final)
    (rebased : rebaseRange range deltas = some moved) (apart : ¬ Absorbs deltas range)
    (start : range.start ≤ inner.start) (ordered : inner.start ≤ inner.stop)
    (stop : inner.stop ≤ range.stop)
    : ∃ innerMoved,
        rebaseRange inner deltas = some innerMoved ∧ Shifts range moved inner innerMoved := by
  induction deltas generalizing text range inner with
  | nil =>
      obtain rfl := Option.some.inj rebased
      exact ⟨inner, rfl, rfl, rfl⟩
  | cons delta deltas ih =>
      obtain ⟨before, deleted, after, replacement, rfl, same, rest⟩ := rewrites
      obtain ⟨next, first, later⟩ := rebaseRange_cons.mp rebased
      simp only [Absorbs, first, Option.some.injEq, exists_eq_left', not_or,
        Bool.not_eq_true] at apart
      obtain ⟨here, there⟩ := apart
      rw [same] at first here
      have editOrdered : utf8Len before ≤ utf8Len before + utf8Len deleted := Nat.le_add_right ..
      obtain ⟨whole, moves, _, wholeStop⟩ :=
        transformRange_within editOrdered first here (Nat.le_refl _) (by omega) (Nat.le_refl _)
      obtain rfl := Option.some.inj (first.symm.trans moves)
      obtain ⟨innerNext, moves, shiftStart, shiftStop⟩ :=
        transformRange_within editOrdered first here start ordered stop
      obtain ⟨innerMoved, rebased, shift⟩ : ∃ innerMoved,
          rebaseRange innerNext deltas = some innerMoved
          ∧ Shifts next moved innerNext innerMoved :=
        ih rest later there (by omega) (by omega) (by omega)
      rw [← same] at moves
      refine ⟨innerMoved, rebaseRange_cons.mpr ⟨innerNext, moves, rebased⟩, ?_⟩
      unfold Shifts at shift ⊢
      omega

-- Tilings

/-- Ranges that follow each other lie in order between the ends, by induction on them. -/
theorem tiles_inside {start stop : Nat} {ranges : List SourceRange}
    (tiles : Tiles start ranges stop)
    : start ≤ stop
      ∧ ∀ range ∈ ranges, start ≤ range.start ∧ range.start ≤ range.stop ∧ range.stop ≤ stop := by
  induction ranges generalizing start with
  | nil =>
      obtain rfl : start = stop := tiles
      exact ⟨Nat.le_refl _, fun _ member => absurd member List.not_mem_nil⟩
  | cons range ranges ih =>
      obtain ⟨rfl, ordered, rest⟩ := tiles
      obtain ⟨last, inside⟩ := ih rest
      refine ⟨by omega, ?_⟩
      intro found member
      rcases List.mem_cons.mp member with rfl | later
      · exact ⟨Nat.le_refl _, ordered, last⟩
      · obtain ⟨first, ordered', stop'⟩ := inside found later
        exact ⟨by omega, ordered', stop'⟩

/-- Ranges that follow each other still do after all of them were moved by one distance, by
induction on them.
-/
theorem tiles_shift {range moved : SourceRange} {start stop start' stop' : Nat}
    {ranges rangesMoved : List SourceRange} (tiles : Tiles start ranges stop)
    (shifts : List.Forall₂ (Shifts range moved) ranges rangesMoved)
    (first : start' + range.start = start + moved.start)
    (last : stop' + range.start = stop + moved.start)
    : Tiles start' rangesMoved stop' := by
  induction shifts generalizing start start' with
  | nil =>
      obtain rfl : start = stop := tiles
      exact (show start' = stop' by omega)
  | cons shift _ ih =>
      obtain ⟨rfl, ordered, rest⟩ := tiles
      obtain ⟨here, there⟩ := shift
      exact ⟨by omega, by omega, ih rest there⟩

/-- The ranges of a line's mapping lie in it, and those that hold any text follow each other
from its start to its end.
-/
structure VisualLine.Tiled (line : VisualLine) : Prop where
  inside :
    ∀ segment ∈ line.sourceMap.segments,
      line.sourceRange.start ≤ segment.sourceRange.start
      ∧ segment.sourceRange.start ≤ segment.sourceRange.stop
      ∧ segment.sourceRange.stop ≤ line.sourceRange.stop
  tiles :
    Tiles line.sourceRange.start
      ((line.sourceMap.segments.map (·.sourceRange)).filter (!·.isEmpty))
      line.sourceRange.stop

/-- The lines follow each other from the start of the block to its end, and each is tiled. -/
structure VisualBlock.Tiled {Table : Type} (block : VisualBlock Table) : Prop where
  tiles :
    Tiles block.sourceRange.start (block.lines.map (·.sourceRange)) block.sourceRange.stop
  lines : ∀ line ∈ block.lines, line.Tiled

/-- Following edits moves a line's own range and each range of its mapping, by induction on the
edits.
-/
theorem VisualLine.follow_mapping {line followed : VisualLine} {deltas : List RevisionDelta}
    (follows : deltas.foldlM follow line = some followed)
    : rebaseRange line.sourceRange deltas = some followed.sourceRange
      ∧ List.Forall₂
          (fun segment moved => rebaseRange segment.sourceRange deltas = some moved.sourceRange)
          line.sourceMap.segments followed.sourceMap.segments := by
  induction deltas generalizing line with
  | nil =>
      obtain rfl := Option.some.inj follows
      exact ⟨rfl, List.forall₂_same.mpr fun _ _ => rfl⟩
  | cons delta deltas ih =>
      obtain ⟨next, first, rest⟩ := Option.bind_eq_some_iff.mp follows
      obtain ⟨range, moved, first⟩ := Option.bind_eq_some_iff.mp first
      obtain ⟨segments, traversed, first⟩ := Option.bind_eq_some_iff.mp first
      obtain ⟨disclosure, _, first⟩ := Option.bind_eq_some_iff.mp first
      obtain rfl := Option.some.inj first
      obtain ⟨later, mapping⟩ := ih rest
      refine ⟨rebaseRange_cons.mpr ⟨range, moved, later⟩, ?_⟩
      refine (forall₂_comp ((mapM_eq_some_iff _).mp traversed) mapping).imp ?_
      rintro segment final ⟨middle, step, later⟩
      obtain ⟨next, transformed, same⟩ := Option.bind_eq_some_iff.mp step
      obtain rfl := Option.some.inj same
      exact rebaseRange_cons.mpr ⟨next, transformed, later⟩

theorem VisualLine.rebase_mapping {line moved : VisualLine} {deltas : List RevisionDelta}
    {current : Nat} (rebased : line.rebase deltas current = some moved)
    : rebaseRange line.sourceRange deltas = some moved.sourceRange
      ∧ List.Forall₂
          (fun segment moved => rebaseRange segment.sourceRange deltas = some moved.sourceRange)
          line.sourceMap.segments moved.sourceMap.segments := by
  obtain ⟨followed, follows, rest⟩ := Option.bind_eq_some_iff.mp rebased
  obtain ⟨links, _, rest⟩ := Option.bind_eq_some_iff.mp rest
  obtain ⟨list, _, rest⟩ := Option.bind_eq_some_iff.mp rest
  obtain ⟨tableRow, _, rest⟩ := Option.bind_eq_some_iff.mp rest
  obtain rfl := Option.some.inj rest
  obtain ⟨range, mapping⟩ := follow_mapping follows
  exact ⟨range, mapping⟩

section
variable {text final : Text} {range rangeMoved : SourceRange} {deltas : List RevisionDelta}
  {current : Nat}

theorem shifts_of_rebaseRange {inner innerMoved : SourceRange}
    (rewrites : Rewrites text deltas final)
    (container : rebaseRange range deltas = some rangeMoved) (apart : ¬ Absorbs deltas range)
    (start : range.start ≤ inner.start) (ordered : inner.start ≤ inner.stop)
    (stop : inner.stop ≤ range.stop) (rebased : rebaseRange inner deltas = some innerMoved)
    : Shifts range rangeMoved inner innerMoved := by
  obtain ⟨found, moves, shifts⟩ :=
    rebaseRange_within rewrites container apart start ordered stop
  obtain rfl := Option.some.inj (rebased.symm.trans moves)
  exact shifts

theorem VisualLine.Tiled.rebase {line moved : VisualLine} (tiled : line.Tiled)
    (rewrites : Rewrites text deltas final)
    (container : rebaseRange range deltas = some rangeMoved) (apart : ¬ Absorbs deltas range)
    (start : range.start ≤ line.sourceRange.start) (stop : line.sourceRange.stop ≤ range.stop)
    (rebased : line.rebase deltas current = some moved)
    : Shifts range rangeMoved line.sourceRange moved.sourceRange ∧ moved.Tiled := by
  obtain ⟨own, mapping⟩ := rebase_mapping rebased
  obtain ⟨ordered, _⟩ := tiles_inside tiled.tiles
  have shift := shifts_of_rebaseRange rewrites container apart start ordered stop own
  have segments : List.Forall₂
      (fun segment segmentMoved : MappingSegment =>
        Shifts range rangeMoved segment.sourceRange segmentMoved.sourceRange)
      line.sourceMap.segments moved.sourceMap.segments := by
    refine ((List.forall₂_and_left _ _).mpr ⟨tiled.inside, mapping⟩).imp ?_
    rintro segment segmentMoved ⟨⟨first, within, last⟩, follows⟩
    exact shifts_of_rebaseRange rewrites container apart (Nat.le_trans start first) within
      (Nat.le_trans last stop) follows
  refine ⟨shift, ?_, ?_⟩
  · intro segmentMoved member
    obtain ⟨segment, found, here, there⟩ := exists_of_forall₂ segments segmentMoved member
    obtain ⟨first, within, last⟩ := tiled.inside segment found
    obtain ⟨lineStart, lineStop⟩ := shift
    omega
  · refine tiles_shift tiled.tiles ?_ shift.1 shift.2
    refine List.rel_filter ?_ (by simpa using segments)
    rintro segment segmentMoved ⟨here, there⟩
    simp [SourceRange.isEmpty]
    omega

theorem VisualBlock.Tiled.rebase {Table : Type} {block moved : VisualBlock Table}
    (tiled : block.Tiled) (rewrites : Rewrites text deltas final)
    (apart : ¬ Absorbs deltas block.sourceRange)
    (rebased : block.rebase deltas current = some moved)
    : moved.Tiled := by
  unfold VisualBlock.rebase at rebased
  split at rebased
  · cases rebased
  obtain ⟨range, own, rest⟩ := Option.bind_eq_some_iff.mp rebased
  obtain ⟨lines, traversed, rest⟩ := Option.bind_eq_some_iff.mp rest
  obtain rfl := Option.some.inj rest
  obtain ⟨ordered, inside⟩ := tiles_inside tiled.tiles
  have shift := shifts_of_rebaseRange rewrites own apart (Nat.le_refl _) ordered
    (Nat.le_refl _) own
  have moves : List.Forall₂
      (fun line lineMoved : VisualLine =>
        Shifts block.sourceRange range line.sourceRange lineMoved.sourceRange
        ∧ lineMoved.Tiled)
      block.lines lines := by
    have each : ∀ line ∈ block.lines,
        block.sourceRange.start ≤ line.sourceRange.start
        ∧ line.sourceRange.stop ≤ block.sourceRange.stop
        ∧ line.Tiled := by
      intro line member
      obtain ⟨start, _, stop⟩ := inside _ (List.mem_map_of_mem member)
      exact ⟨start, stop, tiled.lines line member⟩
    refine ((List.forall₂_and_left _ _).mpr
      ⟨each, (mapM_eq_some_iff _).mp traversed⟩).imp ?_
    rintro line lineMoved ⟨⟨start, stop, lineTiled⟩, rebased⟩
    exact lineTiled.rebase rewrites own apart start stop rebased
  refine ⟨tiles_shift tiled.tiles ?_ shift.1 shift.2, ?_⟩
  · simpa using moves.imp fun _ _ moved => moved.1
  · intro lineMoved member
    obtain ⟨_, _, _, tiled⟩ := exists_of_forall₂ moves lineMoved member
    exact tiled

end

-- Rebased blocks

/-- A range was moved untouched to one that covers the same text between what the edits put
directly against it, alone exactly when they put nothing there.
-/
def Keeps (deltas : List RevisionDelta) (text final : Text) (range moved : SourceRange) : Prop :=
  ¬ Touches deltas range
  ∧ ∀ covered,
      Covers text range covered
        → ∃ front back,
          TakesIn text deltas final range front back
          ∧ Covers final moved (front ++ (covered ++ back))
          ∧ (Absorbs deltas range ↔ front ++ back ≠ [])

/-- A presented line that shows its source, with nothing disclosed, linked or listed. -/
private def plainLine (lineId start stop : Nat) : VisualLine where
  lineId
  sourceRange := ⟨start, stop⟩
  revision := 0
  links := []
  sourceMap := ⟨[⟨⟨start, stop⟩, ⟨0, stop - start⟩, .visible, none⟩]⟩
  disclosure := none
  list := none
  tableRow := none

private def codeBlock (start stop : Nat) : VisualBlock Unit where
  sourceRange := ⟨start, stop⟩
  revision := 0
  lines := [plainLine 0 start stop]
  tableProjection := none

end Hane.Presentation
