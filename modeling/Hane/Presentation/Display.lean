import Hane.Presentation.SourceMap

/-! Presented lines and blocks, the source ranges they hold, and carrying those ranges over
edits that were made since they were presented.
-/

namespace Hane.Presentation

open Hane.Document

inductive TableAlignment where
  | default
  | left
  | center
  | right
deriving DecidableEq

structure TableCellDisplay where
  column : Nat
  sourceRange : SourceRange
  visualRange : VisualRange
  alignment : TableAlignment
deriving DecidableEq

structure TableRowDisplay where
  header : Bool
  columnCount : Nat
  cells : List TableCellDisplay
deriving DecidableEq

structure ListTaskMetadata where
  markerRange : SourceRange
  checked : Bool
  checkboxVisualRange : Option VisualRange
deriving DecidableEq

structure ListMarkerMetadata where
  sourceRange : SourceRange
  anchor : Nat
  visualRange : VisualRange
  label : Text
  synthesized : Bool
  task : Option ListTaskMetadata
deriving DecidableEq

structure ListStructuralPrefixMetadata where
  itemId : Nat
  sourceRange : SourceRange
  columns : Nat
deriving DecidableEq

structure ListRowMetadata where
  marker : Option ListMarkerMetadata
  structuralPrefixes : List ListStructuralPrefixMetadata
  bodyVisualStart : Nat
deriving DecidableEq

structure LinkTarget where
  sourceRange : SourceRange
  destination : Text
  usesReference : Bool
deriving DecidableEq

/-- One presented physical line. Its text, styles and heights are left out: no range depends on
them.
-/
structure VisualLine where
  lineId : Nat
  sourceRange : SourceRange
  revision : Nat
  links : List LinkTarget
  sourceMap : SourceMap
  disclosure : Option SourceRange
  list : Option ListRowMetadata
  tableRow : Option TableRowDisplay
deriving DecidableEq

/-- One presented block. `Table` stands for the table metadata it may carry. -/
structure VisualBlock (Table : Type) where
  sourceRange : SourceRange
  revision : Nat
  lines : List VisualLine
  tableProjection : Option Table

/-- Where a range is after the edits of `deltas`, oldest first; none when one of them cannot be
followed.
-/
def rebaseRange (range : SourceRange) (deltas : List RevisionDelta) : Option SourceRange :=
  deltas.foldlM (fun range delta => delta.transformRange range) range

/-- A marker's ranges and its anchor after one edit. -/
def ListMarkerMetadata.follow (marker : ListMarkerMetadata) (delta : RevisionDelta)
    : Option ListMarkerMetadata := do
  let range ← delta.transformRange marker.sourceRange
  let task ← marker.task.mapM fun task => do
    return { task with markerRange := ← delta.transformRange task.markerRange }
  return { marker with sourceRange := range, anchor := range.start, task }

def ListRowMetadata.rebase (row : ListRowMetadata) (deltas : List RevisionDelta)
    : Option ListRowMetadata := do
  let marker ← row.marker.mapM fun marker => deltas.foldlM ListMarkerMetadata.follow marker
  let structuralPrefixes ← row.structuralPrefixes.mapM fun held => do
    return { held with sourceRange := ← rebaseRange held.sourceRange deltas }
  return { row with marker, structuralPrefixes }

namespace VisualLine

/-- A line's own range, its mapping and its disclosure after one edit. -/
def follow (line : VisualLine) (delta : RevisionDelta) : Option VisualLine := do
  let range ← delta.transformRange line.sourceRange
  let segments ← line.sourceMap.segments.mapM fun segment => do
    return { segment with sourceRange := ← delta.transformRange segment.sourceRange }
  let disclosure ← line.disclosure.mapM fun disclosure => delta.transformRange disclosure
  return { line with sourceRange := range, sourceMap := { segments }, disclosure }

/-- The line after the edits, or none where the source gives up with `false`. What it then left
half moved is dropped by its caller.
-/
def rebase (line : VisualLine) (deltas : List RevisionDelta) (current : Nat)
    : Option VisualLine := do
  let line ← deltas.foldlM follow line
  let links ← line.links.mapM fun link => do
    return { link with sourceRange := ← rebaseRange link.sourceRange deltas }
  let list ← line.list.mapM (·.rebase deltas)
  let tableRow ← line.tableRow.mapM fun table => do
    let cells ← table.cells.mapM fun cell => do
      return { cell with sourceRange := ← rebaseRange cell.sourceRange deltas }
    return { table with cells }
  return { line with links, list, tableRow, revision := current }

end VisualLine

/-- The block after the edits. A block that carries table metadata is given up as soon as there
is one edit.
-/
def VisualBlock.rebase {Table : Type} (block : VisualBlock Table) (deltas : List RevisionDelta)
    (current : Nat) : Option (VisualBlock Table) := do
  if block.tableProjection.isSome ∧ deltas ≠ [] then
    none
  else
    let range ← rebaseRange block.sourceRange deltas
    let lines ← block.lines.mapM (·.rebase deltas current)
    return { block with sourceRange := range, lines, revision := current }

-- The ranges held

/-- The source ranges an item's marker holds: its own and that of its task. -/
def ListMarkerMetadata.ranges (marker : ListMarkerMetadata) : List SourceRange :=
  [marker.sourceRange] ++ marker.task.toList.flatMap fun task => [task.markerRange]

/-- The source ranges a list row holds. -/
def ListRowMetadata.ranges (row : ListRowMetadata) : List SourceRange :=
  row.marker.toList.flatMap (·.ranges)
  ++ row.structuralPrefixes.flatMap fun held => [held.sourceRange]

/-- The source ranges of a line's own text and mapping. -/
def VisualLine.mappingRanges (line : VisualLine) : List SourceRange :=
  [line.sourceRange]
  ++ ((line.sourceMap.segments.flatMap fun segment => [segment.sourceRange])
    ++ line.disclosure.toList.flatMap fun disclosure => [disclosure])

/-- The source ranges a line holds: its own, those of its mapping, its disclosure, its links,
its list row and its table cells.
-/
def VisualLine.ranges (line : VisualLine) : List SourceRange :=
  line.mappingRanges
  ++ ((line.links.flatMap fun link => [link.sourceRange])
    ++ ((line.list.toList.flatMap (·.ranges))
      ++ line.tableRow.toList.flatMap fun table =>
        table.cells.flatMap fun cell => [cell.sourceRange]))

/-- The source ranges a block holds, with those of its lines. -/
def VisualBlock.ranges {Table : Type} (block : VisualBlock Table) : List SourceRange :=
  [block.sourceRange] ++ block.lines.flatMap (·.ranges)

end Hane.Presentation
