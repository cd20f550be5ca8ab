import Hane.Document.Boundaries
import Hane.Foundations.Cuts
import Hane.Presentation.SourceMap

/-! The rows of a presented block: where its lines wrap, what each row shows and which source it
stands for.
-/

namespace Hane.Presentation.Layout

open Hane.Document Hane.Foundations

-- Lines, geometry and shapers

/-- Widths and heights, which are floating-point numbers. Nothing is assumed of their operations.
-/
structure Lengths (Length : Type) where
  zero : Length
  add : Length → Length → Length
  sub : Length → Length → Length
  max : Length → Length → Length
  le : Length → Length → Bool
  lt : Length → Length → Bool
  minEffectiveWrapWidth : Length

/-- A presented line. `rest` is what only its geometry and a shaper read of it: its styles, its
list and quote data.
-/
structure Line (Length Rest : Type) where
  lineId : Nat
  sourceRange : SourceRange
  visualText : Text
  sourceMap : SourceMap
  isTableDelimiter : Bool
  image : Bool
  tableRow : Bool
  height : Length
  rest : Rest

variable {Length Rest : Type}

def Line.visualLen (line : Line Length Rest) : Nat := utf8Len line.visualText

structure Block (Length Rest : Type) where
  id : Nat
  isTableRow : Bool
  revision : Nat
  lines : List (Line Length Rest)
  leadingSpace : Length
  trailingSpace : Length

/-- Where the columns of a line stand. -/
structure LineGeometry (Length : Type) where
  textXOrigin : Length
  markerXOrigin : Option Length
  bodyXOrigin : Length
  firstRowWidth : Length
  effectiveWidth : Length
  bodyVisualStart : Option Nat
  markerVisualRange : Option (Nat × Nat)
  markerBodyGap : Length
  bodyGap : Length
  quoteBarXOrigin : Option Length

/-- Text measurement. The offsets that a shaper breaks at may be any. -/
structure LineShaper (Length Rest : Type) where
  wrapBoundaries : Line Length Rest → Nat → Nat → Length → List Nat
  xForOffset : Line Length Rest → Nat → Nat → Nat → Length

inductive LineWrap where
  | soft
  | hard
  deriving DecidableEq

structure LayoutLine (Length : Type) where
  line : Nat
  lineId : Nat
  fragment : Nat
  wrap : LineWrap
  lineVisualRange : Nat × Nat
  visualRange : Nat × Nat
  sourceRange : SourceRange
  y : Length
  height : Length
  textXOrigin : Length
  geometry : LineGeometry Length

structure BlockLayout (Length : Type) where
  block : Nat
  revision : Nat
  width : Length
  lines : List (LayoutLine Length)
  leadingSpace : Length
  trailingSpace : Length

-- Fragments

variable (lengths : Lengths Length) (shaper : LineShaper Length Rest)

/-- The offsets of a shaper that can be cut at, in order. -/
def validBoundaries (line : Line Length Rest) (start : Nat) (rowWidth : Length) : List Nat :=
  Cuts.sortedItems <|
    (shaper.wrapBoundaries line start line.visualLen rowWidth).filter fun offset =>
      start < offset ∧ offset < line.visualLen ∧ Boundary line.visualText offset

/-- The inner cuts of a line whose body starts behind a marker. -/
def bodyBoundaries (line : Line Length Rest) (geometry : LineGeometry Length)
    (firstWidth : Length) (body : Nat) : List Nat :=
  let markerOverflows :=
    geometry.markerVisualRange.isSome
    && lengths.lt firstWidth (shaper.xForOffset line 0 body body)
  if markerOverflows then
    body :: validBoundaries shaper line body geometry.effectiveWidth
  else
    let firstBoundaries := validBoundaries shaper line 0 firstWidth
    match firstBoundaries.find? (body ≤ ·) with
    | some split => split :: validBoundaries shaper line split geometry.effectiveWidth
    | none => firstBoundaries

def innerBoundaries (line : Line Length Rest) (geometry : LineGeometry Length) : List Nat :=
  let firstWidth :=
    lengths.max (lengths.sub geometry.firstRowWidth geometry.markerBodyGap)
      lengths.minEffectiveWrapWidth
  match geometry.bodyVisualStart.filter (0 < ·) with
  | some body =>
    let body := min body line.visualLen
    if body < line.visualLen then
      bodyBoundaries lengths shaper line geometry firstWidth body
    else []
  | none =>
    let rowWidth := if geometry.bodyVisualStart = some 0 then geometry.effectiveWidth else firstWidth
    validBoundaries shaper line 0 rowWidth

def fragmentBoundaries (line : Line Length Rest) (geometry : LineGeometry Length)
    (width : Length) : List Nat :=
  if lengths.le width lengths.zero ∨ line.image then [0, line.visualLen]
  else Cuts.sortedItems (0 :: innerBoundaries lengths shaper line geometry) ++ [line.visualLen]

/-- The source offset that a visual offset stands for. -/
def sourceAtVisual (line : Line Length Rest) (visual : Nat) : Nat :=
  match line.sourceMap.visualToSource visual .after with
  | some candidate => candidate.sourceOffset
  | none => line.sourceRange.start

-- Rows

def lineVisualStart (block : Block Length Rest) (index : Nat) : Nat :=
  ((block.lines.take index).map fun line =>
    if line.isTableDelimiter then 0 else line.visualLen + 1).sum

/-- The row of one fragment. -/
def fragmentRow (line : Line Length Rest) (geometry : LineGeometry Length)
    (index blockStart fragment : Nat) (y : Length) (pair : Nat × Nat) : LayoutLine Length :=
  let last := pair.2 = line.visualLen
  let sourceStart :=
    if fragment = 0 then line.sourceRange.start else sourceAtVisual line pair.1
  let sourceEnd := if last then line.sourceRange.stop else sourceAtVisual line pair.2
  { line := index
    lineId := line.lineId
    fragment
    wrap := if last then .hard else .soft
    lineVisualRange := pair
    visualRange := (blockStart + pair.1, blockStart + pair.2)
    sourceRange := ⟨sourceStart, max sourceEnd sourceStart⟩
    y
    height := line.height
    textXOrigin := if fragment = 0 then geometry.textXOrigin else geometry.bodyXOrigin
    geometry }

def fragmentRows (line : Line Length Rest) (geometry : LineGeometry Length)
    (index blockStart fragment : Nat) (y : Length) : List (Nat × Nat) → List (LayoutLine Length)
  | [] => []
  | pair :: rest =>
    fragmentRow line geometry index blockStart fragment y pair
      :: fragmentRows line geometry index blockStart (fragment + 1) (lengths.add y line.height) rest

/-- The rows of one line. `lineGeometry` measures it. -/
def lineRows (lineGeometry : Line Length Rest → LineGeometry Length) (block : Block Length Rest)
    (width : Length) (index : Nat) (line : Line Length Rest) (y : Length)
    : List (LayoutLine Length) :=
  let geometry := lineGeometry line
  let boundaries :=
    if lengths.le width lengths.zero then [0, line.visualLen]
    else fragmentBoundaries lengths shaper line geometry width
  fragmentRows lengths line geometry index (lineVisualStart block index) 0 y
    (Cuts.neighbours boundaries)

/-- The rows of the lines from one on, and of each line its own. -/
def rowsFrom (lineGeometry : Line Length Rest → LineGeometry Length) (block : Block Length Rest)
    (width : Length) (index : Nat) (y : Length)
    : List (Line Length Rest) → List (List (LayoutLine Length))
  | [] => []
  | line :: rest =>
    let rows := lineRows lengths shaper lineGeometry block width index line y
    let y := rows.foldl (fun y row => lengths.add y row.height) y
    rows :: rowsFrom lineGeometry block width (index + 1) y rest

/-- The layout of a block. `layoutTableBlock` lays out the blocks with table rows. -/
def layoutBlock (lineGeometry : Line Length Rest → LineGeometry Length)
    (layoutTableBlock : Block Length Rest → Length → BlockLayout Length)
    (block : Block Length Rest) (width : Length) : BlockLayout Length :=
  if block.isTableRow ∨ block.lines.any (·.tableRow) then layoutTableBlock block width
  else
    { block := block.id
      revision := block.revision
      width
      lines := (rowsFrom lengths shaper lineGeometry block width 0 lengths.zero block.lines).flatten
      leadingSpace := block.leadingSpace
      trailingSpace := block.trailingSpace }

-- The row of a source offset

def LayoutLine.ownsSource (row : LayoutLine Length) (offset : Nat) (isLastRow : Bool) : Bool :=
  if offset < row.sourceRange.start then false
  else if offset < row.sourceRange.stop then true
  else offset = row.sourceRange.stop && row.wrap = .hard && isLastRow

def BlockLayout.rowForSource (layout : BlockLayout Length) (offset : Nat) : Option Nat :=
  let last := layout.lines.length - 1
  (layout.lines.findIdx? (·.ownsSource offset false)).or <|
    (layout.lines[last]?.filter (·.ownsSource offset true)).map fun _ => last

end Hane.Presentation.Layout
