import Hane.Document.Text
import Hane.Foundations.Cuts
import Hane.Foundations.PartitionPoints

/-! The block-local index of the fence rows that collapse while inactive, and the two counts it
answers from its derived arrays. Ranges in it are relative to the block.
-/

namespace Hane.Markdown.FenceHeight

open Hane.Document
open Hane.Foundations
open Hane.Foundations.Cuts

-- Data

structure FenceHeightRow where
  range : SourceRange
  line : Nat
  ownsEnd : Bool
deriving DecidableEq

structure FenceQuoteOwnerRows where
  owner : SourceRange
  rows : List Nat
deriving DecidableEq

structure FenceHeightProjection where
  rows : List FenceHeightRow
  quoteOwnerRows : List FenceQuoteOwnerRows
  quoteRowPrefix : List Nat
  quoteOwnerMaxEnd : List Nat

/-- A fence row as its parser reports it: the source's tuple of a range, whether the row owns its
end, the quotes around the row and its physical line.
-/
structure QuotedRow where
  range : SourceRange
  ownsEnd : Bool
  quoteOwners : List SourceRange
  line : Nat
deriving DecidableEq

def QuotedRow.heightRow (row : QuotedRow) : FenceHeightRow := ⟨row.range, row.line, row.ownsEnd⟩

-- Construction

/-- A range in offsets of its block, with the source's saturating subtraction. -/
def relativeTo (block range : SourceRange) : SourceRange :=
  ⟨range.start - block.start, range.stop - block.start⟩

/-- The sort key `(start, end)`. -/
def rangeFirst (first second : SourceRange) : Bool :=
  decide (first.start < second.start)
  || (first.start == second.start && decide (first.stop ≤ second.stop))

/-- `sort_by_key` and `dedup` of a row's owners. -/
def sortOwners (owners : List SourceRange) : List SourceRange :=
  dedupRuns (owners.mergeSort rangeFirst)

/-- The sort key `(start, end, line)`. -/
def rowFirst (first second : QuotedRow) : Bool :=
  if first.range = second.range then decide (first.line ≤ second.line)
  else rangeFirst first.range second.range

def normalizeRow (block : SourceRange) (row : QuotedRow) : QuotedRow :=
  { row with
    range := relativeTo block row.range
    quoteOwners := sortOwners (row.quoteOwners.map (relativeTo block)) }

/-- Appends a row, or merges it into the last one when both have one range. -/
def pushRow (done : List QuotedRow) (row : QuotedRow) : List QuotedRow :=
  match done.getLast? with
  | none => [row]
  | some last =>
      if last.range = row.range then
        done.dropLast
        ++ [{ last with
              ownsEnd := last.ownsEnd || row.ownsEnd
              quoteOwners := sortOwners (last.quoteOwners ++ row.quoteOwners) }]
      else
        done ++ [row]

def deduplicated (block : SourceRange) (rows : List QuotedRow) : List QuotedRow :=
  ((rows.map (normalizeRow block)).mergeSort rowFirst).foldl pushRow []

/-- `min_by_key` with the key `(start, Reverse(end))`: the first of the least. -/
def outermostOwner : List SourceRange → Option SourceRange
  | [] => none
  | owner :: rest =>
      match outermostOwner rest with
      | none => some owner
      | some other =>
          if other.start < owner.start ∨ (other.start = owner.start ∧ owner.stop < other.stop) then
            some other
          else
            some owner

/-- `owner_rows.entry(owner).or_default().push(index)`. -/
def pushOwnerRow (owner : SourceRange) (index : Nat)
    : List FenceQuoteOwnerRows → List FenceQuoteOwnerRows
  | [] => [⟨owner, [index]⟩]
  | entry :: rest =>
      if entry.owner = owner then
        { entry with rows := entry.rows ++ [index] } :: rest
      else
        entry :: pushOwnerRow owner index rest

def collectOwner (table : List FenceQuoteOwnerRows) (indexed : QuotedRow × Nat)
    : List FenceQuoteOwnerRows :=
  match outermostOwner indexed.1.quoteOwners with
  | none => table
  | some owner => pushOwnerRow owner indexed.2 table

/-- The owners with the rows of each, in the order of `(start, end)`: what the order of the source's
hash map was does not matter.
-/
def ownerRows (rows : List QuotedRow) : List FenceQuoteOwnerRows :=
  (rows.zipIdx.foldl collectOwner []).mergeSort fun first second =>
    rangeFirst first.owner second.owner

/-- Entry `n` counts the rows with an owner among the first `n`. -/
def quotedBefore (rows : List QuotedRow) : List Nat :=
  rows.scanl
    (fun count row => if (outermostOwner row.quoteOwners).isSome then count + 1 else count) 0

/-- Entry `n` is the greatest end of the owners up to the one with index `n`. -/
def maxEnds (entries : List FenceQuoteOwnerRows) : List Nat :=
  (entries.scanl (fun maxEnd entry => max maxEnd entry.owner.stop) 0).tail

def fromAbsoluteRows (block : SourceRange) (rows : List QuotedRow) : FenceHeightProjection :=
  let deduplicated := deduplicated block rows
  { rows := deduplicated.map QuotedRow.heightRow
    quoteOwnerRows := ownerRows deduplicated
    quoteRowPrefix := quotedBefore deduplicated
    quoteOwnerMaxEnd := maxEnds (ownerRows deduplicated) }

section Built

variable (block : SourceRange) (rows : List QuotedRow)

@[simp] theorem rows_built
    : (fromAbsoluteRows block rows).rows
        = (deduplicated block rows).map QuotedRow.heightRow := rfl

@[simp] theorem quoteOwnerRows_built
    : (fromAbsoluteRows block rows).quoteOwnerRows = ownerRows (deduplicated block rows) := rfl

@[simp] theorem quoteRowPrefix_built
    : (fromAbsoluteRows block rows).quoteRowPrefix = quotedBefore (deduplicated block rows) := rfl

@[simp] theorem quoteOwnerMaxEnd_built
    : (fromAbsoluteRows block rows).quoteOwnerMaxEnd
        = maxEnds (ownerRows (deduplicated block rows)) := rfl

end Built

-- Queries

/-- The items from one index to another. Without a value the source panics. -/
def slice {α : Type} (items : List α) (start stop : Nat) : Option (List α) :=
  if start ≤ stop ∧ stop ≤ items.length then some ((items.take stop).drop start) else none

/-- The number of rows from index `start` to index `stop` whose outermost owner the disclosure, given
in offsets of the block, touches.
-/
def activeQuoteRowsIn (projection : FenceHeightProjection) (start stop : Nat)
    (disclosure : SourceRange) (allowOwnerEnd : Bool)
    : Option Nat := do
  if projection.quoteOwnerRows = [] then
    return 0
  let ownerEnd :=
    if disclosure.isEmpty then
      partitionPoint (fun entry => decide (entry.owner.start ≤ disclosure.start))
        projection.quoteOwnerRows
    else
      partitionPoint (fun entry => decide (entry.owner.start < disclosure.stop))
        projection.quoteOwnerRows
  let maxEnds ← slice projection.quoteOwnerMaxEnd 0 ownerEnd
  let ownerStart :=
    if disclosure.isEmpty then
      partitionPoint (fun maxEnd => decide (maxEnd < disclosure.start)) maxEnds
    else
      partitionPoint (fun maxEnd => decide (maxEnd ≤ disclosure.start)) maxEnds
  let entries ← slice projection.quoteOwnerRows ownerStart ownerEnd
  let touched := entries.filter fun entry =>
    if disclosure.isEmpty then
      decide (disclosure.start < entry.owner.stop)
      || (allowOwnerEnd && entry.owner.stop == disclosure.start)
    else
      decide (disclosure.start < entry.owner.stop)
  return (touched.map fun entry =>
    partitionPoint (fun row => decide (row < stop)) entry.rows
      - partitionPoint (fun row => decide (row < start)) entry.rows).sum

/-- Whether the row owns a caret given in offsets of the block. -/
def FenceHeightRow.ownsCaret (row : FenceHeightRow) (caret : Nat) : Bool :=
  decide (row.range.start ≤ caret)
  && (decide (caret < row.range.stop) || (row.ownsEnd && caret == row.range.stop))

/-- The rows that stay collapsed under a caret inside the block. -/
def inactiveRowsAtCaret (projection : FenceHeightProjection) (block : SourceRange)
    (start stop : Nat) (rows : List FenceHeightRow) (caret : Nat) (blockIsFinal : Bool)
    : Option Nat := do
  let relativeActive := partitionPoint
    (fun row => decide (row.range.stop < caret) || (row.range.stop == caret && !row.ownsEnd)) rows
  let activeRow := (rows[relativeActive]?.filter (·.ownsCaret caret)).map
    fun _ => start + relativeActive
  let caretAbsolute := block.start + caret
  let quoteActive ← activeQuoteRowsIn projection start stop (.empty caret)
    (decide (caretAbsolute < block.stop) || (blockIsFinal && caretAbsolute == block.stop))
  let directActive := if activeRow.isSome then 1 else 0
  let directAlreadyCounted ← match activeRow with
    | none => some false
    | some row => do
        let upTo ← projection.quoteRowPrefix[row + 1]?
        let before ← projection.quoteRowPrefix[row]?
        some (decide (before < upTo))
  return rows.length
    - (quoteActive + directActive - if directAlreadyCounted then 1 else 0)

def clipTo (block selection : SourceRange) : SourceRange :=
  ⟨min (max selection.start block.start) block.stop - block.start,
    max (min selection.stop block.stop) block.start - block.start⟩

/-- The rows that stay collapsed under a selection that meets the block. -/
def inactiveRowsInSelection (projection : FenceHeightProjection) (block : SourceRange)
    (start stop : Nat) (rows : List FenceHeightRow) (selection : SourceRange)
    : Option Nat := do
  let disclosure := clipTo block selection
  let activeStart := partitionPoint (fun row => decide (row.range.stop ≤ disclosure.start)) rows
  let activeEnd := partitionPoint (fun row => decide (row.range.start < disclosure.stop)) rows
  let directActive := activeEnd - activeStart
  let upTo ← projection.quoteRowPrefix[start + activeEnd]?
  let before ← projection.quoteRowPrefix[start + activeStart]?
  let directAlreadyCounted := upTo - before
  let quoteActive ← activeQuoteRowsIn projection start stop disclosure false
  return rows.length - (quoteActive + directActive - directAlreadyCounted)

def inactiveRowsInIndices (projection : FenceHeightProjection) (block : SourceRange)
    (start stop : Nat) (disclosure : Option SourceRange) (blockIsFinal : Bool)
    : Option Nat := do
  let rows ← slice projection.rows start stop
  match disclosure with
  | none => return rows.length
  | some disclosure =>
      if disclosure.isEmpty then
        if disclosure.start < block.start ∨ block.stop < disclosure.start then
          return rows.length
        else
          inactiveRowsAtCaret projection block start stop rows (disclosure.start - block.start)
            blockIsFinal
      else if !block.intersects disclosure then
        return rows.length
      else
        inactiveRowsInSelection projection block start stop rows disclosure

def inactiveRowsIn (projection : FenceHeightProjection) (block range : SourceRange)
    (disclosure : Option SourceRange) (blockIsFinal : Bool)
    : Option Nat :=
  if range.isEmpty || projection.rows.isEmpty then
    some 0
  else
    let relative := relativeTo block range
    inactiveRowsInIndices projection block
      (partitionPoint (fun row => decide (row.range.stop ≤ relative.start)) projection.rows)
      (partitionPoint (fun row => decide (row.range.start < relative.stop)) projection.rows)
      disclosure blockIsFinal

def inactiveRowsBeforeLine (projection : FenceHeightProjection) (block : SourceRange)
    (line : Nat) (disclosure : Option SourceRange) (blockIsFinal : Bool)
    : Option Nat :=
  inactiveRowsInIndices projection block 0
    (partitionPoint (fun row => decide (row.line < line)) projection.rows) disclosure blockIsFinal

end Hane.Markdown.FenceHeight
