import Hane.Markdown.ListItems
import Mathlib.Data.List.Sort

/-! The editing projection of a parsed slice: its list items, and the lines that only look like
some.
-/

namespace Hane.Markdown

open Hane.Document Hane.Foundations

inductive ListMarker where
  | unordered (bullet : Char)
  | ordered (delimiter : Char)
deriving DecidableEq

structure ListEditItem where
  itemRange : SourceRange
  subtreeRange : SourceRange
  listRange : SourceRange
  markerRange : SourceRange
  prefixRange : SourceRange
  bodyRange : SourceRange
  marker : ListMarker
  listStart : Option Nat
  ordinal : Nat
  depth : Nat
  task : Option Bool
  markerIndentColumns : Nat
  bodyIndentColumns : Nat
  previousSibling : Option Nat
  parentItem : Option Nat
  isParserItem : Bool
  inQuote : Bool
deriving DecidableEq

structure ListEditProjection where
  sourceRange : SourceRange
  items : List ListEditItem
deriving DecidableEq

-- Reading a line

/-- The columns of the white space a text starts with. -/
def columns (text : Text) : Nat := TabStops.advance 4 0 (text.takeWhile isIndent)

def prefixColumnsFrom (column : Nat) : Text → Nat
  | [] => column
  | '\t' :: rest => prefixColumnsFrom (column + (4 - column % 4)) rest
  | c :: rest => prefixColumnsFrom (column + c.utf8Size) rest

def prefixColumns (text : Text) : Nat := prefixColumnsFrom 0 text

def isAsciiBlank (text : Text) : Bool := text.all isIndent

/-- Behind the spaces and tabs at an offset. -/
def skipIndent (source : Text) (offset : Nat) : Nat :=
  offset + utf8Len ((substring source offset (utf8Len source)).takeWhile isIndent)

/-- The list marker a line starts with: where its indentation ends, where it ends with the space
or tab behind it, and its kind.
-/
def rawListMarker (text : Text) : Option (Nat × Nat × ListMarker) := do
  let indentEnd := (text.takeWhile isIndent).length
  let markerEnd ← PrefixCursor.symbolEnd text indentEnd
  if text[markerEnd]?.any fun c => !isIndent c then none
  let marker :=
    if text[indentEnd]?.any Char.isDigit then
      ListMarker.ordered (text[markerEnd - 1]?.getD '.')
    else
      ListMarker.unordered (text[indentEnd]?.getD '-')
  return (indentEnd, if markerEnd < text.length then markerEnd + 1 else markerEnd, marker)

def lineSpansFrom (start : Nat) : List SourceLine → List (Nat × Nat)
  | [] => []
  | line :: rest =>
      (start, start + utf8Len line.content) :: lineSpansFrom (start + utf8Len line.text) rest

/-- Where the contents of the lines of a text are; nothing follows the last line ending. -/
def lineSpans (source : Text) : List (Nat × Nat) :=
  lineSpansFrom 0 ((splitLines source).filter fun line => !line.text.isEmpty)

-- The items of the parser

/-- The item the parser found behind a marker. -/
def parserItem (parsed : ListParse) (source : Text) (marker : SourceRange × Nat)
    : Option ListEditItem := do
  let (markerRange, id) := marker
  let item ← parsed.tree.node id
  let (listId, ordinal) ← parsed.listItemOrdinal id
  let list ← parsed.tree.node listId
  let .list listStart := list.kind | none
  let base := parsed.sourceRange.start
  let markerRel := markerRange.start - base
  let lineStartRel := lineStart source markerRel
  let lineEndRel := lineEnd source lineStartRel
  let markerEndRel := min (markerRange.stop - base) lineEndRel
  let markerText := ((slice? source markerRel markerEndRel).getD []).rdropWhile isIndent
  let contentRel :=
    match parsed.findTaskMarker id with
    | none => skipIndent source markerEndRel
    | some task => skipIndent source (min (task.stop - base) lineEndRel)
  let bodyStartRel := min contentRel lineEndRel
  return {
    itemRange := item.sourceRange
    subtreeRange := ⟨base + lineStartRel, parsed.itemSubtreeEnd id (base + lineEndRel)⟩
    listRange := list.sourceRange
    markerRange
    prefixRange := ⟨base + lineStartRel, base + bodyStartRel⟩
    bodyRange := ⟨base + bodyStartRel, base + lineEndRel⟩
    marker :=
      if markerText.head?.any Char.isDigit then
        .ordered (markerText.getLast?.getD '.')
      else
        .unordered (markerText.head?.getD '-')
    listStart
    ordinal
    depth := parsed.listDepth id
    task :=
      match item.kind with
      | .listItem task => task
      | _ => none
    markerIndentColumns := columns (substring source lineStartRel markerRel)
    bodyIndentColumns := prefixColumns (substring source lineStartRel bodyStartRel)
    -- Set once all items are there.
    previousSibling := none
    parentItem := none
    isParserItem := true
    inQuote := parsed.inQuote id }

-- Lines that look like items

/-- The last of the items with the greatest key. -/
def maxByKey (key : ListEditItem → Nat) (items : List ListEditItem) : Option ListEditItem :=
  items.foldl
    (fun best item =>
      match best with
      | none => some item
      | some kept => if key kept ≤ key item then some item else best)
    none

def sameMarkerKind : ListMarker → ListMarker → Bool
  | .unordered _, .unordered _ => true
  | .ordered _, .ordered _ => true
  | _, _ => false

/-- The end of the block, or the next line that is indented no further. The first is an offset
into the document and the second one into the block.
-/
def incompleteSubtreeEnd (source : Text) (current : Nat × Nat) (currentIndent sourceEnd : Nat)
    : Nat :=
  let ends := (lineSpans source).find? fun (start, stop) =>
    let line := substring source start stop
    current.1 < start && current.2 ≤ start && !line.all isWhitespace
      && columns line ≤ currentIndent
  match ends with
  | some (start, _) => min sourceEnd start
  | none => sourceEnd

def rawTask : Text → Option Bool
  | '[' :: c :: ']' :: _ => if c = ' ' ∨ c = 'x' ∨ c = 'X' then some (c != ' ') else none
  | _ => none

/-- The list, list start, depth and ordinal of an item that only its line tells. -/
def recoveredPlace (items : List ListEditItem) (line : SourceRange) (markerStart : Nat)
    (marker : ListMarker) (markerIndentColumns : Nat)
    : SourceRange × Option Nat × Nat × Nat :=
  let previous := maxByKey (·.itemRange.start) <| items.filter fun item =>
    item.itemRange.start < markerStart
      && item.markerIndentColumns == markerIndentColumns
      && sameMarkerKind item.marker marker
  let parent := maxByKey (·.markerIndentColumns) <| items.filter fun item =>
    item.itemRange.start < markerStart
      && item.markerIndentColumns < markerIndentColumns
      && markerStart ≤ item.itemRange.stop
  match parent, previous with
  | some parent, _ =>
      (parent.listRange, parent.listStart, parent.depth + 1,
        (items.filter fun item => item.listRange == parent.listRange).length)
  | none, some previous =>
      (previous.listRange, previous.listStart, previous.depth, previous.ordinal + 1)
  | none, none =>
      (line, if marker matches .ordered _ then some 1 else none, 1, 0)

/-- The item of a line that starts with a marker where the parser found none. -/
def recoveredItem (parsed : ListParse) (source : Text) (items : List ListEditItem)
    (span : Nat × Nat) : Option ListEditItem := do
  let line := substring source span.1 span.2
  let (indentEnd, markerEnd, marker) ← rawListMarker line
  let base := parsed.sourceRange.start
  let markerStart := base + span.1 + indentEnd
  if (parsed.listItemMarkers source).any fun found => found.1.start == markerStart then none
  let content := (line.drop markerEnd).dropWhile isIndent
  let task := rawTask content
  let body := if task.isSome then (content.drop 3).dropWhile isIndent else content
  let bodyStart := utf8Len line - if isAsciiBlank body then 0 else utf8Len body
  let markerIndentColumns := columns (line.take indentEnd)
  let lineRange : SourceRange := ⟨base + span.1, base + span.2⟩
  let (listRange, listStart, depth, ordinal) :=
    recoveredPlace items lineRange markerStart marker markerIndentColumns
  return {
    itemRange := ⟨markerStart, base + span.2⟩
    subtreeRange :=
      ⟨base + span.1, incompleteSubtreeEnd source span markerIndentColumns parsed.sourceRange.stop⟩
    listRange
    markerRange := ⟨markerStart, base + span.1 + markerEnd⟩
    prefixRange := ⟨base + span.1, base + span.1 + bodyStart⟩
    bodyRange := ⟨base + span.1 + bodyStart, base + span.2⟩
    marker
    listStart
    ordinal
    depth
    task
    markerIndentColumns
    bodyIndentColumns := prefixColumns (substring line 0 bodyStart)
    previousSibling := none
    parentItem := none
    isParserItem := false
    inQuote := false }

-- The projection

/-- In the order of their ranges. -/
def ListEditItem.Before (first second : ListEditItem) : Prop :=
  first.itemRange.start < second.itemRange.start
  ∨ first.itemRange.start = second.itemRange.start ∧ first.itemRange.stop ≤ second.itemRange.stop

instance : DecidableRel ListEditItem.Before := fun _ _ => inferInstanceAs (Decidable (_ ∨ _))

/-- An item with the positions of the item before it in its list and of the item around it. -/
def linkItem (items : List ListEditItem) (current : ListEditItem) : ListEditItem :=
  { current with
    previousSibling :=
      if current.ordinal = 0 then
        none
      else
        items.findIdx? fun candidate =>
          candidate.listRange == current.listRange && candidate.ordinal == current.ordinal - 1
    parentItem :=
      items.findIdx? fun candidate =>
        candidate.depth + 1 == current.depth
          && candidate.itemRange.start ≤ current.itemRange.start
          && current.itemRange.stop ≤ candidate.itemRange.stop }

def buildListEditProjection (parsed : ListParse) (source : Text) : ListEditProjection :=
  let parserItems := (parsed.listItemMarkers source).filterMap (parserItem parsed source)
  let items := (lineSpans source).foldl
    (fun items span => items ++ (recoveredItem parsed source items span).toList) parserItems
  let sorted := items.insertionSort ListEditItem.Before
  ⟨parsed.sourceRange, sorted.map (linkItem sorted)⟩

/-- The innermost, last item at an offset. -/
def ListEditProjection.itemAt (projection : ListEditProjection) (offset : Nat)
    : Option ListEditItem :=
  let here := projection.items.filter fun item =>
    item.prefixRange.start ≤ offset
      && (offset < item.itemRange.stop
        || (offset == item.itemRange.stop && item.bodyRange.stop == item.itemRange.stop))
  here.foldl
    (fun best item =>
      match best with
      | none => some item
      | some kept =>
          if kept.depth < item.depth
              ∨ kept.depth = item.depth ∧ kept.itemRange.start ≤ item.itemRange.start then
            some item
          else
            best)
    none

end Hane.Markdown
