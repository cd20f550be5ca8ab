import Hane.Editing.State

/-! Caret movement by grapheme, line, word and paragraph. -/

namespace Hane.Editing

open Hane.Foundations Hane.Document

/-- Where a forward word or paragraph move stops: at the end of the current or next one, or
at the start of the next one. Backward moves ignore it.
-/
inductive ForwardStop where
  | atEnd
  | nextStart
deriving DecidableEq

inductive WordClass where
  | word
  | separator
deriving DecidableEq

namespace Editor

variable (unicode : Unicode)

def classOf (segment : Text) : WordClass :=
  if segment.any unicode.isAlphanumeric then .word else .separator

def previousGrapheme (editor : Editor) (offset : Nat) : Except BufferError Nat := do
  editor.document.validateOffset offset
  if offset = 0 then
    return offset
  let line ← editor.document.lineForOffset offset
  let lineStart ← editor.document.offsetForLineCol line 0
  if offset = lineStart ∧ line > 0 then
    return (← editor.document.lineContentRange (line - 1)).stop
  let text ← editor.document.text ⟨lineStart, offset⟩
  let last := (segmentIndices 0 (unicode.graphemes text)).getLast?
  return lineStart + (last.map Prod.fst).getD 0

def nextGrapheme (editor : Editor) (offset : Nat) : Except BufferError Nat := do
  editor.document.validateOffset offset
  if offset = editor.document.lenBytes then
    return offset
  let line ← editor.document.lineForOffset offset
  let lineEnd := (← editor.document.lineRange line).stop
  let text ← editor.document.text ⟨offset, lineEnd⟩
  let second := (segmentIndices 0 (unicode.graphemes text))[1]?
  return offset + (second.map Prod.fst).getD (utf8Len text)

def moveTo (target : Nat) (extend : Bool) : EditorM Unit :=
  Stateful.modify fun editor =>
    if extend then
      { editor with selection := { editor.selection with active := target } }
    else
      { editor with selection := Selection.caret target }

def graphemeTarget (editor : Editor) (right extend : Bool) : Except BufferError Nat :=
  let range := editor.selection.range
  if extend = false ∧ range.isEmpty = false then
    .ok (if right then range.stop else range.start)
  else if right then
    editor.nextGrapheme unicode editor.selection.active
  else
    editor.previousGrapheme unicode editor.selection.active

def moveGrapheme (right extend : Bool) : EditorM Unit := do
  let target ← Stateful.query (graphemeTarget unicode · right extend)
  moveTo target extend

/-- The line above or below, when there is one. -/
def verticalTarget (editor : Editor) (line : Nat) (down : Bool) : Option Nat :=
  if down then
    if line + 1 ≥ editor.document.lineCount then none else some (line + 1)
  else if line = 0 then
    none
  else
    some (line - 1)

def moveVertical (down extend : Bool) : EditorM Unit := do
  let editor ← Stateful.read
  let currentLine ← Stateful.query (·.document.lineForOffset editor.selection.active)
  let currentRange ← Stateful.query (·.document.lineContentRange currentLine)
  let currentPrefix ←
    Stateful.query
      (·.document.text ⟨currentRange.start, min editor.selection.active currentRange.stop⟩)
  let preferredColumn :=
    editor.preferredGraphemeColumn.getD (unicode.graphemes currentPrefix).length
  Stateful.modify ({ · with preferredGraphemeColumn := some preferredColumn })
  match editor.verticalTarget currentLine down with
  | none => return ()
  | some targetLine =>
      let targetRange ← Stateful.query (·.document.lineContentRange targetLine)
      let targetText ← Stateful.query (·.document.text targetRange)
      let column := (segmentIndices 0 (unicode.graphemes targetText))[preferredColumn]?
      let relativeOffset := (column.map Prod.fst).getD (utf8Len targetText)
      moveTo (targetRange.start + relativeOffset) extend

/-- Moves to the start or the end of the line's content. -/
def moveToLineBoundary (toEnd extend : Bool) : EditorM Unit := do
  let editor ← Stateful.read
  let line ← Stateful.query (·.document.lineForOffset editor.selection.active)
  let range ← Stateful.query (·.document.lineContentRange line)
  moveTo (if toEnd then range.stop else range.start) extend

/-- The edge a non-extending move collapses a non-empty selection to. -/
def collapsedEdge (editor : Editor) (forward : Bool) : Option Nat :=
  let range := editor.selection.range
  if range.isEmpty then none else if forward then some range.stop else some range.start

/-- The collapsed edge of a move that does not extend, else where the move leads from the
caret.
-/
def moveTarget (editor : Editor) (forward extend : Bool)
    (target : Editor → Nat → Except BufferError Nat) : Except BufferError Nat :=
  match (editor.collapsedEdge forward).filter (fun _ => !extend) with
  | some edge => .ok edge
  | none => target editor editor.selection.active

/-- The line a word walk reads next, or `none` at the edge of the document. -/
def walkLine (editor : Editor) (position : Nat) (forward : Bool)
    : Except BufferError (Option SourceRange) := do
  if forward then
    if position ≥ editor.document.lenBytes then
      return none
    let line ← editor.document.lineForOffset position
    return some (← editor.document.lineRange line)
  else
    if position = 0 then
      return none
    let line ← editor.document.lineForOffset position
    if position = (← editor.document.lineRange line).start then
      return some (← editor.document.lineRange (line - 1))
    else
      return some (← editor.document.lineRange line)

/-- The segments of a line on the walk's side of `relative`, in walking order, each with the
number of its bytes on that side.
-/
def walkedSegments (text : Text) (relative : Nat) (forward : Bool) : List (Text × Nat) :=
  let indexed := segmentIndices 0 (unicode.wordBounds text)
  if forward then
    indexed.filterMap fun (index, segment) =>
      let segmentEnd := index + utf8Len segment
      if segmentEnd > relative then some (segment, segmentEnd - max index relative) else none
  else
    (indexed.filterMap fun (index, segment) =>
      let segmentEnd := index + utf8Len segment
      if index < relative then some (segment, min segmentEnd relative - index)
      else none).reverse

/-- Where a walk stands: done at a position, or still running in the first or second phase.
-/
inductive Walk where
  | done (position : Nat)
  | running (position : Nat) (second : Bool)
deriving DecidableEq

/-- Walks over one line's segments. A segment of the wrong class starts the second phase,
and ends the walk once that phase does not take it either.
-/
def walkSegments (forward : Bool) (phases : WordClass × WordClass)
    : List (Text × Nat) → Nat → Bool → Walk
  | [], position, second => .running position second
  | (segment, walked) :: rest, position, second =>
      let found := classOf unicode segment
      let expected := if second then phases.2 else phases.1
      let second := second || found != expected
      if found ≠ (if second then phases.2 else phases.1) then
        .done position
      else
        walkSegments forward phases rest
          (if forward then position + walked else position - walked) second

/-- The walk line by line. Every line read moves the position by at least one byte, so one
more round than the document has bytes is enough.
-/
def scanLines (editor : Editor) (forward : Bool) (phases : WordClass × WordClass)
    : Nat → Nat → Bool → Except BufferError Nat
  | 0, position, _ => .ok position
  | rounds + 1, position, second => do
      match ← editor.walkLine position forward with
      | none => return position
      | some range =>
          let text ← editor.document.text range
          let segments := walkedSegments unicode text (position - range.start) forward
          match walkSegments unicode forward phases segments position second with
          | .done position => return position
          | .running position second => editor.scanLines forward phases rounds position second

def scanWords (editor : Editor) (start : Nat) (forward : Bool)
    (phases : WordClass × WordClass) : Except BufferError Nat := do
  editor.document.validateOffset start
  editor.scanLines unicode forward phases (editor.document.lenBytes + 1) start false

def wordTarget (editor : Editor) (start : Nat) (forward : Bool) (stop : ForwardStop)
    : Except BufferError Nat :=
  let phases :=
    match forward, stop with
    | true, .nextStart => (.word, .separator)
    | _, _ => (.separator, .word)
  editor.scanWords unicode start forward phases

def moveWord (forward : Bool) (stop : ForwardStop) (extend : Bool) : EditorM Unit := do
  let target ←
    Stateful.query (moveTarget · forward extend (wordTarget unicode · · forward stop))
  moveTo target extend

def paragraphTarget (editor : Editor) (start : Nat) (forward : Bool) (stop : ForwardStop)
    : Except BufferError Nat := do
  let line ← editor.document.lineForOffset start
  let content ← editor.document.lineContentRange line
  let hasNext := decide (line + 1 < editor.document.lineCount)
  if forward = false then
    if start > content.start then
      return content.start
    else if line = 0 then
      return content.start
    else
      return (← editor.document.lineContentRange (line - 1)).start
  else
    match stop with
    | .nextStart =>
        if hasNext then
          return (← editor.document.lineRange (line + 1)).start
        else
          return (← editor.document.lineContentRange line).stop
    | .atEnd =>
        if start < content.stop then
          return content.stop
        else if hasNext then
          return (← editor.document.lineContentRange (line + 1)).stop
        else
          return start

def moveParagraph (forward : Bool) (stop : ForwardStop) (extend : Bool) : EditorM Unit := do
  let target ← Stateful.query (moveTarget · forward extend (paragraphTarget · · forward stop))
  moveTo target extend

end Editor

end Hane.Editing
