import Hane.Document.Rope
import Mathlib.Tactic.Common

/-! The revision-tracked source buffer: its edit log, its line mirror and its offset
queries.
-/

namespace Hane.Document

inductive Bias where
  | before
  | after
deriving DecidableEq

structure Anchor where
  offset : Nat
  bias : Bias
deriving DecidableEq

inductive BufferError where
  | offsetOutOfBounds (offset len : Nat)
  | rangeOutOfBounds (range : SourceRange) (len : Nat)
  | invalidRange (range : SourceRange)
  | notCharBoundary (offset : Nat)
  | invalidLineColumn (line col : Nat)
  | revisionHistoryUnavailable (fromRevision toRevision : Nat)
deriving DecidableEq

structure InverseEdit where
  range : SourceRange
  replacement : Text
deriving DecidableEq

structure RevisionDelta where
  fromRevision : Nat
  toRevision : Nat
  editedSourceRangeBefore : SourceRange
  editedSourceRangeAfter : SourceRange
  byteDelta : Int
deriving DecidableEq

/-- `usize::checked_add_signed`. -/
def checkedAddSigned (value : Nat) (delta : Int) : Option Nat :=
  if 0 ≤ (value : Int) + delta then some ((value : Int) + delta).toNat else none

namespace RevisionDelta

def transformOffset (delta : RevisionDelta) (offset : Nat) (bias : Bias) : Option Nat :=
  let before := delta.editedSourceRangeBefore
  if offset < before.start ∨ (offset = before.start ∧ bias = .before) then
    some offset
  else if offset > before.stop ∨ (offset = before.stop ∧ before.isEmpty = false) then
    checkedAddSigned offset delta.byteDelta
  else
    match bias with
    | .before => some delta.editedSourceRangeAfter.start
    | .after => some delta.editedSourceRangeAfter.stop

def transformRange (delta : RevisionDelta) (range : SourceRange) : Option SourceRange :=
  if range.intersects delta.editedSourceRangeBefore then
    none
  else do
    let start ← delta.transformOffset range.start .before
    let stop ← delta.transformOffset range.stop .after
    return { start, stop }

end RevisionDelta

structure EditSummary where
  revisionBefore : Nat
  revisionAfter : Nat
  rangeBefore : SourceRange
  rangeAfter : SourceRange
  insertedBytes : Nat
  deletedBytes : Nat
  inverse : InverseEdit
  delta : RevisionDelta
deriving DecidableEq

/-- Whether the character after a position is a line feed: the rest decides, and
`trailingIsLf` stands for whatever follows the end of the rest.
-/
def followedByLf (rest : Text) (trailingIsLf : Bool) : Bool :=
  match rest with
  | next :: _ => next == '\n'
  | [] => trailingIsLf

/-- Rewrites every bare CR to `\n`; a CR paired with a following line feed is kept. -/
def mirrorBareCr : Text → Bool → Text
  | [], _ => []
  | c :: rest, trailingIsLf =>
      (if c = '\r' ∧ followedByLf rest trailingIsLf = false then '\n' else c)
      :: mirrorBareCr rest trailingIsLf

def buildLineMirror : List Text → Rope
  | [] => []
  | chunk :: later =>
      mirrorBareCr chunk (later.findSome? List.head? == some '\n') ++ buildLineMirror later

-- The buffer

structure RopeBuffer where
  rope : Rope
  lineMirror : Rope
  revision : Nat
  deltas : List RevisionDelta
  deltaCapacity : Nat
deriving DecidableEq

namespace RopeBuffer

/-- A buffer over a rope whose tree happens to store `chunks`. -/
def fromRope (chunks : List Text) : RopeBuffer where
  rope := chunks.flatten
  lineMirror := buildLineMirror chunks
  revision := 0
  deltas := []
  deltaCapacity := 4096

def fromText (text : Text) : RopeBuffer := fromRope [text]

def fullText (buffer : RopeBuffer) : Text := buffer.rope

def lenBytes (buffer : RopeBuffer) : Nat := buffer.rope.lenBytes

def lineCount (buffer : RopeBuffer) : Nat := buffer.lineMirror.lenLines

def isCharBoundary (buffer : RopeBuffer) (byte : Nat) : Bool :=
  byte == buffer.rope.lenBytes
  || buffer.rope.charToByte (buffer.rope.byteToChar byte) == byte

def validateOffset (buffer : RopeBuffer) (offset : Nat) : Except BufferError Unit :=
  if offset > buffer.rope.lenBytes then
    .error (.offsetOutOfBounds offset buffer.lenBytes)
  else if buffer.isCharBoundary offset = false then
    .error (.notCharBoundary offset)
  else
    .ok ()

def validateRange (buffer : RopeBuffer) (range : SourceRange) : Except BufferError Unit :=
  if range.start > range.stop then
    .error (.invalidRange range)
  else if range.stop > buffer.rope.lenBytes then
    .error (.rangeOutOfBounds range buffer.lenBytes)
  else do
    buffer.validateOffset range.start
    buffer.validateOffset range.stop

def byteToChar (buffer : RopeBuffer) (offset : Nat) : Except BufferError Nat := do
  buffer.validateOffset offset
  return buffer.rope.byteToChar offset

def slice (buffer : RopeBuffer) (range : SourceRange) : Except BufferError Text := do
  let start ← buffer.byteToChar range.start
  let stop ← buffer.byteToChar range.stop
  if start > stop then
    throw (.invalidRange range)
  return buffer.rope.slice start stop

def text (buffer : RopeBuffer) (range : SourceRange) : Except BufferError Text :=
  buffer.slice range

/-- The CR left of an edit and the mirror character it now needs, when that differs from the
one the mirror holds.
-/
def leftReclassification (buffer : RopeBuffer) (startChar : Nat) (replacement : Text)
    (trailingIsLf : Bool) : Option (Nat × Char) :=
  if startChar = 0 then
    none
  else
    let left := startChar - 1
    if buffer.rope[left]? = some '\r' then
      let nowPaired :=
        if replacement.isEmpty then trailingIsLf else replacement.head? == some '\n'
      let desired := if nowPaired then '\r' else '\n'
      if buffer.lineMirror[left]? = some desired then none else some (left, desired)
    else
      none

/-- The mirror after replacing the characters from `startChar` to `endChar`. -/
def editedMirror (buffer : RopeBuffer) (startChar endChar : Nat) (replacement : Text) : Rope :=
  let trailingIsLf := buffer.rope[endChar]? == some '\n'
  let mirroredReplacement := mirrorBareCr replacement trailingIsLf
  let mirror := (buffer.lineMirror.remove startChar endChar).insert startChar mirroredReplacement
  match buffer.leftReclassification startChar replacement trailingIsLf with
  | some (left, desired) => (mirror.remove left (left + 1)).insert left [desired]
  | none => mirror

/-- The log entry of replacing `range` by `replacement` at `revision`. -/
def editDelta (revision : Nat) (range : SourceRange) (replacement : Text) : RevisionDelta where
  fromRevision := revision
  toRevision := revision + 1
  editedSourceRangeBefore := range
  editedSourceRangeAfter := ⟨range.start, range.start + utf8Len replacement⟩
  byteDelta := (utf8Len replacement : Int) - range.lenBytes

/-- Appends to the bounded log, dropping its oldest entry past the capacity. -/
def pushDelta (deltas : List RevisionDelta) (capacity : Nat) (delta : RevisionDelta)
    : List RevisionDelta :=
  let logged := deltas ++ [delta]
  if logged.length > capacity then logged.tail else logged

def editSummary (revision : Nat) (range : SourceRange) (replacement deleted : Text)
    : EditSummary where
  revisionBefore := revision
  revisionAfter := revision + 1
  rangeBefore := range
  rangeAfter := ⟨range.start, range.start + utf8Len replacement⟩
  insertedBytes := utf8Len replacement
  deletedBytes := utf8Len deleted
  inverse :=
    { range := ⟨range.start, range.start + utf8Len replacement⟩, replacement := deleted }
  delta := editDelta revision range replacement

/-- Replaces `range` by `replacement` in the rope and the mirror, and logs the delta. -/
def edit (buffer : RopeBuffer) (range : SourceRange) (replacement : Text)
    : Except BufferError (EditSummary × RopeBuffer) := do
  buffer.validateRange range
  let startChar := buffer.rope.byteToChar range.start
  let endChar := buffer.rope.byteToChar range.stop
  let deleted := buffer.rope.slice startChar endChar
  return (
    editSummary buffer.revision range replacement deleted,
    { buffer with
      rope := (buffer.rope.remove startChar endChar).insert startChar replacement
      lineMirror := buffer.editedMirror startChar endChar replacement
      revision := buffer.revision + 1
      deltas :=
        pushDelta buffer.deltas buffer.deltaCapacity
          (editDelta buffer.revision range replacement)
    })

def lineForOffset (buffer : RopeBuffer) (offset : Nat) : Except BufferError Nat := do
  let char ← buffer.byteToChar offset
  return buffer.lineMirror.charToLine char

def lineRange (buffer : RopeBuffer) (line : Nat) : Except BufferError SourceRange :=
  if line ≥ buffer.lineMirror.lenLines then
    .error (.invalidLineColumn line 0)
  else
    let startChar := buffer.lineMirror.lineToChar line
    let endChar :=
      if line + 1 < buffer.lineMirror.lenLines then
        buffer.lineMirror.lineToChar (line + 1)
      else
        buffer.lineMirror.lenChars
    .ok ⟨buffer.rope.charToByte startChar, buffer.rope.charToByte endChar⟩

/-- The number of characters of a line left once its trailing line ending is dropped, read
from the rope and never from the mirror.
-/
def contentChars (rope : Rope) (startChar lineChars : Nat) : Nat :=
  if lineChars > 0 then
    match rope[startChar + lineChars - 1]? with
    | some '\n' =>
        let content := lineChars - 1
        if content > 0 ∧ rope[startChar + content - 1]? = some '\r' then
          content - 1
        else
          content
    | some '\r' => lineChars - 1
    | _ => lineChars
  else
    lineChars

def lineContentRange (buffer : RopeBuffer) (line : Nat) : Except BufferError SourceRange := do
  let range ← buffer.lineRange line
  let startChar := buffer.rope.byteToChar range.start
  let lineChars := buffer.rope.byteToChar range.stop - startChar
  let content := contentChars buffer.rope startChar lineChars
  return ⟨range.start, buffer.rope.charToByte (startChar + content)⟩

def offsetForLineCol (buffer : RopeBuffer) (line col : Nat) : Except BufferError Nat := do
  let contentRange ← buffer.lineContentRange line
  let startChar := buffer.rope.byteToChar contentRange.start
  let contentChars := buffer.rope.byteToChar contentRange.stop - startChar
  if col > contentChars then
    throw (.invalidLineColumn line col)
  return buffer.rope.charToByte (startChar + col)

/-- `char::len_utf16`. -/
def lenUtf16 (c : Char) : Nat := if c.toNat < 0x10000 then 1 else 2

def byteToUtf16 (buffer : RopeBuffer) (offset : Nat) : Except BufferError Nat := do
  let char ← buffer.byteToChar offset
  return ((buffer.rope.take char).map lenUtf16).sum

/-- The scan of `utf16ToByte`, from `utf16` units and `bytes` bytes already passed. -/
def utf16ToByteFrom (offset : Nat) : Text → Nat → Nat → Nat
  | [], _, bytes => bytes
  | c :: rest, utf16, bytes =>
      if utf16 ≥ offset ∨ offset < utf16 + lenUtf16 c then
        bytes
      else
        utf16ToByteFrom offset rest (utf16 + lenUtf16 c) (bytes + c.utf8Size)

def utf16ToByte (buffer : RopeBuffer) (offset : Nat) : Nat :=
  utf16ToByteFrom offset buffer.rope 0 0

def anchor (buffer : RopeBuffer) (offset : Nat) (bias : Bias) : Except BufferError Anchor := do
  buffer.validateOffset offset
  return { offset, bias }

/-- The edits after `revision`, oldest first. -/
def deltasSince (buffer : RopeBuffer) (revision : Nat)
    : Except BufferError (List RevisionDelta) :=
  let unavailable := .error (.revisionHistoryUnavailable revision buffer.revision)
  if revision = buffer.revision then
    .ok []
  else
    match buffer.deltas.head? with
    | none => unavailable
    | some first =>
        if revision < first.fromRevision ∨ revision > buffer.revision then
          unavailable
        else
          let result := buffer.deltas.filter (fun delta => delta.fromRevision ≥ revision)
          if result.head?.map (·.fromRevision) ≠ some revision
              ∨ result.getLast?.map (·.toRevision) ≠ some buffer.revision then
            unavailable
          else
            .ok result

def resolveAnchor (buffer : RopeBuffer) (anchor : Anchor) (fromRevision : Nat)
    : Except BufferError Nat := do
  if fromRevision = buffer.revision then
    buffer.validateOffset anchor.offset
    return anchor.offset
  let deltas ← buffer.deltasSince fromRevision
  let offset ←
    deltas.foldlM
      (fun offset delta =>
        match delta.transformOffset offset anchor.bias with
        | some moved => .ok moved
        | none => .error (.revisionHistoryUnavailable fromRevision buffer.revision))
      anchor.offset
  buffer.validateOffset offset
  return offset

end RopeBuffer

end Hane.Document
