import Hane.Foundations.Stateful
import Hane.Editing.History

/-! The editor's state, and the Unicode segmentation it takes from outside. -/

namespace Hane.Editing

open Hane.Foundations Hane.Document

/-- Segmentation by user-perceived characters and by words, with the character class that
separates words from gaps. Both segmentations cut a text into non-empty pieces in order.
-/
structure Unicode where
  graphemes : Text → List Text
  wordBounds : Text → List Text
  isAlphanumeric : Char → Bool
  graphemes_flatten : ∀ text, (graphemes text).flatten = text
  graphemes_ne_nil : ∀ text, ∀ piece ∈ graphemes text, piece ≠ []
  wordBounds_flatten : ∀ text, (wordBounds text).flatten = text
  wordBounds_ne_nil : ∀ text, ∀ piece ∈ wordBounds text, piece ≠ []

private theorem flatten_map_singleton (text : Text) : (text.map ([·])).flatten = text := by
  induction text with
  | nil => rfl
  | cons c text ih => exact congrArg (List.cons c) ih

/-- Every character is its own segment, and only ASCII letters and digits form words. -/
def Unicode.ascii : Unicode where
  graphemes text := text.map ([·])
  wordBounds text := text.map ([·])
  isAlphanumeric := Char.isAlphanum
  graphemes_flatten := flatten_map_singleton
  graphemes_ne_nil text piece member := by
    obtain ⟨c, _, rfl⟩ := List.mem_map.mp member
    exact List.cons_ne_nil c []
  wordBounds_flatten := flatten_map_singleton
  wordBounds_ne_nil text piece member := by
    obtain ⟨c, _, rfl⟩ := List.mem_map.mp member
    exact List.cons_ne_nil c []

/-- Segments with the byte offset each starts at, as `grapheme_indices` and
`split_word_bound_indices` report them.
-/
def segmentIndices (offset : Nat) : List Text → List (Nat × Text)
  | [] => []
  | segment :: rest => (offset, segment) :: segmentIndices (offset + utf8Len segment) rest

/-- A half-open range of UTF-16 units. -/
structure Utf16Range where
  start : Nat
  stop : Nat
deriving DecidableEq

structure ImeState where
  baseRevision : Nat
  transactionId : Nat
  originalRange : SourceRange
  originalText : Text
  currentRange : SourceRange
  markedRange : SourceRange
  markedText : Text
  selectedUtf16Range : Utf16Range
  cursorAffinity : Bias
  startAnchor : Anchor
  endAnchor : Anchor
  originalSelection : Selection
  expectedRevision : Nat
deriving DecidableEq

/-- `preferredVisualX` holds a coordinate that is stored and never computed with. -/
structure Editor where
  document : RopeBuffer
  selection : Selection
  preferredGraphemeColumn : Option Nat
  preferredVisualX : Option Int
  ime : Option ImeState
  nextTransaction : Nat
  history : History
deriving DecidableEq

/-- A method on the editor that may stop with a buffer error. -/
abbrev EditorM := Stateful Editor BufferError

namespace Editor

def fromDocument (document : RopeBuffer) : Editor where
  document
  selection := Selection.caret 0
  preferredGraphemeColumn := none
  preferredVisualX := none
  ime := none
  nextTransaction := 1
  history := History.empty

def new (text : Text) : Editor := fromDocument (RopeBuffer.fromText text)

def text (editor : Editor) : Text := editor.document.fullText

def canUndo (editor : Editor) : Bool := editor.history.canUndo

def canRedo (editor : Editor) : Bool := editor.history.canRedo

end Editor

/-- The clock readings one operation takes: when it is received, when it commits a composition
still open, and when it records its own replacement.
-/
structure Clock where
  received : Instant
  composed : Instant
  recorded : Instant
deriving DecidableEq

end Hane.Editing
