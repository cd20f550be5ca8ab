import Hane.Editing.State

/-! Input method compositions: the marked text an input method keeps replacing until it is
committed or cancelled.
-/

namespace Hane.Editing

open Hane.Foundations Hane.Document

inductive ImeCancelOutcome where
  | restored
  | conflict
  | inactive
deriving DecidableEq

namespace ImeState

def begin (editor : Editor) (transactionId : Nat) (range : SourceRange)
    : Except BufferError ImeState := do
  let originalText ← editor.document.text range
  let startAnchor ← editor.document.anchor range.start .before
  let endAnchor ← editor.document.anchor range.stop .after
  return {
    baseRevision := editor.document.revision
    transactionId
    originalRange := range
    originalText
    currentRange := range
    markedRange := range
    markedText := []
    selectedUtf16Range := ⟨0, 0⟩
    cursorAffinity := .after
    startAnchor
    endAnchor
    originalSelection := editor.selection
    expectedRevision := editor.document.revision
  }

def update (ime : ImeState) (summary : EditSummary) (text : Text)
    (selectedUtf16 : Utf16Range) : ImeState :=
  { ime with
    currentRange := summary.rangeAfter
    markedRange := summary.rangeAfter
    markedText := text
    selectedUtf16Range := selectedUtf16
    expectedRevision := summary.revisionAfter }

end ImeState

/-- The bytes of `text` that a range of its UTF-16 units covers. -/
def utf16RangeToByte (text : Text) (range : Utf16Range) : SourceRange :=
  ⟨RopeBuffer.utf16ToByteFrom range.start text 0 0, RopeBuffer.utf16ToByteFrom range.stop text 0 0⟩

def encodeUtf16Count (text : Text) : Nat := (text.map RopeBuffer.lenUtf16).sum

namespace Editor

def utf16RangeToSource (editor : Editor) (range : Utf16Range)
    : Except BufferError SourceRange := do
  let source : SourceRange :=
    ⟨editor.document.utf16ToByte range.start, editor.document.utf16ToByte range.stop⟩
  editor.document.validateRange source
  return source

def editDocument (range : SourceRange) (text : Text) : EditorM EditSummary := fun editor =>
  match editor.document.edit range text with
  | .error problem => (.error problem, editor)
  | .ok (summary, document) => (.ok summary, { editor with document })

/-- The range an operation of the input method replaces: the open composition, else the
range the input method names, else the selection.
-/
def compositionTarget (replacementUtf16 : Option Utf16Range) : EditorM SourceRange := do
  let editor ← Stateful.read
  match editor.ime, replacementUtf16 with
  | some ime, _ => return ime.currentRange
  | none, some range => Stateful.query (utf16RangeToSource · range)
  | none, none => return editor.selection.range

def beginComposition (range : SourceRange) : EditorM Unit := do
  let editor ← Stateful.read
  match editor.ime with
  | some _ => return ()
  | none =>
      Stateful.modify ({ · with nextTransaction := editor.nextTransaction + 1 })
      let ime ← Stateful.query (ImeState.begin · editor.nextTransaction range)
      Stateful.modify ({ · with ime := some ime })

/-- Takes over an edit of the marked text: the composed range, and the selection within it.
-/
def marked (editor : Editor) (summary : EditSummary) (text : Text)
    (selectedUtf16 : Option Utf16Range) : Editor :=
  let selected := selectedUtf16.getD ⟨encodeUtf16Count text, encodeUtf16Count text⟩
  let relative := utf16RangeToByte text selected
  { editor with
    ime := editor.ime.map (·.update summary text selected)
    selection :=
      ⟨summary.rangeAfter.start + relative.start, summary.rangeAfter.start + relative.stop⟩ }

def replaceAndMarkText (replacementUtf16 : Option Utf16Range) (text : Text)
    (selectedUtf16 : Option Utf16Range) : EditorM EditSummary := do
  Stateful.modify ({ · with preferredGraphemeColumn := none })
  let current ← compositionTarget replacementUtf16
  beginComposition current
  let summary ← editDocument current text
  Stateful.modify (·.marked summary text selectedUtf16)
  return summary

def commitText (replacementUtf16 : Option Utf16Range) (text : Text) (clock : Clock)
    : EditorM EditSummary := do
  Stateful.modify ({ · with preferredGraphemeColumn := none })
  let range ← compositionTarget replacementUtf16
  let before ← Stateful.read
  Stateful.modify ({ · with ime := none })
  let summary ← editDocument range text
  let selectionAfter := Selection.caret summary.rangeAfter.stop
  Stateful.modify ({ · with selection := selectionAfter })
  match before.ime with
  | some ime =>
      Stateful.modify fun editor =>
        { editor with
          history :=
            editor.history.recordReplacement ime.originalRange.start ime.originalText text
              ime.originalSelection selectionAfter .ime clock.recorded }
  | none =>
      let kind := if before.selection.range.isEmpty then .insert else .replace
      Stateful.modify fun editor =>
        { editor with
          history :=
            editor.history.record summary text before.selection selectionAfter kind
              clock.received }
  return summary

/-- The editor once the open composition, if any, is one recorded replacement. -/
def commitComposition (editor : Editor) (now : Instant) : Editor :=
  match editor.ime with
  | none => editor
  | some ime =>
      { editor with
        ime := none
        history :=
          editor.history.recordReplacement ime.originalRange.start ime.originalText
            ime.markedText ime.originalSelection editor.selection .ime now }

/-- Drops the composition first, and restores the text only when the anchors still agree with
the composed range.
-/
def cancelComposition : EditorM ImeCancelOutcome := do
  let editor ← Stateful.read
  match editor.ime with
  | none => return .inactive
  | some ime =>
      Stateful.modify ({ · with ime := none })
      if editor.document.revision ≠ ime.expectedRevision then
        return .conflict
      let start ← Stateful.query (·.document.resolveAnchor ime.startAnchor ime.baseRevision)
      let stop ← Stateful.query (·.document.resolveAnchor ime.endAnchor ime.baseRevision)
      if start ≠ ime.currentRange.start ∨ stop ≠ ime.currentRange.stop then
        return .conflict
      let _ ← editDocument ime.currentRange ime.originalText
      Stateful.modify fun editor =>
        { editor with selection := ime.originalSelection, preferredGraphemeColumn := none }
      return .restored

end Editor

end Hane.Editing
