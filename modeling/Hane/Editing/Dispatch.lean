import Hane.Editing.Composition
import Hane.Editing.Movement

/-! The editor's commands. -/

namespace Hane.Editing

open Hane.Foundations Hane.Document

inductive EditorCommand where
  | insert (text : Text)
  | backspace
  | delete
  | moveLeft (extend : Bool)
  | moveRight (extend : Bool)
  | moveUp (extend : Bool)
  | moveDown (extend : Bool)
  | moveToStart (extend : Bool)
  | moveToEnd (extend : Bool)
  | moveToLineStart (extend : Bool)
  | moveToLineEnd (extend : Bool)
  | moveWord (forward : Bool) (stop : ForwardStop) (extend : Bool)
  | moveParagraph (forward : Bool) (stop : ForwardStop) (extend : Bool)
  | deleteWord (forward : Bool) (stop : ForwardStop)
  | selectAll
  | undo
  | redo
deriving DecidableEq

namespace EditorCommand

/-- Whether the latest undo group stays open across the command. -/
def keepsGroup : EditorCommand → Bool
  | .insert _ | .backspace | .delete => true
  | _ => false

def keepsColumn : EditorCommand → Bool
  | .moveUp _ | .moveDown _ => true
  | _ => false

end EditorCommand

namespace Editor

variable (unicode : Unicode)

def breakGroup (editor : Editor) : Editor :=
  { editor with history := editor.history.breakGroup }

def clearColumns (editor : Editor) : Editor :=
  { editor with preferredGraphemeColumn := none, preferredVisualX := none }

def replaceSelection (text : Text) : EditorM EditSummary := do
  let editor ← Stateful.read
  let summary ← editDocument editor.selection.range text
  Stateful.modify ({ · with selection := Selection.caret summary.rangeAfter.stop })
  return summary

def replaceSelectionRecordedFrom (text : Text) (selectionBefore : Selection)
    (kind : EditKind) (now : Instant) : EditorM EditSummary := do
  let summary ← replaceSelection text
  Stateful.modify fun editor =>
    { editor with
      history :=
        editor.history.record summary text selectionBefore editor.selection kind now }
  return summary

def replaceSelectionRecorded (text : Text) (kind : EditKind) (now : Instant)
    : EditorM EditSummary := do
  let editor ← Stateful.read
  replaceSelectionRecordedFrom text editor.selection kind now

/-- Deletes the selection, or what `select` turns an empty one into when the position that
`target` reports differs from the caret.
-/
def deleteSelected (target : Editor → Except BufferError Nat)
    (select : Selection → Nat → Selection) (kind : EditKind) (now : Instant)
    : EditorM (Option EditSummary) := do
  let editor ← Stateful.read
  if editor.selection.range.isEmpty then
    let reached ← Stateful.query target
    if reached = editor.selection.active then
      return none
    Stateful.modify ({ · with selection := select editor.selection reached })
  let summary ← replaceSelectionRecordedFrom [] editor.selection kind now
  return some summary

def backspace (now : Instant) : EditorM (Option EditSummary) :=
  deleteSelected (fun editor => editor.previousGrapheme unicode editor.selection.active)
    (fun selection previous => { selection with anchor := previous }) .backspace now

def delete (now : Instant) : EditorM (Option EditSummary) :=
  deleteSelected (fun editor => editor.nextGrapheme unicode editor.selection.active)
    (fun selection next => { selection with active := next }) .delete now

def deleteWord (forward : Bool) (stop : ForwardStop) (now : Instant)
    : EditorM (Option EditSummary) :=
  deleteSelected (fun editor => editor.wordTarget unicode editor.selection.active forward stop)
    (fun selection target => ⟨selection.active, target⟩) .replace now

/-- Runs `History.undo` or `History.redo` on the document and takes over the selection it
reports.
-/
def restore
    (revert :
      History → RopeBuffer
      → Except BufferError (Option (EditSummary × Selection)) × History × RopeBuffer)
    : EditorM (Option EditSummary) := fun editor =>
  match revert editor.history editor.document with
  | (.error problem, history, document) => (.error problem, { editor with history, document })
  | (.ok none, history, document) => (.ok none, { editor with history, document })
  | (.ok (some (summary, selection)), history, document) =>
      (.ok (some summary), { editor with history, document, selection })

def undo : EditorM (Option EditSummary) := restore History.undo

def redo : EditorM (Option EditSummary) := restore History.redo

/-- What a command does once the open composition is committed. -/
def perform (received : Instant) : EditorCommand → EditorM (Option EditSummary)
  | .insert text => some <$> replaceSelectionRecorded text .insert received
  | .backspace => backspace unicode received
  | .delete => delete unicode received
  | .moveLeft extend => do moveGrapheme unicode false extend; return none
  | .moveRight extend => do moveGrapheme unicode true extend; return none
  | .moveUp extend => do moveVertical unicode false extend; return none
  | .moveDown extend => do moveVertical unicode true extend; return none
  | .moveToStart extend => do moveTo 0 extend; return none
  | .moveToEnd extend => do
      let editor ← Stateful.read
      moveTo editor.document.lenBytes extend
      return none
  | .moveToLineStart extend => do moveToLineBoundary false extend; return none
  | .moveToLineEnd extend => do moveToLineBoundary true extend; return none
  | .moveWord forward stop extend => do moveWord unicode forward stop extend; return none
  | .moveParagraph forward stop extend => do moveParagraph forward stop extend; return none
  | .deleteWord forward stop => deleteWord unicode forward stop received
  | .selectAll => do
      Stateful.modify fun editor =>
        { editor with selection := ⟨0, editor.document.lenBytes⟩ }
      return none
  | .undo => undo
  | .redo => redo

def dispatch (command : EditorCommand) (clock : Clock) : EditorM (Option EditSummary) := do
  Stateful.modify fun editor => if command.keepsGroup then editor else editor.breakGroup
  Stateful.modify (commitComposition · clock.composed)
  Stateful.modify fun editor => if command.keepsColumn then editor else editor.clearColumns
  perform unicode clock.received command

def setSelection (selection : Selection) (clock : Clock) : EditorM Unit := do
  Stateful.modify breakGroup
  Stateful.modify (commitComposition · clock.composed)
  Stateful.query (·.document.validateOffset selection.anchor)
  Stateful.query (·.document.validateOffset selection.active)
  Stateful.modify ({ · with selection })
  Stateful.modify clearColumns

def moveVerticalTo (target : Nat) (extend : Bool) (preferredX : Int) (clock : Clock)
    : EditorM Unit := do
  Stateful.modify breakGroup
  Stateful.modify (commitComposition · clock.composed)
  Stateful.query (·.document.validateOffset target)
  moveTo target extend
  Stateful.modify
    ({ · with preferredGraphemeColumn := none, preferredVisualX := some preferredX })

/-- Replaces a range the caller planned as one undo step. A selection past the end of the new
text is refused before anything is edited.
-/
def replaceRangeRecorded (range : SourceRange) (replacement : Text)
    (selectionAfter : Selection) (clock : Clock) : EditorM EditSummary := do
  Stateful.modify breakGroup
  Stateful.modify (commitComposition · clock.composed)
  Stateful.query (·.document.validateRange range)
  let editor ← Stateful.read
  let nextLen := editor.document.lenBytes - range.lenBytes + utf8Len replacement
  if selectionAfter.anchor > nextLen then
    Stateful.fail (.offsetOutOfBounds selectionAfter.anchor nextLen)
  else if selectionAfter.active > nextLen then
    Stateful.fail (.offsetOutOfBounds selectionAfter.active nextLen)
  else
    let summary ← editDocument range replacement
    Stateful.modify ({ · with selection := selectionAfter })
    Stateful.modify clearColumns
    Stateful.modify fun current =>
      { current with
        history :=
          current.history.recordReplacement summary.rangeBefore.start
            summary.inverse.replacement replacement editor.selection selectionAfter .replace
            clock.recorded }
    return summary

end Editor

end Hane.Editing
