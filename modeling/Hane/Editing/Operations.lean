import Hane.Document.EditLog
import Hane.Editing.Dispatch

/-! The editor's operations as one step relation, and the frame each of them stays in. -/

namespace Hane.Editing

open Hane.Foundations Hane.Document

inductive Operation where
  | dispatch (command : EditorCommand)
  | setSelection (selection : Selection)
  | moveVerticalTo (target : Nat) (extend : Bool) (preferredX : Int)
  | replaceRangeRecorded (range : SourceRange) (replacement : Text) (selectionAfter : Selection)
  | replaceAndMarkText (replacementUtf16 : Option Utf16Range) (text : Text)
      (selectedUtf16 : Option Utf16Range)
  | commitText (replacementUtf16 : Option Utf16Range) (text : Text)
  | commitComposition
  | cancelComposition
deriving DecidableEq

/-- Runs an operation for what it leaves in the editor. -/
def Operation.run (unicode : Unicode) (clock : Clock) : Operation → EditorM Unit
  | .dispatch command => do let _ ← Editor.dispatch unicode command clock
  | .setSelection selection => Editor.setSelection selection clock
  | .moveVerticalTo target extend preferredX =>
      Editor.moveVerticalTo target extend preferredX clock
  | .replaceRangeRecorded range replacement selectionAfter => do
      let _ ← Editor.replaceRangeRecorded range replacement selectionAfter clock
  | .replaceAndMarkText replacementUtf16 text selectedUtf16 => do
      let _ ← Editor.replaceAndMarkText replacementUtf16 text selectedUtf16
  | .commitText replacementUtf16 text => do
      let _ ← Editor.commitText replacementUtf16 text clock
  | .commitComposition => Stateful.modify (Editor.commitComposition · clock.composed)
  | .cancelComposition => do let _ ← Editor.cancelComposition

/-- The two editors share the document, the composition and the history. -/
structure KeepsWork (before after : Editor) : Prop where
  document : after.document = before.document
  ime : after.ime = before.ime
  history : after.history = before.history

instance : Std.Refl KeepsWork := ⟨fun _ => ⟨rfl, rfl, rfl⟩⟩

instance : IsTrans Editor KeepsWork :=
  ⟨fun _ _ _ first second =>
    ⟨second.document.trans first.document, second.ime.trans first.ime,
      second.history.trans first.history⟩⟩

/-- The document changes by edits alone. -/
def EditsDocument (before after : Editor) : Prop :=
  RopeBuffer.Edits before.document after.document

instance : Std.Refl EditsDocument := ⟨fun _ => .refl⟩

instance : IsTrans Editor EditsDocument := ⟨fun _ _ _ first second => first.trans second⟩

theorem EditsDocument.of_eq {before after : Editor} (same : after.document = before.document)
    : EditsDocument before after := by
  unfold EditsDocument
  rw [same]

namespace Editor

open Stateful

variable (unicode : Unicode)

theorem moveTo_keepsWork (target : Nat) (extend : Bool)
    : Within KeepsWork (moveTo target extend) := by
  intro editor
  cases extend <;> exact ⟨rfl, rfl, rfl⟩

theorem moveGrapheme_keepsWork (right extend : Bool)
    : Within KeepsWork (moveGrapheme unicode right extend) :=
  Within.bind (Within.query _) fun target => moveTo_keepsWork target extend

theorem moveVertical_keepsWork (down extend : Bool)
    : Within KeepsWork (moveVertical unicode down extend) := by
  refine Within.bind Within.read fun editor => ?_
  refine Within.bind (Within.query _) fun currentLine => ?_
  refine Within.bind (Within.query _) fun currentRange => ?_
  refine Within.bind (Within.query _) fun currentPrefix => ?_
  refine Within.bind (Within.modify fun _ => ⟨rfl, rfl, rfl⟩) fun _ => ?_
  split
  · exact Within.pure _
  · refine Within.bind (Within.query _) fun targetRange => ?_
    exact Within.bind (Within.query _) fun targetText => moveTo_keepsWork _ extend

theorem moveToLineBoundary_keepsWork (toEnd extend : Bool)
    : Within KeepsWork (moveToLineBoundary toEnd extend) :=
  Within.bind Within.read fun _ => Within.bind (Within.query _) fun _ =>
    Within.bind (Within.query _) fun _ => moveTo_keepsWork _ extend

theorem moveWord_keepsWork (forward : Bool) (stop : ForwardStop) (extend : Bool)
    : Within KeepsWork (moveWord unicode forward stop extend) :=
  Within.bind (Within.query _) fun target => moveTo_keepsWork target extend

theorem moveParagraph_keepsWork (forward : Bool) (stop : ForwardStop) (extend : Bool)
    : Within KeepsWork (moveParagraph forward stop extend) :=
  Within.bind (Within.query _) fun target => moveTo_keepsWork target extend

/-- The commands that only move the caret or the selection. -/
def moves : EditorCommand → Bool
  | .insert _ | .backspace | .delete | .deleteWord _ _ | .undo | .redo => false
  | _ => true

/-- A command that only moves keeps the work, by case on the command. -/
theorem perform_keepsWork {command : EditorCommand} (moving : moves command = true)
    (received : Instant)
    : Within KeepsWork (perform unicode received command) := by
  cases command with
  | insert | backspace | delete | deleteWord | undo | redo => cases moving
  | moveLeft extend =>
      exact Within.bind (moveGrapheme_keepsWork unicode false extend) fun _ => Within.pure _
  | moveRight extend =>
      exact Within.bind (moveGrapheme_keepsWork unicode true extend) fun _ => Within.pure _
  | moveUp extend =>
      exact Within.bind (moveVertical_keepsWork unicode false extend) fun _ => Within.pure _
  | moveDown extend =>
      exact Within.bind (moveVertical_keepsWork unicode true extend) fun _ => Within.pure _
  | moveToStart extend => exact Within.bind (moveTo_keepsWork 0 extend) fun _ => Within.pure _
  | moveToEnd extend =>
      exact Within.bind Within.read fun _ =>
        Within.bind (moveTo_keepsWork _ extend) fun _ => Within.pure _
  | moveToLineStart extend =>
      exact Within.bind (moveToLineBoundary_keepsWork false extend) fun _ => Within.pure _
  | moveToLineEnd extend =>
      exact Within.bind (moveToLineBoundary_keepsWork true extend) fun _ => Within.pure _
  | moveWord forward stop extend =>
      exact Within.bind (moveWord_keepsWork unicode forward stop extend) fun _ => Within.pure _
  | moveParagraph forward stop extend =>
      exact Within.bind (moveParagraph_keepsWork forward stop extend) fun _ => Within.pure _
  | selectAll =>
      exact Within.bind (Within.modify fun _ => ⟨rfl, rfl, rfl⟩) fun _ => Within.pure _

theorem editDocument_editsDocument (range : SourceRange) (text : Text)
    : Within EditsDocument (editDocument range text) := by
  intro editor
  unfold editDocument
  cases edited : editor.document.edit range text with
  | error problem => exact .of_eq rfl
  | ok outcome => exact .single ⟨range, text, outcome.1, edited⟩

theorem replaceSelectionRecordedFrom_editsDocument (text : Text) (selectionBefore : Selection)
    (kind : EditKind) (now : Instant)
    : Within EditsDocument (replaceSelectionRecordedFrom text selectionBefore kind now) := by
  refine Within.bind ?_ fun summary => ?_
  · exact Within.bind Within.read fun _ =>
      Within.bind (editDocument_editsDocument _ _) fun _ =>
        Within.bind (Within.modify fun _ => .of_eq rfl) fun _ => Within.pure _
  · exact Within.bind (Within.modify fun _ => .of_eq rfl) fun _ => Within.pure _

theorem deleteSelected_editsDocument (target : Editor → Except BufferError Nat)
    (select : Selection → Nat → Selection) (kind : EditKind) (now : Instant)
    : Within EditsDocument (deleteSelected target select kind now) := by
  have deletes (selection : Selection)
      : Within EditsDocument (do
          let summary ← replaceSelectionRecordedFrom [] selection kind now
          return some summary) :=
    Within.bind (replaceSelectionRecordedFrom_editsDocument _ _ _ _) fun _ => Within.pure _
  refine Within.bind Within.read fun editor => ?_
  split
  · refine Within.bind (Within.query _) fun reached => ?_
    split
    · exact Within.pure _
    · exact Within.bind (Within.modify fun _ => .of_eq rfl) fun _ => deletes _
  · exact deletes _

theorem undo_editsDocument : Within EditsDocument undo := by
  intro editor
  unfold undo restore History.undo
  cases stack : editor.history.undoStack with
  | nil => exact .of_eq rfl
  | cons entry rest =>
      cases edited : entry.undo editor.document with
      | error problem => simp only [edited]; exact .of_eq rfl
      | ok outcome => simp only [edited]; exact .single ⟨_, _, outcome.1, edited⟩

theorem redo_editsDocument : Within EditsDocument redo := by
  intro editor
  unfold redo restore History.redo
  cases stack : editor.history.redoStack with
  | nil => exact .of_eq rfl
  | cons entry rest =>
      cases edited : entry.redo editor.document with
      | error problem => simp only [edited]; exact .of_eq rfl
      | ok outcome => simp only [edited]; exact .single ⟨_, _, outcome.1, edited⟩

/-- Every command changes the document by edits alone, by case on the command. -/
theorem perform_editsDocument (received : Instant) (command : EditorCommand)
    : Within EditsDocument (perform unicode received command) := by
  cases moving : moves command with
  | true =>
      exact (perform_keepsWork unicode moving received).mono fun _ _ keeps =>
        .of_eq keeps.document
  | false =>
      cases command with
      | insert text =>
          exact Within.bind (Within.bind Within.read fun _ =>
            replaceSelectionRecordedFrom_editsDocument _ _ _ _) fun _ => Within.pure _
      | backspace =>
          unfold perform backspace
          exact deleteSelected_editsDocument _ _ _ _
      | delete =>
          unfold perform delete
          exact deleteSelected_editsDocument _ _ _ _
      | deleteWord forward stop =>
          unfold perform deleteWord
          exact deleteSelected_editsDocument _ _ _ _
      | undo => exact undo_editsDocument
      | redo => exact redo_editsDocument
      | _ => cases moving

theorem commitComposition_document (editor : Editor) (now : Instant)
    : (editor.commitComposition now).document = editor.document := by
  unfold commitComposition
  cases editor.ime <;> rfl

theorem compositionTarget_editsDocument (replacementUtf16 : Option Utf16Range)
    : Within EditsDocument (compositionTarget replacementUtf16) := by
  refine Within.bind Within.read fun editor => ?_
  split
  · exact Within.pure _
  · exact Within.query _
  · exact Within.pure _

theorem beginComposition_editsDocument (range : SourceRange)
    : Within EditsDocument (beginComposition range) := by
  refine Within.bind Within.read fun editor => ?_
  split
  · exact Within.pure _
  · exact Within.bind (Within.modify fun _ => .of_eq rfl) fun _ =>
      Within.bind (Within.query _) fun _ => Within.modify fun _ => .of_eq rfl

theorem replaceAndMarkText_editsDocument (replacementUtf16 : Option Utf16Range) (text : Text)
    (selectedUtf16 : Option Utf16Range)
    : Within EditsDocument (replaceAndMarkText replacementUtf16 text selectedUtf16) :=
  Within.bind (Within.modify fun _ => .of_eq rfl) fun _ =>
    Within.bind (compositionTarget_editsDocument _) fun _ =>
      Within.bind (beginComposition_editsDocument _) fun _ =>
        Within.bind (editDocument_editsDocument _ _) fun _ =>
          Within.bind (Within.modify fun _ => .of_eq rfl) fun _ => Within.pure _

theorem commitText_editsDocument (replacementUtf16 : Option Utf16Range) (text : Text)
    (clock : Clock) : Within EditsDocument (commitText replacementUtf16 text clock) := by
  refine Within.bind (Within.modify fun _ => .of_eq rfl) fun _ => ?_
  refine Within.bind (compositionTarget_editsDocument _) fun range => ?_
  refine Within.bind Within.read fun before => ?_
  refine Within.bind (Within.modify fun _ => .of_eq rfl) fun _ => ?_
  refine Within.bind (editDocument_editsDocument _ _) fun summary => ?_
  refine Within.bind (Within.modify fun _ => .of_eq rfl) fun _ => ?_
  split <;> exact Within.bind (Within.modify fun _ => .of_eq rfl) fun _ => Within.pure _

theorem cancelComposition_editsDocument : Within EditsDocument cancelComposition := by
  refine Within.bind Within.read fun editor => ?_
  split
  · exact Within.pure _
  · refine Within.bind (Within.modify fun _ => .of_eq rfl) fun _ => ?_
    split
    · exact Within.pure _
    · refine Within.bind (Within.query _) fun start => ?_
      refine Within.bind (Within.query _) fun stop => ?_
      split
      · exact Within.pure _
      · exact Within.bind (editDocument_editsDocument _ _) fun _ =>
          Within.bind (Within.modify fun _ => .of_eq rfl) fun _ => Within.pure _

end Editor

/-- Every operation changes the document by edits alone, also when it fails, by case on the
operation.
-/
theorem Operation.run_editsDocument (unicode : Unicode) (clock : Clock) (operation : Operation)
    : Stateful.Within EditsDocument (operation.run unicode clock) := by
  open Stateful Editor in
  have committed : Within EditsDocument
      (modify (Editor.commitComposition · clock.composed) : EditorM Unit) :=
    Within.modify fun editor => .of_eq (commitComposition_document editor _)
  have broken : Within EditsDocument (modify breakGroup : EditorM Unit) :=
    Within.modify fun _ => .of_eq rfl
  have cleared : Within EditsDocument (modify clearColumns : EditorM Unit) :=
    Within.modify fun _ => .of_eq rfl
  cases operation with
  | dispatch command =>
      refine Within.bind ?_ fun _ => Within.pure _
      refine Within.bind (Within.modify fun _ => ?_) fun _ => ?_
      · split <;> exact .of_eq rfl
      refine Within.bind committed fun _ => Within.bind (Within.modify fun _ => ?_) fun _ => ?_
      · split <;> exact .of_eq rfl
      exact perform_editsDocument unicode _ command
  | setSelection selection =>
      exact Within.bind broken fun _ => Within.bind committed fun _ =>
        Within.bind (Within.query _) fun _ => Within.bind (Within.query _) fun _ =>
          Within.bind (Within.modify fun _ => .of_eq rfl) fun _ => cleared
  | moveVerticalTo target extend preferredX =>
      refine Within.bind broken fun _ => Within.bind committed fun _ =>
        Within.bind (Within.query _) fun _ => Within.bind ?_ fun _ => ?_
      · exact (moveTo_keepsWork target extend).mono fun _ _ keeps => .of_eq keeps.document
      · exact Within.modify fun _ => .of_eq rfl
  | replaceRangeRecorded range replacement selectionAfter =>
      refine Within.bind ?_ fun _ => Within.pure _
      refine Within.bind broken fun _ => Within.bind committed fun _ =>
        Within.bind (Within.query _) fun _ => Within.bind Within.read fun editor => ?_
      simp only
      split
      · exact Within.fail _
      · split
        · exact Within.fail _
        · exact Within.bind (editDocument_editsDocument _ _) fun _ =>
            Within.bind (Within.modify fun _ => .of_eq rfl) fun _ =>
              Within.bind cleared fun _ =>
                Within.bind (Within.modify fun _ => .of_eq rfl) fun _ => Within.pure _
  | replaceAndMarkText replacementUtf16 text selectedUtf16 =>
      exact Within.bind (replaceAndMarkText_editsDocument _ _ _) fun _ => Within.pure _
  | commitText replacementUtf16 text =>
      exact Within.bind (commitText_editsDocument _ _ _) fun _ => Within.pure _
  | commitComposition => exact committed
  | cancelComposition =>
      exact Within.bind cancelComposition_editsDocument fun _ => Within.pure _

/-- One operation, whether it succeeds or fails, at any clock readings. -/
def Stepped (unicode : Unicode) (before after : Editor) : Prop :=
  ∃ operation clock, (Operation.run unicode clock operation before).2 = after

/-- Any editor an operation sequence can lead to, from any document edits can lead to. -/
def Reached (unicode : Unicode) (editor : Editor) : Prop :=
  ∃ chunks document,
    RopeBuffer.Edits (RopeBuffer.fromRope chunks) document
    ∧ Relation.ReflTransGen (Stepped unicode) (Editor.fromDocument document) editor

/-- A reached editor's document is an edited one, by induction on the operations. -/
theorem Reached.edits {unicode : Unicode} {editor : Editor} (reached : Reached unicode editor)
    : ∃ chunks, RopeBuffer.Edits (RopeBuffer.fromRope chunks) editor.document := by
  obtain ⟨chunks, document, edits, steps⟩ := reached
  refine ⟨chunks, ?_⟩
  induction steps with
  | refl => exact edits
  | tail _ stepped ih =>
      obtain ⟨operation, clock, rfl⟩ := stepped
      exact ih.trans (operation.run_editsDocument unicode clock _)

end Hane.Editing
