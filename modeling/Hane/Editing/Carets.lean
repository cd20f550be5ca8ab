import Hane.Editing.Accounting
import Hane.Editing.Targets

/-! Both ends of the selection stay on character boundaries through every operation. -/

namespace Hane.Editing

open Hane.Foundations Hane.Document RopeBuffer Stateful

/-- Both ends are boundaries of the text. -/
structure Fits (text : Text) (selection : Selection) : Prop where
  anchor : Boundary text selection.anchor
  active : Boundary text selection.active

theorem Fits.caret {text : Text} {offset : Nat} (boundary : Boundary text offset)
    : Fits text (Selection.caret offset) :=
  ⟨boundary, boundary⟩

theorem Fits.range {text : Text} {selection : Selection} (fits : Fits text selection)
    : Boundary text selection.range.start ∧ Boundary text selection.range.stop := by
  simp only [Selection.range]
  rcases Nat.le_total selection.anchor selection.active with forward | backward
  · rw [Nat.min_eq_left forward, Nat.max_eq_right forward]
    exact ⟨fits.anchor, fits.active⟩
  · rw [Nat.min_eq_right backward, Nat.max_eq_left backward]
    exact ⟨fits.active, fits.anchor⟩

theorem Fits.reads {buffer : RopeBuffer} {selection : Selection}
    (fits : Fits buffer.rope selection)
    : buffer.ReadsRange selection.range :=
  ⟨Nat.le_trans (Nat.min_le_left _ _) (Nat.le_max_left _ _), fits.range.1, fits.range.2⟩

/-- The entry leads from one text to the other, with selections that fit each. -/
structure HistoryEntry.Restores (entry : HistoryEntry) (before after : Text) : Prop where
  recorded : HistoryEntry.Recorded Fits entry before after
  selectionAfter : Fits after entry.selectionAfter

theorem HistoryEntry.Restores.tryMerge {entry next merged : HistoryEntry}
    {before middle after : Text} (first : entry.Restores before middle)
    (second : next.Restores middle after) (merges : entry.tryMerge next = some merged)
    : merged.Restores before after := by
  obtain ⟨applies, selection⟩ := first.recorded.1.tryMerge second.recorded.1 merges
  refine ⟨⟨applies, selection ▸ first.recorded.2⟩, ?_⟩
  unfold HistoryEntry.tryMerge at merges
  split at merges
  · cases merges
  · obtain ⟨edit, -, rfl⟩ := Option.map_eq_some_iff.mp merges
    exact second.selectionAfter

/-- Both stacks lead from text to text with selections that fit. -/
structure History.Fitting (initial : Text) (history : History) (now : Text) : Prop where
  past : Spans HistoryEntry.Restores initial history.undoStack now
  future : ∃ final, Continues HistoryEntry.Restores now history.redoStack final

section Fitting

variable {initial now : Text} {history : History}

theorem History.Fitting.breakGroup (fitting : history.Fitting initial now)
    : history.breakGroup.Fitting initial now :=
  ⟨fitting.past, fitting.future⟩

theorem History.Fitting.record {document edited : RopeBuffer} {range : SourceRange}
    {inserted : Text} {summary : EditSummary} {selectionBefore selectionAfter : Selection}
    (fitting : history.Fitting initial document.rope)
    (edit : document.edit range inserted = .ok (summary, edited))
    (before : Fits document.rope selectionBefore) (after : Fits edited.rope selectionAfter)
    (kind : EditKind) (now : Instant)
    : (history.record summary inserted selectionBefore selectionAfter kind now).Fitting initial
        edited.rope where
  past := by
    apply History.spans_pushOrMerge ?_ fitting.past
      ⟨⟨HistoryEntry.Applies.fromSummary edit _ _ _ _, before⟩, after⟩
    exact fun previous merged before latest restores merges => latest.tryMerge restores merges
  future := ⟨edited.rope, .nil _⟩

theorem History.Fitting.recordReplacement {after deleted inserted : Text} {start : Nat}
    {selectionBefore selectionAfter : Selection} {kind : EditKind} {instant : Instant}
    (fitting : history.Fitting initial now)
    (restores :
      HistoryEntry.Restores
        ⟨start, deleted, inserted, selectionBefore, selectionAfter, kind, instant⟩ now after)
    : (history.recordReplacement start deleted inserted selectionBefore selectionAfter kind
        instant).Fitting initial after where
  past := fitting.past.cons restores
  future := ⟨after, .nil after⟩

end Fitting

/-- Every selection the editor keeps fits its text: the present one, the one the open
composition would restore, and those of the history.
-/
structure Fit (editor : Editor) : Prop where
  edits : ∃ chunks, RopeBuffer.Edits (RopeBuffer.fromRope chunks) editor.document
  selection : Fits editor.text editor.selection
  history : ∃ initial settled, editor.history.Fitting initial settled ∧ Rests Fits settled editor

/-- The same with no open composition. -/
structure FitIdle (editor : Editor) : Prop where
  edits : ∃ chunks, RopeBuffer.Edits (RopeBuffer.fromRope chunks) editor.document
  selection : Fits editor.text editor.selection
  closed : editor.ime = none
  history : ∃ initial, editor.history.Fitting initial editor.text

section Fit

variable {editor final : Editor}

theorem mirrored_of_edits {document : RopeBuffer}
    (edits : ∃ chunks, RopeBuffer.Edits (RopeBuffer.fromRope chunks) document)
    : document.Mirrored := by
  obtain ⟨chunks, edits⟩ := edits
  exact (Mirrored.fromRope chunks).edits edits

theorem logged_of_edits {document : RopeBuffer}
    (edits : ∃ chunks, RopeBuffer.Edits (RopeBuffer.fromRope chunks) document)
    : ∃ full, Logged full document := by
  obtain ⟨chunks, edits⟩ := edits
  obtain ⟨later, logged⟩ := (Logged.fromRope chunks).edits edits
  exact ⟨_, logged⟩

theorem FitIdle.fit (idle : FitIdle editor) : Fit editor := by
  obtain ⟨full, logged⟩ := logged_of_edits idle.edits
  obtain ⟨initial, fitting⟩ := idle.history
  exact ⟨idle.edits, idle.selection, initial, editor.text, fitting, .idle idle.closed logged⟩

theorem Fit.idle (fit : Fit editor) (closed : editor.ime = none) : FitIdle editor := by
  obtain ⟨initial, settled, fitting, rests⟩ := fit.history
  refine ⟨fit.edits, fit.selection, closed, initial, ?_⟩
  cases rests with
  | idle => exact fitting
  | composing composing => exact absurd (composing.isOpen.symm.trans closed) nofun

theorem FitIdle.keepsWork (idle : FitIdle editor) (keeps : KeepsWork editor final)
    (selection : Fits editor.text final.selection)
    : FitIdle final := by
  obtain ⟨document, ime, history⟩ := keeps
  have text : final.text = editor.text := congrArg fullText document
  exact ⟨document ▸ idle.edits, text ▸ selection, ime.trans idle.closed,
    text ▸ history ▸ idle.history⟩

theorem Fit.commitComposition (fit : Fit editor) (now : Instant)
    : FitIdle (editor.commitComposition now) := by
  obtain ⟨initial, settled, fitting, rests⟩ := fit.history
  have document := Editor.commitComposition_document editor now
  have text := Editor.commitComposition_text editor now
  have selection := Editor.commitComposition_selection editor now
  cases rests with
  | idle closed logged =>
      unfold Editor.commitComposition
      rw [closed]
      exact fit.idle closed
  | composing composing known =>
      refine ⟨document ▸ fit.edits, text.symm ▸ selection.symm ▸ fit.selection, ?_, initial, ?_⟩
      · rw [Editor.commitComposition, composing.isOpen]
      · rw [text, Editor.commitComposition, composing.isOpen]
        obtain ⟨front, back, original, shows, start, -⟩ := composing.replaced
        exact fitting.recordReplacement
          ⟨⟨⟨front, back, original, shows, start⟩, known⟩, fit.selection⟩

theorem Fit.breakGroup (fit : Fit editor) : Fit editor.breakGroup := by
  obtain ⟨initial, settled, fitting, rests⟩ := fit.history
  refine ⟨fit.edits, fit.selection, initial, settled, fitting.breakGroup, ?_⟩
  cases rests with
  | idle closed logged =>
      have rests : Rests Fits editor.breakGroup.text editor.breakGroup := .idle closed logged
      exact rests
  | composing composing known => exact .composing (composing.of_keeps rfl rfl) known

-- Commands

theorem Editor.editDocument_reads {range : SourceRange} (edits : ∃ chunks,
      RopeBuffer.Edits (RopeBuffer.fromRope chunks) editor.document)
    (reads : editor.document.ReadsRange range) (text : Text)
    : ∃ summary document,
        editor.document.edit range text = .ok (summary, document)
        ∧ editDocument range text editor = (.ok summary, { editor with document })
        ∧ Boundary document.rope summary.rangeAfter.stop
        ∧ ∃ chunks, RopeBuffer.Edits (RopeBuffer.fromRope chunks) document := by
  obtain ⟨before, deleted, after, split, start, stop⟩ := reads.start.split reads.stop reads.ordered
  rw [List.append_assoc] at split
  obtain ⟨chunks, edits⟩ := edits
  obtain ⟨summary, document, edit, ran, rope, rangeAfter, -⟩ :=
    editDocument_append editor split text
  rw [stop, start] at edit ran
  refine ⟨summary, document, edit, ran, ?_, chunks, edits.tail ⟨_, _, _, edit⟩⟩
  have whole : document.rope = (before ++ text) ++ after := by
    rw [List.append_assoc]
    exact rope
  rw [rangeAfter, whole, ← utf8Len_append]
  exact .of_append _ _

theorem FitIdle.replaceSelectionRecordedFrom (idle : FitIdle editor) {selectionBefore : Selection}
    (before : Fits editor.text selectionBefore) (text : Text) (kind : EditKind) (now : Instant)
    : Achieves (fun _ => FitIdle)
        (Editor.replaceSelectionRecordedFrom text selectionBefore kind now) editor := by
  obtain ⟨summary, document, edit, ran, stop, edits⟩ :=
    Editor.editDocument_reads idle.edits idle.selection.reads text
  obtain ⟨initial, fitting⟩ := idle.history
  have after : Fits document.rope (Selection.caret summary.rangeAfter.stop) := .caret stop
  have recorded : FitIdle
      { editor with
        document
        selection := Selection.caret summary.rangeAfter.stop
        history :=
          editor.history.record summary text selectionBefore
            (Selection.caret summary.rangeAfter.stop) kind now } :=
    ⟨edits, after, idle.closed, initial, fitting.record edit before after kind now⟩
  refine ⟨summary, _, ?_, recorded⟩
  rw [Editor.replaceSelectionRecordedFrom, Editor.replaceSelection]
  simp only [bind_run, read_run, ran]
  rfl

theorem achieves_target {target : Editor → Except BufferError Nat}
    (reaches : Succeeds (Boundary editor.text) (target editor))
    : Achieves (fun reached state => state = editor ∧ Boundary editor.text reached)
        (Stateful.query target) editor :=
  .query (reaches.mono fun _ boundary => ⟨rfl, boundary⟩)

theorem FitIdle.deleteSelected (idle : FitIdle editor)
    {target : Editor → Except BufferError Nat} {select : Selection → Nat → Selection}
    (reaches : Succeeds (Boundary editor.text) (target editor))
    (selects : ∀ reached, Boundary editor.text reached
      → Fits editor.text (select editor.selection reached))
    (kind : EditKind) (now : Instant)
    : Achieves (fun _ => FitIdle) (Editor.deleteSelected target select kind now) editor := by
  have deletes {middle : Editor} (idle : FitIdle middle) (before : Fits middle.text editor.selection)
      : Achieves (fun _ => FitIdle) (do
          let summary ← Editor.replaceSelectionRecordedFrom [] editor.selection kind now
          return some summary) middle :=
    (idle.replaceSelectionRecordedFrom before [] kind now).bind fun _ _ idle => .pure idle
  rw [Editor.deleteSelected, Achieves, read_bind]
  split
  · refine (achieves_target reaches).bind ?_
    intro reached middle holds
    obtain ⟨rfl, boundary⟩ := holds
    split
    · exact .pure idle
    · have selected : FitIdle { middle with selection := select middle.selection reached } :=
        idle.keepsWork ⟨rfl, rfl, rfl⟩ (selects reached boundary)
      exact deletes selected idle.selection
  · exact deletes idle idle.selection

/-- Undoing gives back a selection that fits the text it gives back. -/
theorem FitIdle.undo (idle : FitIdle editor)
    : Achieves (fun _ => FitIdle) Editor.undo editor := by
  obtain ⟨initial, fitting⟩ := idle.history
  obtain ⟨final, continues⟩ := fitting.future
  have past := fitting.past
  have edited := Editor.undo_editsDocument editor
  cases stack : editor.history.undoStack with
  | nil =>
      refine ⟨none, editor.breakGroup, ?_, idle.edits, idle.selection, idle.closed, initial,
        fitting.breakGroup⟩
      unfold Editor.undo Editor.restore History.undo
      rw [stack]
      rfl
  | cons entry rest =>
      rw [stack] at past
      obtain ⟨before, older, restores⟩ := past.latest
      obtain ⟨summary, reverted, undone, rfl⟩ := Editor.undo_of_recorded stack restores.recorded
      rw [undone] at edited
      obtain ⟨chunks, edits⟩ := idle.edits
      exact ⟨some summary, _, undone, ⟨chunks, edits.trans edited⟩, restores.recorded.2,
        idle.closed, initial, older, final, continues.cons restores⟩

/-- Redoing gives back a selection that fits the text it leads to. -/
theorem FitIdle.redo (idle : FitIdle editor)
    : Achieves (fun _ => FitIdle) Editor.redo editor := by
  obtain ⟨initial, fitting⟩ := idle.history
  obtain ⟨final, continues⟩ := fitting.future
  have edited := Editor.redo_editsDocument editor
  cases stack : editor.history.redoStack with
  | nil =>
      refine ⟨none, editor.breakGroup, ?_, idle.edits, idle.selection, idle.closed, initial,
        fitting.breakGroup⟩
      unfold Editor.redo Editor.restore History.redo
      rw [stack]
      rfl
  | cons entry rest =>
      rw [stack] at continues
      obtain ⟨after, restores, onwards⟩ := continues.next
      obtain ⟨summary, repeated, redone, rfl⟩ := Editor.redo_of_recorded stack restores.recorded
      rw [redone] at edited
      obtain ⟨chunks, edits⟩ := idle.edits
      exact ⟨some summary, _, redone, ⟨chunks, edits.trans edited⟩, restores.selectionAfter,
        idle.closed, initial, fitting.past.cons restores, final, onwards⟩

theorem FitIdle.moveTo (idle : FitIdle editor) {target : Nat}
    (boundary : Boundary editor.text target) (extend : Bool)
    : Achieves (fun _ => FitIdle) (Editor.moveTo target extend) editor := by
  refine ⟨(), _, rfl, idle.keepsWork ?_ ?_⟩
  · cases extend <;> exact ⟨rfl, rfl, rfl⟩
  · cases extend with
    | true => exact ⟨idle.selection.anchor, boundary⟩
    | false => exact .caret boundary

theorem FitIdle.moveToQuery (idle : FitIdle editor) {target : Editor → Except BufferError Nat}
    (reaches : Succeeds (Boundary editor.text) (target editor)) (extend : Bool)
    : Achieves (fun _ => FitIdle)
        (do
          let reached ← Stateful.query target
          Editor.moveTo reached extend) editor := by
  refine (achieves_target reaches).bind ?_
  intro reached middle holds
  obtain ⟨rfl, boundary⟩ := holds
  exact idle.moveTo boundary extend

variable {unicode : Unicode}

theorem FitIdle.mirrored (idle : FitIdle editor) : editor.document.Mirrored :=
  mirrored_of_edits idle.edits

theorem FitIdle.graphemeTarget (idle : FitIdle editor) (right extend : Bool)
    : Succeeds (Boundary editor.text) (editor.graphemeTarget unicode right extend) := by
  obtain ⟨start, stop⟩ := idle.selection.range
  rw [Editor.graphemeTarget]
  split
  · cases right with
    | true => exact .pure stop
    | false => exact .pure start
  · split
    · exact Editor.nextGrapheme_succeeds idle.mirrored idle.selection.active
    · exact Editor.previousGrapheme_succeeds idle.mirrored idle.selection.active

theorem FitIdle.moveTarget (idle : FitIdle editor) {target : Editor → Nat → Except BufferError Nat}
    (reaches : Succeeds (Boundary editor.text) (target editor editor.selection.active))
    (forward extend : Bool)
    : Succeeds (Boundary editor.text) (editor.moveTarget forward extend target) := by
  obtain ⟨start, stop⟩ := idle.selection.range
  rw [Editor.moveTarget]
  cases collapsed : (editor.collapsedEdge forward).filter (fun _ => !extend) with
  | none => exact reaches
  | some edge =>
      have found : editor.collapsedEdge forward = some edge := (Option.filter_eq_some_iff.mp collapsed).1
      simp only [Editor.collapsedEdge] at found
      split at found
      · cases found
      · cases forward with
        | true => exact .pure (Option.some.inj found ▸ stop)
        | false => exact .pure (Option.some.inj found ▸ start)

theorem FitIdle.moveToLineBoundary (idle : FitIdle editor) (toEnd extend : Bool)
    : Achieves (fun _ => FitIdle) (Editor.moveToLineBoundary toEnd extend) editor := by
  obtain ⟨line, asked, inside, -⟩ := idle.mirrored.lineForOffset_reads idle.selection.active
  obtain ⟨range, found, reads⟩ := idle.mirrored.lineContentRange_reads inside
  rw [Editor.moveToLineBoundary, Achieves, read_bind]
  simp only [bind_run, query_run, asked, found]
  cases toEnd with
  | true => exact idle.moveTo reads.stop extend
  | false => exact idle.moveTo reads.start extend

/-- A vertical move ends at the preferred column of the line it leads to, if there is one. -/
theorem FitIdle.moveVertical (idle : FitIdle editor) (down extend : Bool)
    : Achieves (fun _ => FitIdle) (Editor.moveVertical unicode down extend) editor := by
  obtain ⟨line, asked, inside, range, found, reads, after, -⟩ :=
    idle.mirrored.lineForOffset_reads idle.selection.active
  obtain ⟨range', content, found', contentFound, -, readsContent, start⟩ :=
    idle.mirrored.readsLine inside
  obtain rfl := Except.ok.inj (found.symm.trans found')
  have part : editor.document.ReadsRange
      ⟨content.start, min editor.selection.active content.stop⟩ := by
    refine ⟨Nat.le_min.mpr ⟨start ▸ after, readsContent.ordered⟩, readsContent.start, ?_⟩
    rcases Nat.le_total editor.selection.active content.stop with before | before
    · rw [Nat.min_eq_left before]
      exact idle.selection.active
    · rw [Nat.min_eq_right before]
      exact readsContent.stop
  obtain ⟨currentPrefix, prefixRead, -⟩ := part.text
  rw [Editor.moveVertical, Achieves, read_bind]
  simp only [bind_run, query_run, asked, contentFound, prefixRead, modify_run]
  generalize editor.preferredGraphemeColumn.getD (unicode.graphemes currentPrefix).length = column
  have prepared : FitIdle { editor with preferredGraphemeColumn := some column } :=
    idle.keepsWork ⟨rfl, rfl, rfl⟩ idle.selection
  cases target : editor.verticalTarget line down with
  | none => exact ⟨(), _, rfl, prepared⟩
  | some targetLine =>
      have targetInside : targetLine < editor.document.lineCount := by
        rw [Editor.verticalTarget] at target
        split at target
        · split at target
          · cases target
          · have same := Option.some.inj target
            omega
        · split at target
          · cases target
          · have same := Option.some.inj target
            omega
      obtain ⟨targetRange, targetFound, targetReads⟩ :=
        idle.mirrored.lineContentRange_reads targetInside
      obtain ⟨targetText, targetRead, -, within⟩ := targetReads.text
      simp only [bind_run, query_run, targetFound, targetRead]
      refine prepared.moveTo ?_ extend
      refine Editor.segmentStart_boundary (unicode.graphemes_flatten targetText) within ?_
        (Boundary.utf8Len _)
      exact fun entry there => List.mem_of_getElem? there

/-- Every command succeeds, and leaves selections that fit, by case on the command. -/
theorem FitIdle.perform (idle : FitIdle editor) (received : Instant) (command : EditorCommand)
    : Achieves (fun _ => FitIdle) (Editor.perform unicode received command) editor := by
  have moving {program : EditorM Unit} (moves : Achieves (fun _ => FitIdle) program editor)
      : Achieves (fun _ => FitIdle) (do program; return (none : Option EditSummary)) editor :=
    moves.bind fun _ _ idle => .pure idle
  have whole : Boundary editor.text editor.document.lenBytes := Boundary.utf8Len _
  cases command with
  | insert text =>
      have replaces : Achieves (fun _ => FitIdle)
          (Editor.replaceSelectionRecorded text .insert received) editor := by
        rw [Editor.replaceSelectionRecorded, Achieves, read_bind]
        exact idle.replaceSelectionRecordedFrom idle.selection text .insert received
      exact replaces.bind fun _ _ idle => .pure idle
  | backspace =>
      rw [Editor.perform, Editor.backspace]
      apply idle.deleteSelected
      · exact Editor.previousGrapheme_succeeds idle.mirrored idle.selection.active
      · exact fun reached boundary => ⟨boundary, idle.selection.active⟩
  | delete =>
      rw [Editor.perform, Editor.delete]
      apply idle.deleteSelected
      · exact Editor.nextGrapheme_succeeds idle.mirrored idle.selection.active
      · exact fun reached boundary => ⟨idle.selection.anchor, boundary⟩
  | deleteWord forward stop =>
      rw [Editor.perform, Editor.deleteWord]
      apply idle.deleteSelected
      · exact Editor.wordTarget_succeeds idle.mirrored idle.selection.active
      · exact fun reached boundary => ⟨idle.selection.active, boundary⟩
  | moveLeft extend => exact moving (idle.moveToQuery (idle.graphemeTarget false extend) extend)
  | moveRight extend => exact moving (idle.moveToQuery (idle.graphemeTarget true extend) extend)
  | moveUp extend => exact moving (idle.moveVertical false extend)
  | moveDown extend => exact moving (idle.moveVertical true extend)
  | moveToStart extend => exact moving (idle.moveTo (.zero _) extend)
  | moveToEnd extend =>
      rw [Editor.perform, Achieves, read_bind]
      exact moving (idle.moveTo whole extend)
  | moveToLineStart extend => exact moving (idle.moveToLineBoundary false extend)
  | moveToLineEnd extend => exact moving (idle.moveToLineBoundary true extend)
  | moveWord forward stop extend =>
      apply moving
      apply idle.moveToQuery
      apply idle.moveTarget
      exact Editor.wordTarget_succeeds idle.mirrored idle.selection.active
  | moveParagraph forward stop extend =>
      apply moving
      apply idle.moveToQuery
      apply idle.moveTarget
      exact Editor.paragraphTarget_succeeds idle.mirrored idle.selection.active
  | selectAll =>
      exact ⟨none, _, rfl, idle.keepsWork ⟨rfl, rfl, rfl⟩ ⟨.zero _, whole⟩⟩
  | undo => exact idle.undo
  | redo => exact idle.redo

theorem Fit.dispatch (fit : Fit editor) (command : EditorCommand) (clock : Clock)
    : Achieves (fun _ => FitIdle) (Editor.dispatch unicode command clock) editor := by
  have broken : Fit (if command.keepsGroup then editor else editor.breakGroup) := by
    split
    · exact fit
    · exact fit.breakGroup
  have idle := broken.commitComposition clock.composed
  rw [Editor.dispatch, Achieves, modify_bind, modify_bind, modify_bind]
  split
  · exact idle.perform clock.received command
  · have cleared {idled : Editor} (idle : FitIdle idled) : FitIdle idled.clearColumns :=
      idle.keepsWork ⟨rfl, rfl, rfl⟩ idle.selection
    exact (cleared idle).perform clock.received command

end Fit

end Hane.Editing
