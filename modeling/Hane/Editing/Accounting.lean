import Hane.Editing.Composing
import Hane.Editing.Operations
import Hane.Editing.Transactions

/-! Every operation keeps the history accounting for the text: the text itself while nothing
is composed, and the text the open composition began with otherwise.
-/

namespace Hane.Editing

open Hane.Foundations Hane.Document RopeBuffer Stateful

/-- The text the history accounts for: the editor's own, or while a composition is open the
one it began with, seen with the selection it would restore.
-/
inductive Rests (seen : Text → Selection → Prop) : Text → Editor → Prop
  | idle {editor : Editor} {full : List RevisionDelta}
      : editor.ime = none → Logged full editor.document → Rests seen editor.text editor
  | composing {settled : Text} {count : Nat} {ime : ImeState} {editor : Editor}
      : Composing settled ime.markedText count ime editor
        → seen settled ime.originalSelection
        → Rests seen settled editor

/-- The history accounts for the text the editor rests on. -/
structure Sound (seen : Text → Selection → Prop) (initial settled : Text) (editor : Editor)
    : Prop where
  accounts : editor.history.Accounts seen initial settled
  rests : Rests seen settled editor

/-- Nothing is composed, and the history accounts for the text. -/
structure Idle (seen : Text → Selection → Prop) (initial : Text) (editor : Editor) : Prop where
  closed : editor.ime = none
  accounts : editor.history.Accounts seen initial editor.text
  logged : ∃ full, Logged full editor.document

section Steps

variable {seen : Text → Selection → Prop} {initial settled : Text} {editor final : Editor}

theorem Idle.sound (idle : Idle seen initial editor) : Sound seen initial editor.text editor := by
  obtain ⟨full, logged⟩ := idle.logged
  exact ⟨idle.accounts, .idle idle.closed logged⟩

theorem Rests.mono {wider : Text → Selection → Prop}
    (implies : ∀ text selection, seen text selection → wider text selection)
    (rests : Rests seen settled editor)
    : Rests wider settled editor := by
  cases rests with
  | idle closed logged => exact .idle closed logged
  | composing composing known => exact .composing composing (implies _ _ known)

theorem Sound.mono {wider : Text → Selection → Prop}
    (implies : ∀ text selection, seen text selection → wider text selection)
    (sound : Sound seen initial settled editor)
    : Sound wider initial settled editor :=
  ⟨sound.accounts.mono implies, sound.rests.mono implies⟩

theorem Idle.keepsWork (idle : Idle seen initial editor) (keeps : KeepsWork editor final)
    : Idle seen initial final where
  closed := keeps.ime.trans idle.closed
  accounts := by
    unfold Editor.text
    rw [keeps.document, keeps.history]
    exact idle.accounts
  logged := by
    rw [keeps.document]
    exact idle.logged

theorem Composing.of_keeps {shown : Text} {count : Nat} {ime : ImeState}
    (composing : Composing settled shown count ime editor) (document : final.document = editor.document)
    (same : final.ime = editor.ime)
    : Composing settled shown count ime final where
  isOpen := same.trans composing.isOpen
  log := document ▸ composing.log
  current := document ▸ composing.current
  startAnchor := composing.startAnchor
  endAnchor := composing.endAnchor
  replaced := by
    unfold Editor.text
    rw [document]
    exact composing.replaced

/-- Closing the latest undo group changes nothing the history accounts for. -/
theorem Sound.breakGroup (sound : Sound seen initial settled editor)
    : Sound seen initial settled editor.breakGroup := by
  refine ⟨sound.accounts.breakGroup, ?_⟩
  cases sound.rests with
  | idle closed logged =>
      have rests : Rests seen editor.breakGroup.text editor.breakGroup := .idle closed logged
      exact rests
  | composing composing known => exact .composing (composing.of_keeps rfl rfl) known

/-- Committing leaves nothing composed and the history accounting for the text, by recording
the whole composition as one replacement.
-/
theorem Sound.commitComposition (sound : Sound seen initial settled editor) (now : Instant)
    : Idle seen initial (editor.commitComposition now) := by
  cases sound.rests with
  | idle closed logged =>
      unfold Editor.commitComposition
      rw [closed]
      exact ⟨closed, sound.accounts, _, logged⟩
  | composing composing known =>
      obtain ⟨front, back, original, shows, start, -⟩ := composing.replaced
      obtain ⟨earlier, composed, logged, -⟩ := composing.log
      unfold Editor.commitComposition
      rw [composing.isOpen]
      refine ⟨rfl, ?_, _, logged⟩
      exact sound.accounts.recordReplacement ⟨⟨front, back, original, shows, start⟩, known⟩

theorem Editor.commitComposition_text (editor : Editor) (now : Instant)
    : (editor.commitComposition now).text = editor.text :=
  congrArg fullText (commitComposition_document editor now)

theorem Editor.commitComposition_selection (editor : Editor) (now : Instant)
    : (editor.commitComposition now).selection = editor.selection := by
  unfold commitComposition
  cases editor.ime <;> rfl

theorem Editor.editDocument_ok {range : SourceRange} {text : Text} {summary : EditSummary}
    (ran : editDocument range text editor = (.ok summary, final))
    : ∃ document,
        editor.document.edit range text = .ok (summary, document)
        ∧ final = { editor with document } := by
  unfold editDocument at ran
  cases edited : editor.document.edit range text with
  | error problem =>
      rw [edited] at ran
      cases ran
  | ok outcome =>
      rw [edited] at ran
      obtain ⟨same, rfl⟩ := Prod.mk.inj ran
      obtain rfl := Except.ok.inj same
      exact ⟨outcome.2, rfl, rfl⟩

theorem Idle.replaceSelectionRecordedFrom {text : Text} {selectionBefore : Selection}
    {kind : EditKind} {now : Instant} {summary : EditSummary}
    (idle : Idle seen initial editor) (known : seen editor.text selectionBefore)
    (ran :
      Editor.replaceSelectionRecordedFrom text selectionBefore kind now editor
        = (.ok summary, final))
    : Idle seen initial final := by
  obtain ⟨summary, replaced, first, ran⟩ := bind_ok ran
  rw [Editor.replaceSelection, read_bind] at first
  obtain ⟨summary', edited, applied, first⟩ := bind_ok first
  obtain ⟨document, edit, rfl⟩ := Editor.editDocument_ok applied
  obtain ⟨same, rfl⟩ := Prod.mk.inj first
  obtain rfl := Except.ok.inj same
  obtain ⟨-, rfl⟩ := Prod.mk.inj ran
  obtain ⟨full, logged⟩ := idle.logged
  exact {
    closed := idle.closed
    accounts := idle.accounts.record edit known _ kind now
    logged := ⟨_, logged.edit edit⟩
  }

theorem Idle.deleteSelected {target : Editor → Except BufferError Nat}
    {select : Selection → Nat → Selection} {kind : EditKind} {now : Instant}
    {result : Option EditSummary} (idle : Idle seen initial editor)
    (known : seen editor.text editor.selection)
    (ran : Editor.deleteSelected target select kind now editor = (.ok result, final))
    : Idle seen initial final := by
  rw [Editor.deleteSelected, read_bind] at ran
  split at ran
  · obtain ⟨reached, middle, asked, ran⟩ := bind_ok ran
    obtain ⟨-, rfl⟩ := query_ok asked
    split at ran
    · obtain ⟨-, rfl⟩ := Prod.mk.inj ran
      exact idle
    · rw [modify_bind] at ran
      obtain ⟨summary, replaced, first, ran⟩ := bind_ok ran
      obtain ⟨-, rfl⟩ := Prod.mk.inj ran
      have selected : Idle seen initial
          { middle with selection := select middle.selection reached } :=
        idle.keepsWork ⟨rfl, rfl, rfl⟩
      exact selected.replaceSelectionRecordedFrom known first
  · obtain ⟨summary, replaced, first, ran⟩ := bind_ok ran
    obtain ⟨-, rfl⟩ := Prod.mk.inj ran
    exact idle.replaceSelectionRecordedFrom known first

/-- Undoing while an entry is left succeeds, gives the text before it and restores its
selection.
-/
theorem Editor.undo_of_recorded {entry : HistoryEntry} {rest : List HistoryEntry}
    {before : Text} (stack : editor.history.undoStack = entry :: rest)
    (recorded : HistoryEntry.Recorded seen entry before editor.text)
    : ∃ summary reverted,
        undo editor
          = (.ok (some summary),
              { editor with
                history := ⟨rest, entry :: editor.history.redoStack, false⟩
                document := reverted
                selection := entry.selectionBefore })
        ∧ reverted.fullText = before := by
  obtain ⟨summary, reverted, undone, text⟩ := History.undo_of_recorded stack recorded
  refine ⟨summary, reverted, ?_, text⟩
  unfold undo restore
  rw [undone]

/-- Redoing while an entry is left succeeds and gives the text it leads to. -/
theorem Editor.redo_of_recorded {entry : HistoryEntry} {rest : List HistoryEntry}
    {after : Text} (stack : editor.history.redoStack = entry :: rest)
    (recorded : HistoryEntry.Recorded seen entry editor.text after)
    : ∃ summary repeated,
        redo editor
          = (.ok (some summary),
              { editor with
                history := ⟨entry :: editor.history.undoStack, rest, false⟩
                document := repeated
                selection := entry.selectionAfter })
        ∧ repeated.fullText = after := by
  obtain ⟨summary, repeated, redone, text⟩ := History.redo_of_recorded stack recorded
  refine ⟨summary, repeated, ?_, text⟩
  unfold redo restore
  rw [redone]

/-- Undoing keeps an idle editor idle, by moving the latest entry to the redo stack. -/
theorem Idle.undo {result : Option EditSummary} (idle : Idle seen initial editor)
    (ran : Editor.undo editor = (.ok result, final))
    : Idle seen initial final := by
  obtain ⟨full, logged⟩ := idle.logged
  obtain ⟨later, logged⟩ := logged.edits (Editor.undo_editsDocument.apply ran)
  obtain ⟨last, continues⟩ := idle.accounts.future
  have past := idle.accounts.past
  cases stack : editor.history.undoStack with
  | nil =>
      unfold Editor.undo Editor.restore History.undo at ran
      rw [stack] at ran
      obtain ⟨-, rfl⟩ := Prod.mk.inj ran
      exact ⟨idle.closed, idle.accounts.breakGroup, _, logged⟩
  | cons entry rest =>
      rw [stack] at past
      obtain ⟨before, older, recorded⟩ := past.latest
      obtain ⟨summary, reverted, undone, rfl⟩ := Editor.undo_of_recorded stack recorded
      obtain ⟨-, rfl⟩ := Prod.mk.inj (ran.symm.trans undone)
      exact ⟨idle.closed, ⟨older, last, continues.cons recorded⟩, _, logged⟩

/-- Redoing keeps an idle editor idle, by moving the next entry back to the undo stack. -/
theorem Idle.redo {result : Option EditSummary} (idle : Idle seen initial editor)
    (ran : Editor.redo editor = (.ok result, final))
    : Idle seen initial final := by
  obtain ⟨full, logged⟩ := idle.logged
  obtain ⟨later, logged⟩ := logged.edits (Editor.redo_editsDocument.apply ran)
  obtain ⟨last, continues⟩ := idle.accounts.future
  cases stack : editor.history.redoStack with
  | nil =>
      unfold Editor.redo Editor.restore History.redo at ran
      rw [stack] at ran
      obtain ⟨-, rfl⟩ := Prod.mk.inj ran
      exact ⟨idle.closed, idle.accounts.breakGroup, _, logged⟩
  | cons entry rest =>
      rw [stack] at continues
      obtain ⟨after, recorded, onwards⟩ := continues.next
      obtain ⟨summary, repeated, redone, rfl⟩ := Editor.redo_of_recorded stack recorded
      obtain ⟨-, rfl⟩ := Prod.mk.inj (ran.symm.trans redone)
      exact ⟨idle.closed, ⟨idle.accounts.past.cons recorded, last, onwards⟩, _, logged⟩

/-- Every command keeps an idle editor idle, by case on the command. -/
theorem Idle.perform {unicode : Unicode} {received : Instant} {command : EditorCommand}
    {result : Option EditSummary} (idle : Idle seen initial editor)
    (known : seen editor.text editor.selection)
    (ran : Editor.perform unicode received command editor = (.ok result, final))
    : Idle seen initial final := by
  cases moving : Editor.moves command with
  | true => exact idle.keepsWork ((Editor.perform_keepsWork unicode moving received).apply ran)
  | false =>
      cases command with
      | insert text =>
          obtain ⟨summary, middle, first, ran⟩ := bind_ok ran
          obtain ⟨-, rfl⟩ := Prod.mk.inj ran
          rw [Editor.replaceSelectionRecorded, read_bind] at first
          exact idle.replaceSelectionRecordedFrom known first
      | backspace =>
          unfold Editor.perform Editor.backspace at ran
          exact idle.deleteSelected known ran
      | delete =>
          unfold Editor.perform Editor.delete at ran
          exact idle.deleteSelected known ran
      | deleteWord forward stop =>
          unfold Editor.perform Editor.deleteWord at ran
          exact idle.deleteSelected known ran
      | undo => exact idle.undo ran
      | redo => exact idle.redo ran
      | _ => cases moving

theorem Sound.settle (sound : Sound seen initial settled editor) (now : Instant)
    : Idle seen initial (editor.breakGroup.commitComposition now)
      ∧ (editor.breakGroup.commitComposition now).text = editor.text
      ∧ (editor.breakGroup.commitComposition now).selection = editor.selection :=
  ⟨sound.breakGroup.commitComposition now, Editor.commitComposition_text _ now,
    Editor.commitComposition_selection _ now⟩

theorem Sound.dispatch {unicode : Unicode} {clock : Clock} {command : EditorCommand}
    {result : Option EditSummary} (sound : Sound seen initial settled editor)
    (known : seen editor.text editor.selection)
    (ran : Editor.dispatch unicode command clock editor = (.ok result, final))
    : Idle seen initial final := by
  unfold Editor.dispatch at ran
  rw [modify_bind, modify_bind, modify_bind] at ran
  generalize broken : (if command.keepsGroup then editor else editor.breakGroup) = first at ran
  have kept : Sound seen initial settled first ∧ first.text = editor.text
      ∧ first.selection = editor.selection := by
    subst broken
    split
    · exact ⟨sound, rfl, rfl⟩
    · exact ⟨sound.breakGroup, rfl, rfl⟩
  obtain ⟨sound, text, selection⟩ := kept
  have idle := sound.commitComposition clock.composed
  rw [← text, ← selection, ← Editor.commitComposition_text first clock.composed,
    ← Editor.commitComposition_selection first clock.composed] at known
  generalize first.commitComposition clock.composed = committed at ran idle known
  split at ran
  · exact idle.perform known ran
  · have cleared : Idle seen initial committed.clearColumns := idle.keepsWork ⟨rfl, rfl, rfl⟩
    exact cleared.perform known ran

theorem Sound.setSelection {selection : Selection} {clock : Clock}
    (sound : Sound seen initial settled editor)
    (ran : Editor.setSelection selection clock editor = (.ok (), final))
    : Idle seen initial final := by
  obtain ⟨idle, -, -⟩ := sound.settle clock.composed
  unfold Editor.setSelection at ran
  rw [modify_bind, modify_bind] at ran
  obtain ⟨_, _, asked, ran⟩ := bind_ok ran
  obtain ⟨-, rfl⟩ := query_ok asked
  obtain ⟨_, _, asked, ran⟩ := bind_ok ran
  obtain ⟨-, rfl⟩ := query_ok asked
  obtain ⟨-, rfl⟩ := Prod.mk.inj ran
  exact idle.keepsWork ⟨rfl, rfl, rfl⟩

theorem Sound.moveVerticalTo {target : Nat} {extend : Bool} {preferredX : Int} {clock : Clock}
    (sound : Sound seen initial settled editor)
    (ran : Editor.moveVerticalTo target extend preferredX clock editor = (.ok (), final))
    : Idle seen initial final := by
  obtain ⟨idle, -, -⟩ := sound.settle clock.composed
  unfold Editor.moveVerticalTo at ran
  rw [modify_bind, modify_bind] at ran
  obtain ⟨_, _, asked, ran⟩ := bind_ok ran
  obtain ⟨-, rfl⟩ := query_ok asked
  obtain ⟨_, moved, moves, ran⟩ := bind_ok ran
  obtain ⟨-, rfl⟩ := Prod.mk.inj ran
  have keeps := (Editor.moveTo_keepsWork target extend).apply moves
  exact (idle.keepsWork keeps).keepsWork ⟨rfl, rfl, rfl⟩

theorem Sound.replaceRangeRecorded {range : SourceRange} {replacement : Text}
    {selectionAfter : Selection} {clock : Clock} {summary : EditSummary}
    (sound : Sound seen initial settled editor) (known : seen editor.text editor.selection)
    (ran :
      Editor.replaceRangeRecorded range replacement selectionAfter clock editor
        = (.ok summary, final))
    : Idle seen initial final := by
  obtain ⟨idle, text, selection⟩ := sound.settle clock.composed
  rw [← text, ← selection] at known
  unfold Editor.replaceRangeRecorded at ran
  rw [modify_bind, modify_bind] at ran
  obtain ⟨_, _, asked, ran⟩ := bind_ok ran
  obtain ⟨-, rfl⟩ := query_ok asked
  rw [read_bind] at ran
  split at ran
  · cases ran
  · split at ran
    · cases ran
    · obtain ⟨summary', edited, applied, ran⟩ := bind_ok ran
      obtain ⟨document, edit, rfl⟩ := Editor.editDocument_ok applied
      obtain ⟨-, rfl⟩ := Prod.mk.inj ran
      obtain ⟨full, logged⟩ := idle.logged
      refine ⟨idle.closed, ?_, _, logged.edit edit⟩
      exact idle.accounts.recordReplacement
        ⟨HistoryEntry.Applies.fromSummary edit _ _ .replace clock.recorded, known⟩

/-- Marking text leaves the history resting on the text the composition began with. -/
theorem Sound.replaceAndMarkText {replacement selected : Option Utf16Range} {text : Text}
    {summary : EditSummary} (sound : Sound seen initial settled editor)
    (known : seen editor.text editor.selection)
    (ran : Editor.replaceAndMarkText replacement text selected editor = (.ok summary, final))
    : Sound seen initial settled final := by
  obtain ⟨accounts, rests⟩ := sound
  cases rests with
  | idle closed logged =>
      obtain ⟨ime, composing, shows, selection, history⟩ := Composing.first logged closed ran
      refine ⟨history ▸ accounts, .composing (shows ▸ composing) ?_⟩
      rw [selection]
      exact known
  | composing composing begun =>
      obtain ⟨_, _, ime, run, next, shows, selection, history⟩ :=
        composing.mark replacement text selected
      obtain ⟨-, rfl⟩ := Prod.mk.inj (ran.symm.trans run)
      refine ⟨history ▸ accounts, .composing (shows ▸ next) ?_⟩
      rw [selection]
      exact begun

/-- Committing a text records the edit, or the whole composition when one is open. -/
theorem Sound.commitText {replacement : Option Utf16Range} {text : Text} {clock : Clock}
    {summary : EditSummary} (sound : Sound seen initial settled editor)
    (known : seen editor.text editor.selection)
    (ran : Editor.commitText replacement text clock editor = (.ok summary, final))
    : Idle seen initial final := by
  unfold Editor.commitText at ran
  rw [modify_bind] at ran
  obtain ⟨range, _, target, ran⟩ := bind_ok ran
  obtain rfl := Editor.compositionTarget_state target
  rw [read_bind, modify_bind] at ran
  obtain ⟨summary', edited, applied, ran⟩ := bind_ok ran
  obtain ⟨document, edit, rfl⟩ := Editor.editDocument_ok applied
  rw [modify_bind] at ran
  obtain ⟨accounts, rests⟩ := sound
  cases rests with
  | idle closed logged =>
      simp only [closed] at ran
      obtain ⟨-, rfl⟩ := Prod.mk.inj ran
      exact ⟨rfl, accounts.record edit known _ _ _, _, logged.edit edit⟩
  | composing composing begun =>
      rename_i count ime
      simp only [composing.isOpen] at ran
      obtain ⟨-, rfl⟩ := Prod.mk.inj ran
      obtain ⟨front, back, original, shows, start, current⟩ := composing.replaced
      obtain ⟨earlier, composed, logged, -⟩ := composing.log
      have cleared := composing.clearColumn
      rw [Editor.compositionTarget_open cleared.isOpen] at target
      obtain rfl := Except.ok.inj (Prod.mk.inj target).1
      obtain ⟨_, _, edit', -, rope, -, -⟩ := Editor.editDocument_append editor shows text
      rw [← current] at edit'
      obtain ⟨-, rfl⟩ := Prod.mk.inj (Except.ok.inj (edit.symm.trans edit'))
      refine ⟨rfl, ?_, _, logged.edit edit⟩
      exact accounts.recordReplacement ⟨⟨front, back, original, rope, start⟩, begun⟩

/-- Cancelling successfully leaves the text the history accounts for, since the anchors of a
composition never disagree with the range it tracked.
-/
theorem Sound.cancelComposition {outcome : ImeCancelOutcome}
    (sound : Sound seen initial settled editor) (positive : 0 < editor.document.deltaCapacity)
    (ran : Editor.cancelComposition editor = (.ok outcome, final))
    : Idle seen initial final := by
  obtain ⟨accounts, rests⟩ := sound
  cases rests with
  | idle closed logged =>
      unfold Editor.cancelComposition at ran
      rw [read_bind, closed] at ran
      obtain ⟨-, rfl⟩ := Prod.mk.inj ran
      exact ⟨closed, accounts, _, logged⟩
  | composing composing begun =>
      rename_i count ime
      rcases Nat.lt_or_ge editor.document.deltaCapacity count with lost | held
      · rw [composing.cancel_lost lost positive] at ran
        cases ran
      · obtain ⟨_, cancelled, rfl, -, closed, history, edited⟩ := composing.cancel held positive
        obtain ⟨-, rfl⟩ := Prod.mk.inj (ran.symm.trans cancelled)
        obtain ⟨earlier, composed, logged, -⟩ := composing.log
        obtain ⟨later, logged⟩ := logged.edits (.single edited)
        exact ⟨closed, history ▸ accounts, _, logged⟩

/-- Every successful operation keeps the history accounting, by case on the operation. -/
theorem Sound.run {unicode : Unicode} {clock : Clock} {operation : Operation}
    (sound : Sound seen initial settled editor) (known : seen editor.text editor.selection)
    (positive : 0 < editor.document.deltaCapacity)
    (ran : operation.run unicode clock editor = (.ok (), final))
    : ∃ settled', Sound seen initial settled' final := by
  cases operation with
  | dispatch command =>
      obtain ⟨result, middle, operated, done⟩ := bind_ok ran
      obtain ⟨-, rfl⟩ := Prod.mk.inj done
      exact ⟨_, (sound.dispatch known operated).sound⟩
  | setSelection selection => exact ⟨_, (sound.setSelection ran).sound⟩
  | moveVerticalTo target extend preferredX => exact ⟨_, (sound.moveVerticalTo ran).sound⟩
  | replaceRangeRecorded range replacement selectionAfter =>
      obtain ⟨result, middle, operated, done⟩ := bind_ok ran
      obtain ⟨-, rfl⟩ := Prod.mk.inj done
      exact ⟨_, (sound.replaceRangeRecorded known operated).sound⟩
  | replaceAndMarkText replacement text selected =>
      obtain ⟨result, middle, operated, done⟩ := bind_ok ran
      obtain ⟨-, rfl⟩ := Prod.mk.inj done
      exact ⟨settled, sound.replaceAndMarkText known operated⟩
  | commitText replacement text =>
      obtain ⟨result, middle, operated, done⟩ := bind_ok ran
      obtain ⟨-, rfl⟩ := Prod.mk.inj done
      exact ⟨_, (sound.commitText known operated).sound⟩
  | commitComposition =>
      obtain ⟨-, rfl⟩ := Prod.mk.inj ran
      exact ⟨_, (sound.commitComposition clock.composed).sound⟩
  | cancelComposition =>
      obtain ⟨result, middle, operated, done⟩ := bind_ok ran
      obtain ⟨-, rfl⟩ := Prod.mk.inj done
      exact ⟨_, (sound.cancelComposition positive operated).sound⟩

end Steps

end Hane.Editing
