import Hane.Editing.Accounting

/-! Undoing everything a run did gives its initial text, and redoing as much gives back the
text from before.
-/

namespace Hane.Editing

open Hane.Foundations Hane.Document

/-- Operations that all succeed, one after the other. The editors they passed are listed
latest first.
-/
inductive Run (unicode : Unicode) (start : Editor) : List Editor → Editor → Prop
  | nil : Run unicode start [] start
  | snoc {visited : List Editor} {before after : Editor} (operation : Operation) (clock : Clock)
      : Run unicode start visited before
        → operation.run unicode clock before = (.ok (), after)
        → Run unicode start (before :: visited) after

def Seen (visited : List Editor) (text : Text) (selection : Selection) : Prop :=
  ∃ editor ∈ visited, editor.text = text ∧ editor.selection = selection

/-- A run only edits the document it started from, by induction on its operations. -/
theorem Run.edits {unicode : Unicode} {start finish : Editor} {visited : List Editor}
    (run : Run unicode start visited finish)
    : EditsDocument start finish := by
  induction run with
  | nil => exact .of_eq rfl
  | snoc operation clock _ ran ih =>
      exact ih.trans ((operation.run_editsDocument unicode clock).apply ran)

/-- Along a run the history accounts for the text with selections the run has seen, by
induction on its operations.
-/
theorem Run.sound {unicode : Unicode} {chunks : List Text} {visited : List Editor}
    {finish : Editor}
    (run : Run unicode (Editor.fromDocument (RopeBuffer.fromRope chunks)) visited finish)
    : ∃ settled, Sound (Seen visited) chunks.flatten settled finish := by
  induction run with
  | nil =>
      have rests : Rests (Seen []) (Editor.fromDocument (RopeBuffer.fromRope chunks)).text _ :=
        .idle rfl (RopeBuffer.Logged.fromRope chunks)
      exact ⟨chunks.flatten, History.Accounts.empty _ _, rests⟩
  | @snoc visited before after operation clock earlier ran ih =>
      obtain ⟨settled, sound⟩ := ih
      have wider : Sound (Seen (before :: visited)) chunks.flatten settled before := by
        refine sound.mono fun text selection seen => ?_
        obtain ⟨editor, member, shown⟩ := seen
        exact ⟨editor, List.mem_cons_of_mem _ member, shown⟩
      have capacity : before.document.deltaCapacity = 4096 := earlier.edits.deltaCapacity
      exact wider.run ⟨before, List.mem_cons_self, rfl, rfl⟩ (by omega) ran

/-- One Undo, whatever the clock reads: it succeeds, takes the latest entry back and restores
the selection recorded before it, which the run has seen with the text the Undo gives.
-/
structure Undoes (unicode : Unicode) (visited : List Editor) (before after : Editor) : Prop where
  pending : before.canUndo = true
  succeeds :
    ∀ clock, ∃ summary,
      Editor.dispatch unicode .undo clock before = (.ok (some summary), after)
  restores :
    ∃ entry,
      before.history.undoStack = entry :: after.history.undoStack
      ∧ after.selection = entry.selectionBefore
  seen : Seen visited after.text after.selection

/-- One Redo, whatever the clock reads. -/
structure Redoes (unicode : Unicode) (before after : Editor) : Prop where
  pending : before.canRedo = true
  succeeds :
    ∀ clock, ∃ summary,
      Editor.dispatch unicode .redo clock before = (.ok (some summary), after)

/-- An editor that composes nothing, as a present between two stacks. -/
structure Presents (editor : Editor) (past : List HistoryEntry) (now : Text)
    (future : List HistoryEntry) : Prop where
  closed : editor.ime = none
  past : editor.history.undoStack = past
  now : editor.text = now
  future : editor.history.redoStack = future

theorem Editor.dispatch_closed {editor : Editor} (closed : editor.ime = none)
    {command : EditorCommand} (breaks : command.keepsGroup = false)
    (clears : command.keepsColumn = false) (unicode : Unicode) (clock : Clock)
    : dispatch unicode command clock editor
      = perform unicode clock.received command editor.breakGroup.clearColumns := by
  have committed : editor.breakGroup.commitComposition clock.composed = editor.breakGroup := by
    unfold commitComposition
    rw [show editor.breakGroup.ime = none from closed]
  unfold dispatch
  rw [Stateful.modify_bind, Stateful.modify_bind, Stateful.modify_bind, breaks, clears]
  simp only [Bool.false_eq_true, if_false, committed]

/-- The latest entry can always be undone. -/
theorem Presents.back (unicode : Unicode) (visited : List Editor) {editor : Editor}
    {entry : HistoryEntry} {past future : List HistoryEntry} {now before : Text}
    (presents : Presents editor (entry :: past) now future)
    (recorded : HistoryEntry.Recorded (Seen visited) entry before now)
    : ∃ next,
        Undoes unicode visited editor next ∧ Presents next past before (entry :: future) := by
  obtain ⟨closed, stack, rfl, rfl⟩ := presents
  have prepared : editor.breakGroup.clearColumns.history.undoStack = entry :: past := stack
  obtain ⟨summary, reverted, undone, rfl⟩ := Editor.undo_of_recorded prepared recorded
  refine ⟨{ editor.breakGroup.clearColumns with
    history := ⟨past, entry :: editor.history.redoStack, false⟩
    document := reverted
    selection := entry.selectionBefore }, ?_, closed, rfl, rfl, rfl⟩
  refine ⟨?_, fun clock => ⟨summary, ?_⟩, ⟨entry, stack, rfl⟩, recorded.2⟩
  · unfold Editor.canUndo History.canUndo
    rw [stack]
    rfl
  · rw [Editor.dispatch_closed closed rfl rfl]
    exact undone

theorem Presents.forth (unicode : Unicode) {seen : Text → Selection → Prop} {editor : Editor}
    {entry : HistoryEntry} {past future : List HistoryEntry} {now after : Text}
    (presents : Presents editor past now (entry :: future))
    (recorded : HistoryEntry.Recorded seen entry now after)
    : ∃ next, Redoes unicode editor next ∧ Presents next (entry :: past) after future := by
  obtain ⟨closed, rfl, rfl, stack⟩ := presents
  have prepared : editor.breakGroup.clearColumns.history.redoStack = entry :: future := stack
  obtain ⟨summary, repeated, redone, rfl⟩ := Editor.redo_of_recorded prepared recorded
  refine ⟨{ editor.breakGroup.clearColumns with
    history := ⟨entry :: editor.history.undoStack, future, false⟩
    document := repeated
    selection := entry.selectionAfter }, ?_, closed, rfl, rfl, rfl⟩
  refine ⟨?_, fun clock => ⟨summary, ?_⟩⟩
  · unfold Editor.canRedo History.canRedo
    rw [stack]
    rfl
  · rw [Editor.dispatch_closed closed rfl rfl]
    exact redone

/-- Once the open composition is committed, undoing until nothing is left gives the initial
text of the run, and redoing as often gives back the text from before the undos. What could
already be redone then can still be redone after that, down to nothing.
-/
theorem undo_redo_of_run {unicode : Unicode} {chunks : List Text} {visited : List Editor}
    {finish : Editor}
    (run : Run unicode (Editor.fromDocument (RopeBuffer.fromRope chunks)) visited finish)
    (now : Instant)
    : ∃ first current last count later,
        InSteps (Undoes unicode visited) (finish.commitComposition now) first count
        ∧ first.canUndo = false
        ∧ first.text = chunks.flatten
        ∧ InSteps (Redoes unicode) first current count
        ∧ current.text = finish.text
        ∧ current.canRedo = (finish.commitComposition now).canRedo
        ∧ InSteps (Redoes unicode) current last later
        ∧ last.canRedo = false := by
  obtain ⟨settled, sound⟩ := run.sound
  have idle := sound.commitComposition now
  obtain ⟨final, continues⟩ := idle.accounts.future
  have start : Presents (finish.commitComposition now)
      (finish.commitComposition now).history.undoStack finish.text
      (finish.commitComposition now).history.redoStack :=
    ⟨idle.closed, rfl, Editor.commitComposition_text finish now, rfl⟩
  have past := idle.accounts.past
  rw [Editor.commitComposition_text] at past continues
  obtain ⟨first, undone, atFirst⟩ := past.drain
    (fun _ _ _ _ _ _ presents recorded => presents.back unicode visited recorded) start
  obtain ⟨current, redone, atCurrent⟩ := past.reverse.drain
    (fun _ _ _ _ _ _ presents recorded => presents.forth unicode recorded) atFirst
  have rest := atCurrent
  rw [← List.append_nil (finish.commitComposition now).history.redoStack] at rest
  obtain ⟨last, drained, atLast⟩ := continues.drain
    (fun _ _ _ _ _ _ presents recorded => presents.forth unicode recorded) rest
  rw [List.length_reverse] at redone
  refine ⟨first, current, last, _, _, undone, ?_, atFirst.now, redone, atCurrent.now, ?_,
    drained, ?_⟩
  · unfold Editor.canUndo History.canUndo
    rw [atFirst.past]
    rfl
  · unfold Editor.canRedo History.canRedo
    rw [atCurrent.future]
  · unfold Editor.canRedo History.canRedo
    rw [atLast.future]
    rfl

private theorem Run.next {unicode : Unicode} {start before : Editor} {visited : List Editor}
    (run : Run unicode start visited before) (operation : Operation) (clock : Clock)
    (succeeds : (operation.run unicode clock before).1.isOk = true)
    : Run unicode start (before :: visited) (operation.run unicode clock before).2 := by
  obtain ⟨_, ran⟩ := Stateful.ok_of_isOk succeeds
  exact run.snoc operation clock ran

private theorem run_insert_undo
    : ∃ visited finish,
        Run Unicode.ascii (Editor.fromDocument (RopeBuffer.fromRope [[]])) visited finish
        ∧ Presents finish []
          [] [⟨0, [], ['a'], Selection.caret 0, Selection.caret 1, .insert, 0⟩] := by
  have start : Run Unicode.ascii (Editor.fromDocument (RopeBuffer.fromRope [[]])) [] _ := .nil
  have inserted := start.next (.dispatch (.insert ['a'])) ⟨0, 0, 0⟩ (by decide +kernel)
  have undone := inserted.next (.dispatch .undo) ⟨0, 0, 0⟩ (by decide +kernel)
  refine ⟨_, _, undone, ?_, ?_, ?_, ?_⟩ <;> decide +kernel

/-- Typing a letter, and much later another one that is undone, leaves the first to be undone. -/
private theorem run_insert_insert_undo
    : ∃ visited finish,
        Run Unicode.ascii (Editor.fromDocument (RopeBuffer.fromRope [[]])) visited finish
        ∧ Presents finish [⟨0, [], ['a'], Selection.caret 0, Selection.caret 1, .insert, 0⟩]
          ['a'] [⟨1, [], ['b'], Selection.caret 1, Selection.caret 2, .insert, 10000000000⟩] := by
  have start : Run Unicode.ascii (Editor.fromDocument (RopeBuffer.fromRope [[]])) [] _ := .nil
  have first := start.next (.dispatch (.insert ['a'])) ⟨0, 0, 0⟩ (by decide +kernel)
  have second := first.next (.dispatch (.insert ['b'])) ⟨10000000000, 10000000000, 10000000000⟩
    (by decide +kernel)
  have undone := second.next (.dispatch .undo) ⟨10000000000, 10000000000, 10000000000⟩
    (by decide +kernel)
  refine ⟨_, _, undone, ?_, ?_, ?_, ?_⟩ <;> decide +kernel

/-- Undoing and redoing where a letter is left to be undone and another one to be redone. -/
theorem undo_redo_of_run_insert_insert_undo
    : ∃ visited finish first current last count later,
        finish.canUndo = true
        ∧ InSteps (Undoes Unicode.ascii visited) (Editor.commitComposition finish 0) first count
        ∧ first.canUndo = false
        ∧ first.text = [[]].flatten
        ∧ InSteps (Redoes Unicode.ascii) first current count
        ∧ current.text = finish.text
        ∧ current.canRedo = (finish.commitComposition 0).canRedo
        ∧ InSteps (Redoes Unicode.ascii) current last later
        ∧ last.canRedo = false := by
  obtain ⟨visited, finish, run, presents⟩ := run_insert_insert_undo
  obtain ⟨first, current, last, count, later, undoes⟩ := undo_redo_of_run run 0
  refine ⟨visited, finish, first, current, last, count, later, ?_, undoes⟩
  unfold Editor.canUndo History.canUndo
  rw [presents.past]
  rfl

/-- Redoing until nothing is left can go past the text from before the undos: here nothing can
be undone, and the letter undone earlier comes back.
-/
theorem redo_overshoots
    : ∃ visited finish last,
        Run Unicode.ascii (Editor.fromDocument (RopeBuffer.fromRope [[]])) visited finish
        ∧ finish.ime = none
        ∧ finish.canUndo = false
        ∧ InSteps (Redoes Unicode.ascii) finish last 1
        ∧ last.canRedo = false
        ∧ finish.text = []
        ∧ last.text = ['a'] := by
  obtain ⟨visited, finish, run, presents⟩ := run_insert_undo
  have recorded : HistoryEntry.Recorded (fun _ _ => True)
      ⟨0, [], ['a'], Selection.caret 0, Selection.caret 1, .insert, 0⟩ [] ['a'] :=
    ⟨⟨[], [], rfl, rfl, rfl⟩, trivial⟩
  obtain ⟨last, redone, shown⟩ := presents.forth Unicode.ascii recorded
  refine ⟨visited, finish, last, run, presents.closed, ?_, .head redone (.refl last), ?_,
    presents.now, shown.now⟩
  · unfold Editor.canUndo History.canUndo
    rw [presents.past]
    rfl
  · unfold Editor.canRedo History.canRedo
    rw [shown.future]
    rfl

end Hane.Editing
