import Hane.Editing.Composing
import Hane.Editing.Operations

/-! Cancelling a composition restores the editor exactly while the edit log still holds all of
the composition's edits.
-/

namespace Hane.Editing

open Hane.Foundations Hane.Document RopeBuffer

/-- What one call of `replaceAndMarkText` passes. -/
structure Marking where
  replacementUtf16 : Option Utf16Range
  text : Text
  selectedUtf16 : Option Utf16Range
deriving DecidableEq

namespace Editor

def mark (marking : Marking) : EditorM EditSummary :=
  replaceAndMarkText marking.replacementUtf16 marking.text marking.selectedUtf16

def markAll : List Marking → EditorM Unit
  | [] => return ()
  | marking :: further => do
      let _ ← mark marking
      markAll further

/-- Marking more texts in an open composition succeeds throughout and counts one edit each, by
induction on the calls.
-/
theorem markAll_composing {settled shown : Text} {count : Nat} {ime : ImeState}
    {editor : Editor} (composing : Composing settled shown count ime editor)
    (further : List Marking)
    : ∃ composed marked,
        markAll further editor = (.ok (), composed)
        ∧ Composing settled ((further.map (·.text)).getLastD shown) (count + further.length)
            marked composed
        ∧ marked.originalSelection = ime.originalSelection
        ∧ composed.history = editor.history
        ∧ composed.document.deltaCapacity = editor.document.deltaCapacity := by
  induction further generalizing shown count ime editor with
  | nil => exact ⟨editor, ime, rfl, composing, rfl, rfl, rfl⟩
  | cons marking further ih =>
      obtain ⟨summary, next, opened, ran, composing', -, selection, history⟩ :=
        composing.mark marking.replacementUtf16 marking.text marking.selectedUtf16
      have edits := (replaceAndMarkText_editsDocument _ _ _).apply ran
      obtain ⟨composed, marked, rest, final, selection', history', capacity⟩ := ih composing'
      refine ⟨composed, marked, ?_, ?_, selection'.trans selection, history'.trans history,
        capacity.trans edits.deltaCapacity⟩
      · unfold markAll mark
        rw [Stateful.bind_run, ran]
        exact rest
      · rw [List.length_cons, ← Nat.add_assoc, Nat.add_right_comm]
        rw [List.map_cons, List.getLastD_cons]
        exact final

end Editor

/-- Cancelling the composition `composed` that began in `before` reports it restored, gives
back the text and the selection, and never drops composed text that no new history entry
accounts for.
-/
structure CancelsCleanly (before composed : Editor) : Prop where
  outcome : (Editor.cancelComposition composed).1 = .ok .restored
  text : (Editor.cancelComposition composed).2.text = before.text
  selection : (Editor.cancelComposition composed).2.selection = before.selection
  accounted :
    (Editor.cancelComposition composed).2.ime = none
    → (Editor.cancelComposition composed).2.history = composed.history
    → (Editor.cancelComposition composed).2.text = before.text

/-- Cancelling is clean exactly while the log is long enough for the composition, by the two
outcomes of resolving its anchors.
-/
theorem Composing.cancelsCleanly_iff_held {before composed : Editor} {shown : Text} {count : Nat}
    {ime : ImeState} (composing : Composing before.text shown count ime composed)
    (selection : ime.originalSelection = before.selection)
    (positive : 0 < composed.document.deltaCapacity)
    : CancelsCleanly before composed ↔ count ≤ composed.document.deltaCapacity := by
  constructor
  · intro clean
    by_contra lost
    have cancelled := composing.cancel_lost (Nat.lt_of_not_le lost) positive
    have outcome := clean.outcome
    rw [cancelled] at outcome
    cases outcome
  · intro held
    obtain ⟨final, cancelled, text, restored, -, -, -⟩ := composing.cancel held positive
    refine {
      outcome := ?_
      text := ?_
      selection := ?_
      accounted := ?_
    } <;> rw [cancelled]
    · exact text
    · exact restored.trans selection
    · exact fun _ _ => text

/-- A composition begun in any reached editor cancels cleanly exactly when it was marked at most
4096 times, the capacity of the edit log.
-/
theorem cancelsCleanly_iff {unicode : Unicode} {editor opened : Editor} {first : Marking}
    {summary : EditSummary} (reached : Reached unicode editor) (closed : editor.ime = none)
    (accepted : Editor.mark first editor = (.ok summary, opened)) (further : List Marking)
    : ∃ composed,
        Editor.markAll further opened = (.ok (), composed)
        ∧ (CancelsCleanly editor composed ↔ further.length + 1 ≤ 4096) := by
  obtain ⟨chunks, edits⟩ := reached.edits
  obtain ⟨full, logged⟩ := (Logged.fromRope chunks).edits edits
  have capacity : opened.document.deltaCapacity = 4096 := by
    have opens := (Editor.replaceAndMarkText_editsDocument _ _ _).apply accepted
    exact opens.deltaCapacity.trans edits.deltaCapacity
  obtain ⟨ime, composing, -, selection, -⟩ := Composing.first logged closed accepted
  obtain ⟨composed, marked, ran, composing', kept, -, same⟩ :=
    Editor.markAll_composing composing further
  have composedCapacity : composed.document.deltaCapacity = 4096 := same.trans capacity
  have clean := composing'.cancelsCleanly_iff_held (kept.trans selection) (by omega)
  rw [composedCapacity, Nat.add_comm] at clean
  exact ⟨composed, ran, clean⟩

private theorem mark_new
    : ∃ summary,
        Editor.mark ⟨none, ['a'], none⟩ (Editor.new [])
          = (.ok summary, (Editor.mark ⟨none, ['a'], none⟩ (Editor.new [])).2) :=
  Stateful.ok_of_isOk (by decide)

/-- Composing one letter in an empty editor and cancelling is clean. -/
theorem cancelsCleanly_iff_single
    : ∃ composed,
        Editor.markAll [] (Editor.mark ⟨none, ['a'], none⟩ (Editor.new [])).2
          = (.ok (), composed)
        ∧ (CancelsCleanly (Editor.new []) composed ↔ ([] : List Marking).length + 1 ≤ 4096) := by
  obtain ⟨summary, accepted⟩ := mark_new
  have reached : Reached Unicode.ascii (Editor.new []) := ⟨[[]], _, .refl, .refl⟩
  exact cancelsCleanly_iff reached rfl accepted []

/-- The 4097th marked text of a composition makes cancelling it fail: the letter stays in the
empty document it was composed in, without a composition and without anything to undo.
-/
theorem cancelsCleanly_lost
    : ∃ summary opened composed,
        Editor.mark ⟨none, ['a'], none⟩ (Editor.new []) = (.ok summary, opened)
        ∧ Editor.markAll (List.replicate 4096 ⟨none, ['a'], none⟩) opened = (.ok (), composed)
        ∧ ¬ CancelsCleanly (Editor.new []) composed
        ∧ (Editor.cancelComposition composed).1.isOk = false
        ∧ (Editor.cancelComposition composed).2.ime = none
        ∧ (Editor.cancelComposition composed).2.text = ['a']
        ∧ (Editor.cancelComposition composed).2.canUndo = false := by
  obtain ⟨summary, accepted⟩ := mark_new
  obtain ⟨ime, composing, -, selection, history⟩ :=
    Composing.first (Logged.fromRope [[]]) rfl accepted
  obtain ⟨composed, marked, ran, composing, kept, history', capacity⟩ :=
    Editor.markAll_composing composing (List.replicate 4096 ⟨none, ['a'], none⟩)
  have opens := (Editor.replaceAndMarkText_editsDocument _ _ _).apply accepted
  have full : composed.document.deltaCapacity = 4096 := capacity.trans opens.deltaCapacity
  rw [List.length_replicate, List.map_replicate] at composing
  have lost : ¬ 1 + 4096 ≤ composed.document.deltaCapacity := by omega
  have cancelled := composing.cancel_lost (Nat.lt_of_not_le lost) (by omega)
  obtain ⟨front, back, empty, text, -, -⟩ := composing.replaced
  refine ⟨summary, _, composed, accepted, ran, ?_, ?_, ?_, ?_, ?_⟩
  · rw [composing.cancelsCleanly_iff_held (kept.trans selection) (by omega)]
    exact lost
  · rw [cancelled]
    rfl
  · rw [cancelled]
  · have blank : (Editor.new []).text = [] := rfl
    have outside := List.append_eq_nil_iff.mp (empty.symm.trans blank)
    have behind := List.append_eq_nil_iff.mp outside.2
    have last : (List.replicate 4096 ['a']).getLastD ['a'] = ['a'] := by
      rw [List.getLastD_eq_getLast?, List.getLast?_replicate]
      rfl
    rw [cancelled]
    rw [outside.1, behind.2, last] at text
    exact text
  · rw [cancelled]
    unfold Editor.canUndo
    rw [history', history]
    rfl

end Hane.Editing
