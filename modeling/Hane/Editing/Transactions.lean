import Hane.Foundations.Timeline
import Hane.Document.Edits
import Hane.Editing.History

/-! History entries as replacements of the text: what merging, undoing and redoing them does.
-/

namespace Hane.Editing

open Hane.Foundations Hane.Document

namespace HistoryEntry

/-- The entry replaces its deleted text by its inserted text at its start. -/
def Applies (entry : HistoryEntry) (before after : Text) : Prop :=
  ∃ front back,
    before = front ++ (entry.deleted ++ back)
    ∧ after = front ++ (entry.inserted ++ back)
    ∧ entry.start = utf8Len front

theorem Applies.fromSummary {buffer next : RopeBuffer} {range : SourceRange}
    {replacement : Text} {summary : EditSummary}
    (edited : buffer.edit range replacement = .ok (summary, next))
    (selectionBefore selectionAfter : Selection) (kind : EditKind) (now : Instant)
    : (HistoryEntry.fromSummary summary replacement selectionBefore selectionAfter kind now).Applies
        buffer.rope next.rope := by
  obtain ⟨before, deleted, after, text, rfl, rfl, rfl⟩ := RopeBuffer.edit_cases edited
  exact ⟨before, after, text, rfl, rfl⟩

theorem Applies.insert {entry next : HistoryEntry} {before middle after : Text}
    (first : entry.Applies before middle) (second : next.Applies middle after)
    (pure : next.deleted = [])
    (adjacent : next.start = entry.start + utf8Len entry.inserted)
    : ({ entry with inserted := entry.inserted ++ next.inserted } : HistoryEntry).Applies
        before after := by
  obtain ⟨front, back, rfl, rfl, start⟩ := first
  obtain ⟨front', back', same, rfl, start'⟩ := second
  rw [pure, List.nil_append, ← List.append_assoc] at same
  have aligned : utf8Len (front ++ entry.inserted) = utf8Len front' := by
    rw [utf8Len_append, ← start, ← adjacent, start']
  obtain ⟨rfl, rfl⟩ := append_inj_of_utf8Len same aligned
  exact ⟨front, back, rfl, by simp only [List.append_assoc], start⟩

theorem Applies.backspace {entry next : HistoryEntry} {before middle after : Text}
    (first : entry.Applies before middle) (second : next.Applies middle after)
    (pure : entry.inserted = []) (pure' : next.inserted = [])
    (adjacent : next.start + utf8Len next.deleted = entry.start)
    : ({ entry with
        start := next.start, deleted := next.deleted ++ entry.deleted } : HistoryEntry).Applies
        before after := by
  obtain ⟨front, back, rfl, rfl, start⟩ := first
  obtain ⟨front', back', same, rfl, start'⟩ := second
  rw [pure, List.nil_append, ← List.append_assoc] at same
  have aligned : utf8Len front = utf8Len (front' ++ next.deleted) := by
    rw [utf8Len_append, ← start, ← adjacent, start']
  obtain ⟨rfl, rfl⟩ := append_inj_of_utf8Len same aligned
  refine ⟨front', back, by simp only [List.append_assoc], ?_, start'⟩
  simp only [pure, pure', List.nil_append]

theorem Applies.delete {entry next : HistoryEntry} {before middle after : Text}
    (first : entry.Applies before middle) (second : next.Applies middle after)
    (pure : entry.inserted = []) (pure' : next.inserted = [])
    (adjacent : next.start = entry.start)
    : ({ entry with deleted := entry.deleted ++ next.deleted } : HistoryEntry).Applies
        before after := by
  obtain ⟨front, back, rfl, rfl, start⟩ := first
  obtain ⟨front', back', same, rfl, start'⟩ := second
  rw [pure, List.nil_append] at same
  have aligned : utf8Len front = utf8Len front' := by
    rw [← start, ← adjacent, start']
  obtain ⟨rfl, rfl⟩ := append_inj_of_utf8Len same aligned
  refine ⟨front, back', by simp only [List.append_assoc], ?_, start⟩
  simp only [pure, pure', List.nil_append]

/-- A merged edit amounts to both of its edits, by the three rules that merge. -/
theorem Applies.mergedEdit {entry next merged : HistoryEntry} {before middle after : Text}
    (first : entry.Applies before middle) (second : next.Applies middle after)
    (merges : entry.mergedEdit next = some merged)
    : merged.Applies before after ∧ merged.selectionBefore = entry.selectionBefore := by
  unfold HistoryEntry.mergedEdit at merges
  split at merges
  case h_1 =>
    split at merges
    case isTrue rule =>
      obtain rfl := Option.some.inj merges
      exact ⟨first.insert second rule.1 rule.2.1, rfl⟩
    case isFalse => cases merges
  case h_2 =>
    split at merges
    case isTrue rule =>
      obtain rfl := Option.some.inj merges
      exact ⟨first.backspace second rule.1 rule.2.1 rule.2.2, rfl⟩
    case isFalse => cases merges
  case h_3 =>
    split at merges
    case isTrue rule =>
      obtain rfl := Option.some.inj merges
      exact ⟨first.delete second rule.1 rule.2.1 rule.2.2, rfl⟩
    case isFalse => cases merges
  all_goals cases merges

theorem Applies.tryMerge {entry next merged : HistoryEntry} {before middle after : Text}
    (first : entry.Applies before middle) (second : next.Applies middle after)
    (merges : entry.tryMerge next = some merged)
    : merged.Applies before after ∧ merged.selectionBefore = entry.selectionBefore := by
  unfold HistoryEntry.tryMerge at merges
  split at merges
  · cases merges
  · obtain ⟨edit, edits, rfl⟩ := Option.map_eq_some_iff.mp merges
    obtain ⟨applies, selection⟩ := first.mergedEdit second edits
    exact ⟨applies, selection⟩

theorem Applies.undo {entry : HistoryEntry} {before : Text} {document : RopeBuffer}
    (applies : entry.Applies before document.rope)
    : ∃ summary reverted,
        entry.undo document = .ok (summary, reverted) ∧ reverted.rope = before := by
  obtain ⟨front, back, rfl, text, start⟩ := applies
  have edited := RopeBuffer.edit_append document front entry.inserted back entry.deleted text
  rw [← start] at edited
  exact ⟨_, _, edited, rfl⟩

theorem Applies.redo {entry : HistoryEntry} {after : Text} {document : RopeBuffer}
    (applies : entry.Applies document.rope after)
    : ∃ summary repeated,
        entry.redo document = .ok (summary, repeated) ∧ repeated.rope = after := by
  obtain ⟨front, back, text, rfl, start⟩ := applies
  have edited := RopeBuffer.edit_append document front entry.deleted back entry.inserted text
  rw [← start] at edited
  exact ⟨_, _, edited, rfl⟩

def Recorded (seen : Text → Selection → Prop) (entry : HistoryEntry)
    (before after : Text) : Prop :=
  entry.Applies before after ∧ seen before entry.selectionBefore

end HistoryEntry

open HistoryEntry

/-- The undo stack leads from the initial text to the present one, and the redo stack leads
on from there.
-/
structure History.Accounts (seen : Text → Selection → Prop) (initial : Text)
    (history : History) (now : Text) : Prop where
  past : Spans (Recorded seen) initial history.undoStack now
  future : ∃ final, Continues (Recorded seen) now history.redoStack final

namespace History

variable {seen : Text → Selection → Prop} {initial now : Text} {history : History}

theorem Accounts.empty (seen : Text → Selection → Prop) (initial : Text)
    : History.empty.Accounts seen initial initial where
  past := .nil initial
  future := ⟨initial, .nil initial⟩

/-- Closing the latest group leaves both stacks alone. -/
theorem Accounts.breakGroup (accounts : history.Accounts seen initial now)
    : history.breakGroup.Accounts seen initial now :=
  ⟨accounts.past, accounts.future⟩

theorem Accounts.mono {wider : Text → Selection → Prop}
    (implies : ∀ text selection, seen text selection → wider text selection)
    (accounts : history.Accounts seen initial now)
    : history.Accounts wider initial now := by
  have weaken (entry : HistoryEntry) (before after : Text)
      (recorded : Recorded seen entry before after) : Recorded wider entry before after :=
    ⟨recorded.1, implies _ _ recorded.2⟩
  obtain ⟨final, continues⟩ := accounts.future
  exact ⟨accounts.past.mono weaken, final, continues.mono weaken⟩

/-- Pushing an entry extends the past, also when it merges into the latest entry, by the
choice that `pushOrMerge` makes.
-/
theorem spans_pushOrMerge {applies : HistoryEntry → Text → Text → Prop} {after : Text}
    {entry : HistoryEntry}
    (merging :
      ∀ previous merged before,
        applies previous before now
        → applies entry now after
        → previous.tryMerge entry = some merged
        → applies merged before after)
    (past : Spans applies initial history.undoStack now) (applied : applies entry now after)
    : Spans applies initial (history.pushOrMerge entry) after := by
  unfold History.pushOrMerge
  have pushed : Spans applies initial (entry :: history.undoStack) after := past.cons applied
  split
  case h_2 empty => rwa [empty] at pushed
  case h_1 previous rest stack =>
    rw [stack] at pushed past
    split
    case isFalse => exact pushed
    case isTrue =>
      split
      case h_2 => exact pushed
      case h_1 merged merges =>
        obtain ⟨before, older, latest⟩ := past.latest
        exact older.cons (merging previous merged before latest applied merges)

theorem Accounts.pushOrMerge {after : Text} {entry : HistoryEntry}
    (accounts : history.Accounts seen initial now) (recorded : Recorded seen entry now after)
    : Spans (Recorded seen) initial (history.pushOrMerge entry) after := by
  apply spans_pushOrMerge ?_ accounts.past recorded
  intro previous merged before latest recorded merges
  obtain ⟨applies, selection⟩ := latest.1.tryMerge recorded.1 merges
  exact ⟨applies, selection ▸ latest.2⟩

theorem Accounts.record {document edited : RopeBuffer} {range : SourceRange}
    {inserted : Text} {summary : EditSummary} {selectionBefore : Selection}
    (accounts : history.Accounts seen initial document.rope)
    (edit : document.edit range inserted = .ok (summary, edited))
    (known : seen document.rope selectionBefore)
    (selectionAfter : Selection) (kind : EditKind) (now : Instant)
    : (history.record summary inserted selectionBefore selectionAfter kind now).Accounts
        seen initial edited.rope where
  past := accounts.pushOrMerge ⟨Applies.fromSummary edit _ _ _ _, known⟩
  future := ⟨edited.rope, .nil _⟩

theorem Accounts.recordReplacement {after deleted inserted : Text} {start : Nat}
    {selectionBefore selectionAfter : Selection} {kind : EditKind} {instant : Instant}
    (accounts : history.Accounts seen initial now)
    (applies :
      Recorded seen
        ⟨start, deleted, inserted, selectionBefore, selectionAfter, kind, instant⟩ now after)
    : (history.recordReplacement start deleted inserted selectionBefore selectionAfter kind
        instant).Accounts seen initial after where
  past := accounts.past.cons applies
  future := ⟨after, .nil after⟩

theorem undo_of_recorded {entry : HistoryEntry} {rest : List HistoryEntry} {before : Text}
    {document : RopeBuffer} (stack : history.undoStack = entry :: rest)
    (recorded : Recorded seen entry before document.rope)
    : ∃ summary reverted,
        history.undo document
          = (.ok (some (summary, entry.selectionBefore)),
              ⟨rest, entry :: history.redoStack, false⟩, reverted)
        ∧ reverted.rope = before := by
  obtain ⟨summary, reverted, undone, text⟩ := recorded.1.undo
  refine ⟨summary, reverted, ?_, text⟩
  unfold History.undo
  simp only [stack, undone]
  rfl

theorem redo_of_recorded {entry : HistoryEntry} {rest : List HistoryEntry} {after : Text}
    {document : RopeBuffer} (stack : history.redoStack = entry :: rest)
    (recorded : Recorded seen entry document.rope after)
    : ∃ summary repeated,
        history.redo document
          = (.ok (some (summary, entry.selectionAfter)),
              ⟨entry :: history.undoStack, rest, false⟩, repeated)
        ∧ repeated.rope = after := by
  obtain ⟨summary, repeated, redone, text⟩ := recorded.1.redo
  refine ⟨summary, repeated, ?_, text⟩
  unfold History.redo
  simp only [stack, redone]
  rfl

end History

end Hane.Editing
