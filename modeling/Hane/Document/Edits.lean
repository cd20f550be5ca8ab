import Hane.Document.Buffer
import Hane.Foundations.Stateful

/-! What validation accepts, and what a successful edit does to the text. -/

namespace Hane.Document.RopeBuffer

open Hane.Foundations

theorem isCharBoundary_iff (buffer : RopeBuffer) (byte : Nat)
    : buffer.isCharBoundary byte = true ↔ Boundary buffer.rope byte := by
  simp only [isCharBoundary, Bool.or_eq_true, beq_iff_eq, Rope.boundary_iff]
  constructor
  · rintro (atEnd | fixed)
    · rw [atEnd]
      exact (Rope.boundary_iff _ _).mp (Boundary.utf8Len buffer.rope)
    · exact fixed
  · exact Or.inr

/-- An offset is accepted exactly when it is a character boundary of the text. -/
theorem validateOffset_ok_iff (buffer : RopeBuffer) (offset : Nat)
    : buffer.validateOffset offset = .ok () ↔ Boundary buffer.rope offset := by
  rw [← isCharBoundary_iff]
  unfold validateOffset
  constructor
  · intro valid
    split at valid
    · cases valid
    · split at valid
      · cases valid
      · rename_i boundary
        simpa using boundary
  · intro boundary
    have inside : offset ≤ buffer.rope.lenBytes :=
      ((isCharBoundary_iff buffer offset).mp boundary).le
    rw [if_neg (Nat.not_lt.mpr inside), if_neg (by simp [boundary])]

/-- A range is accepted exactly when it is ordered and both ends are boundaries. -/
theorem validateRange_ok_iff (buffer : RopeBuffer) (range : SourceRange)
    : buffer.validateRange range = .ok ()
      ↔ range.start ≤ range.stop
        ∧ Boundary buffer.rope range.start
        ∧ Boundary buffer.rope range.stop := by
  unfold validateRange
  constructor
  · intro valid
    split at valid
    · cases valid
    · split at valid
      · cases valid
      · rename_i ordered _
        obtain ⟨_, first, last⟩ := (except_bind_ok_iff _ _ _).mp valid
        exact ⟨Nat.le_of_not_lt ordered, (validateOffset_ok_iff _ _).mp first,
          (validateOffset_ok_iff _ _).mp last⟩
  · rintro ⟨ordered, first, last⟩
    have inside : range.stop ≤ buffer.rope.lenBytes := last.le
    rw [if_neg (Nat.not_lt.mpr ordered), if_neg (Nat.not_lt.mpr inside),
      (validateOffset_ok_iff _ _).mpr first, (validateOffset_ok_iff _ _).mpr last]
    rfl

/-- Editing at a split of the text replaces exactly the middle part. -/
theorem edit_append (buffer : RopeBuffer) (before deleted after replacement : Text)
    (text : buffer.rope = before ++ (deleted ++ after))
    : buffer.edit ⟨utf8Len before, utf8Len before + utf8Len deleted⟩ replacement
      = .ok (
          editSummary buffer.revision
            ⟨utf8Len before, utf8Len before + utf8Len deleted⟩ replacement deleted,
          { buffer with
            rope := before ++ (replacement ++ after)
            lineMirror :=
              buffer.editedMirror before.length (before.length + deleted.length) replacement
            revision := buffer.revision + 1
            deltas :=
              pushDelta buffer.deltas buffer.deltaCapacity
                (editDelta buffer.revision
                  ⟨utf8Len before, utf8Len before + utf8Len deleted⟩ replacement)
          }) := by
  have valid : buffer.validateRange ⟨utf8Len before, utf8Len before + utf8Len deleted⟩
      = .ok () := by
    rw [validateRange_ok_iff, text]
    refine ⟨by simp, Boundary.of_append before _, ?_⟩
    have last := Boundary.of_append (before ++ deleted) after
    simpa using last
  simp only [edit, valid, text]
  simp only [Rope.byteToChar_append, Rope.byteToChar_append_append, Rope.slice_append,
    Rope.remove_append, Rope.insert_append]
  rfl

theorem edit_split {buffer next : RopeBuffer} {range : SourceRange} {replacement : Text}
    {summary : EditSummary} (edited : buffer.edit range replacement = .ok (summary, next))
    : ∃ before deleted after,
        buffer.rope = before ++ (deleted ++ after)
        ∧ range = ⟨utf8Len before, utf8Len before + utf8Len deleted⟩ := by
  have valid : buffer.validateRange range = .ok () := by
    unfold edit at edited
    cases outcome : buffer.validateRange range with
    | ok => rfl
    | error problem =>
        rw [outcome] at edited
        cases edited
  obtain ⟨ordered, first, last⟩ := (validateRange_ok_iff buffer range).mp valid
  obtain ⟨before, deleted, after, text, start, stop⟩ := first.split last ordered
  refine ⟨before, deleted, after, by simpa using text, ?_⟩
  rw [stop, start]

/-- Everything a successful edit does, in terms of the split it makes. -/
theorem edit_cases {buffer next : RopeBuffer} {range : SourceRange} {replacement : Text}
    {summary : EditSummary} (edited : buffer.edit range replacement = .ok (summary, next))
    : ∃ before deleted after,
        buffer.rope = before ++ (deleted ++ after)
        ∧ range = ⟨utf8Len before, utf8Len before + utf8Len deleted⟩
        ∧ summary = editSummary buffer.revision range replacement deleted
        ∧ next
          = { buffer with
              rope := before ++ (replacement ++ after)
              lineMirror :=
                buffer.editedMirror before.length (before.length + deleted.length)
                  replacement
              revision := buffer.revision + 1
              deltas :=
                pushDelta buffer.deltas buffer.deltaCapacity
                  (editDelta buffer.revision range replacement)
            } := by
  obtain ⟨before, deleted, after, text, rfl⟩ := edit_split edited
  rw [edit_append buffer before deleted after replacement text] at edited
  obtain ⟨rfl, rfl⟩ := Prod.mk.inj (Except.ok.inj edited)
  exact ⟨before, deleted, after, text, rfl, rfl, rfl⟩

theorem byteToChar_ok {buffer : RopeBuffer} {offset char : Nat}
    (counted : buffer.byteToChar offset = .ok char)
    : Boundary buffer.rope offset ∧ buffer.rope.byteToChar offset = char := by
  obtain ⟨_, valid, counted⟩ := (except_bind_ok_iff _ _ _).mp counted
  exact ⟨(validateOffset_ok_iff _ _).mp valid, Except.ok.inj counted⟩

theorem text_split {buffer : RopeBuffer} {range : SourceRange} {content : Text}
    (read : buffer.text range = .ok content)
    : ∃ before after,
        buffer.rope = before ++ (content ++ after)
        ∧ range = ⟨utf8Len before, utf8Len before + utf8Len content⟩ := by
  obtain ⟨start, first, read⟩ := (except_bind_ok_iff _ _ _).mp read
  obtain ⟨stop, last, read⟩ := (except_bind_ok_iff _ _ _).mp read
  obtain ⟨starts, rfl⟩ := byteToChar_ok first
  obtain ⟨stops, rfl⟩ := byteToChar_ok last
  split at read
  · cases read
  · rename_i forward
    obtain rfl := Except.ok.inj read
    -- Boundaries are ordered as their character counts are.
    have ordered : range.start ≤ range.stop := by
      have bytes := weight_take_mono Char.utf8Size buffer.rope (Nat.le_of_not_lt forward)
      have start := (Rope.boundary_iff _ _).mp starts
      have stop := (Rope.boundary_iff _ _).mp stops
      rwa [← start, ← stop]
    obtain ⟨before, middle, after, text, start, stop⟩ := starts.split stops ordered
    rw [List.append_assoc] at text
    have content : Rope.slice buffer.rope (buffer.rope.byteToChar range.start)
        (buffer.rope.byteToChar range.stop) = middle := by
      rw [← start, ← stop, text]
      simp only [Rope.byteToChar_append, Rope.byteToChar_append_append, Rope.slice_append]
    rw [content]
    exact ⟨before, after, text, by rw [stop, start]⟩

/-- Reading at a split of the text reads the middle part. -/
theorem text_append {buffer : RopeBuffer} {before content after : Text}
    (split : buffer.rope = before ++ (content ++ after))
    : buffer.text ⟨utf8Len before, utf8Len before + utf8Len content⟩ = .ok content := by
  have starts : buffer.byteToChar (utf8Len before) = .ok before.length := by
    have valid : buffer.validateOffset (utf8Len before) = .ok () := by
      rw [validateOffset_ok_iff, split]
      exact Boundary.of_append before _
    unfold byteToChar
    rw [valid, split, Rope.byteToChar_append]
    rfl
  have stops : buffer.byteToChar (utf8Len before + utf8Len content)
      = .ok (before.length + content.length) := by
    have valid : buffer.validateOffset (utf8Len before + utf8Len content) = .ok () := by
      rw [validateOffset_ok_iff, split]
      have last := Boundary.of_append (before ++ content) after
      simpa using last
    unfold byteToChar
    rw [valid, split, Rope.byteToChar_append_append]
    rfl
  unfold text slice
  refine (except_bind_ok_iff _ _ _).mpr ⟨_, starts, ?_⟩
  refine (except_bind_ok_iff _ _ _).mpr ⟨_, stops, ?_⟩
  dsimp only
  rw [if_neg (by omega), split, Rope.slice_append]
  rfl

end Hane.Document.RopeBuffer
