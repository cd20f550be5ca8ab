import Hane.Document.EditLog

/-! The text a range covers, and what becomes of it when the range is moved through edits. -/

namespace Hane.Document

open Hane.Document.RopeBuffer Hane.Foundations

def Covers (text : Text) (range : SourceRange) (covered : Text) : Prop :=
  ∃ before after,
    text = before ++ (covered ++ after)
    ∧ range = ⟨utf8Len before, utf8Len before + utf8Len covered⟩

theorem Covers.unique {text covered covered' : Text} {range : SourceRange}
    (covers : Covers text range covered) (covers' : Covers text range covered')
    : covered = covered' := by
  obtain ⟨before, after, rfl, rfl⟩ := covers
  obtain ⟨before', after', same, place⟩ := covers'
  obtain ⟨start, stop⟩ := SourceRange.mk.inj place
  obtain ⟨rfl, rest⟩ := append_inj_of_utf8Len same start
  exact (append_inj_of_utf8Len rest (by omega)).1

/-- An edit puts text directly against an end of a range, so that moving the range through the
edit takes the text in: an insertion at either end, or a replacement that starts where the range
ends.
-/
def RevisionDelta.absorbs (delta : RevisionDelta) (range : SourceRange) : Bool :=
  let before := delta.editedSourceRangeBefore
  !delta.editedSourceRangeAfter.isEmpty
  && (range.stop == before.start || (before.isEmpty && range.start == before.start))

/-- The text an edit puts directly in front of a range that it then moves behind that text. -/
def RevisionDelta.putInFront (delta : RevisionDelta) (replacement : Text) (range : SourceRange)
    : Text :=
  let before := delta.editedSourceRangeBefore
  if range.stop ≠ before.start ∧ before.isEmpty ∧ range.start = before.start then
    replacement
  else
    []

def RevisionDelta.putBehind (delta : RevisionDelta) (replacement : Text) (range : SourceRange)
    : Text :=
  if range.stop = delta.editedSourceRangeBefore.start then replacement else []

section
variable (revision : Nat) {edit : SourceRange} (text : Text) {offset : Nat} {bias : Bias}

theorem transformOffset_front (front : offset < edit.start ∨ offset = edit.start ∧ bias = .before)
    : (editDelta revision edit text).transformOffset offset bias = some offset :=
  if_pos front

/-- An offset behind an edit is moved by its byte change, and so is one at the end of what it
replaces.
-/
theorem transformOffset_back (ordered : edit.start ≤ edit.stop)
    (back : edit.stop < offset ∨ offset = edit.stop ∧ edit.start < edit.stop)
    : (editDelta revision edit text).transformOffset offset bias
      = some (offset + utf8Len text - edit.lenBytes) := by
  have behind : ¬ (offset < edit.start ∨ offset = edit.start ∧ bias = .before) := by omega
  have past : offset > edit.stop ∨ offset = edit.stop ∧ edit.isEmpty = false := by
    rcases back with later | ⟨rfl, replaced⟩
    · exact .inl later
    · exact .inr ⟨rfl, by simp [SourceRange.isEmpty]; omega⟩
  refine (if_neg behind).trans ((if_pos past).trans (checkedAddSigned_eq ?_))
  simp only [editDelta, SourceRange.lenBytes]
  omega

theorem transformOffset_against (inside : offset = edit.start)
    (open' : edit.start ≤ edit.stop)
    : (editDelta revision edit text).transformOffset offset .after
      = some (edit.start + utf8Len text) := by
  have behind : ¬ (offset < edit.start ∨ offset = edit.start ∧ Bias.after = Bias.before) := by
    rintro (early | ⟨_, biased⟩)
    · omega
    · cases biased
  have within : ¬ (offset > edit.stop ∨ offset = edit.stop ∧ edit.isEmpty = false) := by
    rintro (late | ⟨last, replaced⟩)
    · omega
    · simp [SourceRange.isEmpty] at replaced
      omega
  exact (if_neg behind).trans (if_neg within)

end

/-- Where an edit takes a range, by how the two lie to each other. -/
theorem transformRange_editDelta (revision : Nat) {range edit : SourceRange} (text : Text)
    (ordered : range.start ≤ range.stop) (editOrdered : edit.start ≤ edit.stop)
    : (editDelta revision edit text).transformRange range
      = if range.intersects edit then
          none
        else if range.stop < edit.start then
          some range
        else if range.stop = edit.start then
          some ⟨range.start, edit.start + utf8Len text⟩
        else if edit.isEmpty ∧ range.start = edit.start then
          some ⟨range.start, range.stop + utf8Len text⟩
        else
          some ⟨range.start + utf8Len text - edit.lenBytes,
            range.stop + utf8Len text - edit.lenBytes⟩ := by
  show (if range.intersects edit then none else _) = _
  by_cases touched : range.intersects edit
  · simp only [touched, if_true]
  · have apart : edit.stop ≤ range.start ∨ range.stop ≤ edit.start := by
      simp [SourceRange.intersects] at touched
      omega
    simp only [touched, Bool.false_eq_true, if_false]
    by_cases front : range.stop < edit.start
    · rw [if_pos front, transformOffset_front revision text (.inl (by omega)),
        transformOffset_front revision text (.inl front)]
      rfl
    · rw [if_neg front]
      by_cases against : range.stop = edit.start
      · have start : range.start < edit.start
            ∨ range.start = edit.start ∧ Bias.before = Bias.before := by
          simp only [and_true]
          omega
        rw [if_pos against, transformOffset_front revision text start,
          transformOffset_against revision text against editOrdered]
        rfl
      · rw [if_neg against]
        by_cases inserted : edit.isEmpty ∧ range.start = edit.start
        · have none : edit.start = edit.stop := by simpa [SourceRange.isEmpty] using inserted.1
          rw [if_pos inserted, transformOffset_front revision text (.inr ⟨inserted.2, rfl⟩),
            transformOffset_back revision text editOrdered (.inl (by omega))]
          simp [SourceRange.lenBytes, none]
        · have past : edit.stop < range.start
              ∨ range.start = edit.stop ∧ edit.start < edit.stop := by
            simp only [SourceRange.isEmpty, beq_iff_eq] at inserted
            omega
          rw [if_neg inserted, transformOffset_back revision text editOrdered past,
            transformOffset_back revision text editOrdered (by omega)]
          rfl

theorem absorbs_editDelta (revision : Nat) (range edit : SourceRange) (text : Text)
    : (editDelta revision edit text).absorbs range = true
      ↔ text ≠ []
        ∧ (range.stop = edit.start ∨ (edit.start = edit.stop ∧ range.start = edit.start)) := by
  simp [RevisionDelta.absorbs, editDelta, SourceRange.isEmpty, utf8Len_eq_zero_iff]

/-- Two ranges are moved by the same distance. -/
def Shifts (range moved inner innerMoved : SourceRange) : Prop :=
  innerMoved.start + range.start = inner.start + moved.start
  ∧ innerMoved.stop + range.start = inner.stop + moved.start

/-- An edit that does not touch a range and puts nothing against it moves all that lies in the
range by one distance, by the side of the range the edit is on.
-/
theorem transformRange_within {revision : Nat} {range moved edit inner : SourceRange}
    {text : Text} (editOrdered : edit.start ≤ edit.stop)
    (moves : (editDelta revision edit text).transformRange range = some moved)
    (apart : (editDelta revision edit text).absorbs range = false)
    (start : range.start ≤ inner.start) (ordered : inner.start ≤ inner.stop)
    (stop : inner.stop ≤ range.stop)
    : ∃ innerMoved,
        (editDelta revision edit text).transformRange inner = some innerMoved
        ∧ Shifts range moved inner innerMoved := by
  have nothing : text = []
      ∨ ¬ (range.stop = edit.start ∨ (edit.start = edit.stop ∧ range.start = edit.start)) := by
    have absorbs := absorbs_editDelta revision range edit text
    simp only [apart, Bool.false_eq_true, false_iff, not_and] at absorbs
    by_cases none : text = []
    · exact .inl none
    · exact .inr (absorbs none)
  rw [transformRange_editDelta revision text (by omega) editOrdered] at moves
  rw [transformRange_editDelta revision text ordered editOrdered]
  have length : utf8Len text = 0
      ∨ ¬ (range.stop = edit.start ∨ (edit.start = edit.stop ∧ range.start = edit.start)) :=
    nothing.imp_left fun none => (utf8Len_eq_zero_iff text).mpr none
  generalize utf8Len text = size at moves length ⊢
  simp only [SourceRange.intersects, SourceRange.isEmpty, SourceRange.lenBytes,
    Bool.and_eq_true, decide_eq_true_eq, beq_iff_eq] at moves ⊢
  split at moves
  · cases moves
  · next touched =>
    rw [if_neg (by omega)]
    split at moves
    · next ahead =>
      obtain rfl := Option.some.inj moves
      exact ⟨inner, if_pos (by omega), rfl, rfl⟩
    · split at moves
      · next against =>
        obtain rfl := Option.some.inj moves
        obtain rfl : size = 0 := by omega
        by_cases ahead : inner.stop < edit.start
        · exact ⟨inner, if_pos ahead, rfl, rfl⟩
        · rw [if_neg ahead, if_pos (by omega)]
          exact ⟨_, rfl, rfl, by dsimp only; omega⟩
      · split at moves
        · next inserted =>
          obtain rfl := Option.some.inj moves
          obtain rfl : size = 0 := by omega
          by_cases first : inner.stop = edit.start
          · rw [if_neg (by omega), if_pos first]
            exact ⟨_, rfl, rfl, by dsimp only; omega⟩
          · rw [if_neg (by omega), if_neg first]
            by_cases same : edit.start = edit.stop ∧ inner.start = edit.start
            · rw [if_pos same]
              exact ⟨_, rfl, rfl, rfl⟩
            · rw [if_neg same]
              refine ⟨_, rfl, ?_, ?_⟩ <;> (dsimp only; omega)
        · next inserted =>
          obtain rfl := Option.some.inj moves
          rw [if_neg (by omega), if_neg (by omega), if_neg (by omega)]
          refine ⟨_, rfl, ?_, ?_⟩ <;> (dsimp only; omega)

end Hane.Document
