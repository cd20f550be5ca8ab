import Hane.Document.Utf16
import Hane.Editing.Composition

/-! Ranges in UTF-16 units, which input methods name, against ranges of the document. -/

namespace Hane.Editing

open Hane.Document Hane.Foundations

namespace Editor

def sourceRangeToUtf16 (editor : Editor) (range : SourceRange) : Except BufferError Utf16Range := do
  editor.document.validateRange range
  let start ← editor.document.byteToUtf16 range.start
  let stop ← editor.document.byteToUtf16 range.stop
  return ⟨start, stop⟩

def textForUtf16Range (editor : Editor) (range : Utf16Range)
    : Except BufferError (Text × Utf16Range) := do
  let source ← editor.utf16RangeToSource range
  let text ← editor.document.text source
  let exact ← editor.sourceRangeToUtf16 source
  return (text, exact)

end Editor

-- The scan of a string

/-- `str::char_indices`, from some byte on. -/
def charIndicesFrom (byte : Nat) : Text → List (Nat × Char)
  | [] => []
  | c :: rest => (byte, c) :: charIndicesFrom (byte + c.utf8Size) rest

/-- The scan of a string for the byte of a UTF-16 unit. -/
def oneFrom (target len : Nat) : List (Nat × Char) → (utf16 : Nat) → Nat
  | [], _ => len
  | (byte, c) :: rest, utf16 =>
      if utf16 ≥ target ∨ target < utf16 + RopeBuffer.lenUtf16 c then
        byte
      else
        oneFrom target len rest (utf16 + RopeBuffer.lenUtf16 c)

def one (text : Text) (target : Nat) : Nat :=
  oneFrom target (utf8Len text) (charIndicesFrom 0 text) 0

/-- The scans of a string and of a rope agree, by induction on the text. -/
theorem oneFrom_eq (target : Nat) (text : Text) (utf16 bytes : Nat)
    : oneFrom target (bytes + utf8Len text) (charIndicesFrom bytes text) utf16
      = RopeBuffer.utf16ToByteFrom target text utf16 bytes := by
  induction text generalizing utf16 bytes with
  | nil => rfl
  | cons c rest ih =>
      rw [charIndicesFrom, oneFrom, RopeBuffer.utf16ToByteFrom, utf8Len_cons, ← Nat.add_assoc, ih]

theorem one_eq (text : Text) (target : Nat)
    : one text target = RopeBuffer.utf16ToByteFrom target text 0 0 := by
  have same := oneFrom_eq target text 0 0
  rwa [Nat.zero_add] at same

-- Ranges

namespace Editor

/-- The units of a range whose ends are known. -/
theorem sourceRangeToUtf16_append {editor : Editor} {front content back : Text}
    (split : editor.document.rope = front ++ (content ++ back))
    : editor.sourceRangeToUtf16 ⟨utf8Len front, utf8Len front + utf8Len content⟩
      = .ok ⟨utf16Len front, utf16Len (front ++ content)⟩ := by
  have last : editor.document.rope = (front ++ content) ++ back := by
    rw [split, List.append_assoc]
  have valid : editor.document.validateRange ⟨utf8Len front, utf8Len front + utf8Len content⟩
      = .ok () := by
    refine (RopeBuffer.validateRange_ok_iff _ _).mpr ⟨Nat.le_add_right _ _, ?_, ?_⟩
    · exact ⟨front, content ++ back, split, rfl⟩
    · exact ⟨front ++ content, back, last, utf8Len_append _ _⟩
  have stop := RopeBuffer.byteToUtf16_append last
  rw [utf8Len_append] at stop
  rw [sourceRangeToUtf16, valid, RopeBuffer.byteToUtf16_append split, stop]
  rfl

theorem utf16RangeToSource_eq (editor : Editor) {units : Utf16Range}
    (ordered : units.start ≤ units.stop)
    : editor.utf16RangeToSource units
      = .ok ⟨editor.document.utf16ToByte units.start, editor.document.utf16ToByte units.stop⟩ := by
  have first := editor.document.utf16ToByte_floor units.start
  have last := editor.document.utf16ToByte_floor units.stop
  have valid := (RopeBuffer.validateRange_ok_iff editor.document
    ⟨editor.document.utf16ToByte units.start, editor.document.utf16ToByte units.stop⟩).mpr
    ⟨first.mono last ordered, first.boundary, last.boundary⟩
  rw [utf16RangeToSource, valid]
  rfl

theorem utf16RangeToSource_roundTrip {editor : Editor} {range : SourceRange}
    (valid : editor.document.validateRange range = .ok ())
    : ∃ units, editor.sourceRangeToUtf16 range = .ok units
        ∧ editor.utf16RangeToSource units = .ok range := by
  obtain ⟨ordered, first, last⟩ := (RopeBuffer.validateRange_ok_iff _ _).mp valid
  obtain ⟨front, content, back, split, start, stop⟩ := first.split last ordered
  have whole : editor.document.rope = front ++ (content ++ back) := by
    rw [split, List.append_assoc]
  have same : range = ⟨utf8Len front, utf8Len front + utf8Len content⟩ := by
    rw [stop, start]
  rw [same]
  refine ⟨_, sourceRangeToUtf16_append whole, ?_⟩
  have more : utf16Len front ≤ utf16Len (front ++ content) := by
    rw [utf16Len, utf16Len, weight_append]
    exact Nat.le_add_right _ _
  rw [utf16RangeToSource_eq editor more]
  have starts : editor.document.utf16ToByte (utf16Len front) = utf8Len front := by
    refine (editor.document.utf16ToByte_floor _).unique ?_
    rw [whole]
    exact utf16Floor_append front (content ++ back)
  have stops : editor.document.utf16ToByte (utf16Len (front ++ content))
      = utf8Len front + utf8Len content := by
    refine (editor.document.utf16ToByte_floor _).unique ?_
    rw [split, ← utf8Len_append]
    exact utf16Floor_append (front ++ content) back
  rw [starts, stops]

theorem textForUtf16Range_eq (editor : Editor) {units : Utf16Range}
    (ordered : units.start ≤ units.stop)
    : ∃ front content back, editor.document.rope = front ++ (content ++ back)
        ∧ editor.utf16RangeToSource units
          = .ok ⟨utf8Len front, utf8Len front + utf8Len content⟩
        ∧ editor.textForUtf16Range units
          = .ok (content, ⟨utf16Len front, utf16Len (front ++ content)⟩) := by
  have first := editor.document.utf16ToByte_floor units.start
  have last := editor.document.utf16ToByte_floor units.stop
  obtain ⟨front, content, back, split, start, stop⟩ :=
    first.boundary.split last.boundary (first.mono last ordered)
  have whole : editor.document.rope = front ++ (content ++ back) := by
    rw [split, List.append_assoc]
  have source := utf16RangeToSource_eq editor ordered
  rw [← stop, ← start] at source
  refine ⟨front, content, back, whole, source, ?_⟩
  have boundary : Boundary editor.document.rope (utf8Len front + utf8Len content) :=
    stop ▸ last.boundary
  have text : editor.document.text ⟨utf8Len front, utf8Len front + utf8Len content⟩
      = .ok content := by
    rw [RopeBuffer.text_eq (Nat.le_add_right _ _) (start ▸ first.boundary) boundary, whole,
      substring_append]
  rw [textForUtf16Range, source]
  simp only [bind, Except.bind, text, sourceRangeToUtf16_append whole]
  rfl

/-- UTF-16 ranges of a document: a source range comes back from its units, any ordered units lead
to the characters they lie in, both scans agree and neither direction changes an order.
-/
theorem utf16_ranges (editor : Editor)
    : (∀ range, editor.document.validateRange range = .ok ()
        → ∃ units, editor.sourceRangeToUtf16 range = .ok units
          ∧ editor.utf16RangeToSource units = .ok range)
      ∧ (∀ units : Utf16Range, units.start ≤ units.stop
        → ∃ front content back, editor.document.rope = front ++ (content ++ back)
          ∧ Utf16Floor editor.document.rope units.start (utf8Len front)
          ∧ Utf16Floor editor.document.rope units.stop (utf8Len front + utf8Len content)
          ∧ editor.utf16RangeToSource units
            = .ok ⟨utf8Len front, utf8Len front + utf8Len content⟩
          ∧ editor.textForUtf16Range units
            = .ok (content, ⟨utf16Len front, utf16Len (front ++ content)⟩)
          ∧ one editor.document.rope units.start = utf8Len front
          ∧ one editor.document.rope units.stop = utf8Len front + utf8Len content
          ∧ utf16RangeToByte editor.document.rope units
            = ⟨utf8Len front, utf8Len front + utf8Len content⟩)
      ∧ (∀ first last units units', first ≤ last
        → editor.document.byteToUtf16 first = .ok units
        → editor.document.byteToUtf16 last = .ok units'
        → units ≤ units')
      ∧ ∀ units units', units ≤ units'
        → editor.document.utf16ToByte units ≤ editor.document.utf16ToByte units' := by
  refine ⟨fun range valid => utf16RangeToSource_roundTrip valid, fun units ordered => ?_, ?_, ?_⟩
  · obtain ⟨front, content, back, split, source, text⟩ := textForUtf16Range_eq editor ordered
    have same := utf16RangeToSource_eq editor ordered
    rw [source] at same
    obtain ⟨start, stop⟩ := SourceRange.mk.inj (Except.ok.inj same)
    refine ⟨front, content, back, split, ?_, ?_, source, text, ?_, ?_, ?_⟩
    · rw [start]
      exact editor.document.utf16ToByte_floor units.start
    · rw [stop]
      exact editor.document.utf16ToByte_floor units.stop
    · rw [one_eq, start]
      rfl
    · rw [one_eq, stop]
      rfl
    · rw [stop, start]
      rfl
  · intro first last units units' ordered read read'
    obtain ⟨front, back, split, rfl, rfl⟩ := RopeBuffer.byteToUtf16_cases read
    obtain ⟨front', back', split', rfl, rfl⟩ := RopeBuffer.byteToUtf16_cases read'
    obtain ⟨between, rfl, -⟩ := append_split_of_utf8Len_le (split.symm.trans split') ordered
    rw [utf16Len, utf16Len, weight_append]
    exact Nat.le_add_right _ _
  · intro units units' ordered
    exact (editor.document.utf16ToByte_floor units).mono
      (editor.document.utf16ToByte_floor units') ordered

end Editor

example : one "a𝄞b".toList 2 = 1 := by decide

end Hane.Editing
