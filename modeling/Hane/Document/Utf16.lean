import Hane.Document.Boundaries
import Hane.Document.Edits

/-! Offsets in UTF-16 units, as platform input methods count, against byte offsets. -/

namespace Hane.Document

open Hane.Foundations

def utf16Len (text : Text) : Nat := weight RopeBuffer.lenUtf16 text

theorem lenUtf16_pos (c : Char) : 0 < RopeBuffer.lenUtf16 c := by
  rw [RopeBuffer.lenUtf16]
  split <;> decide

/-- A byte offset is where the last character starts that is at most some UTF-16 units into a
text, or the end of the text.
-/
def Utf16Floor (text : Text) (units byte : Nat) : Prop :=
  ∃ front back, text = front ++ back
    ∧ byte = utf8Len front
    ∧ utf16Len front ≤ units
    ∧ ∀ c, back.head? = some c → units < utf16Len front + RopeBuffer.lenUtf16 c

/-- More units lead to no fewer bytes. -/
theorem Utf16Floor.mono {text : Text} {units units' byte byte' : Nat}
    (first : Utf16Floor text units byte) (second : Utf16Floor text units' byte')
    (ordered : units ≤ units')
    : byte ≤ byte' := by
  obtain ⟨front, back, split, rfl, inside, -⟩ := first
  obtain ⟨front', back', split', rfl, -, last⟩ := second
  by_contra behind
  rcases List.append_eq_append_iff.mp (split.symm.trans split') with
    ⟨more, rfl, -⟩ | ⟨more, rfl, rest⟩
  · rw [utf8Len_append] at behind
    omega
  · cases more with
    | nil => simp at behind
    | cons c more =>
        have next := last c (by rw [rest]; rfl)
        rw [utf16Len, weight_append, weight_cons] at inside
        rw [utf16Len] at next
        omega

theorem Utf16Floor.unique {text : Text} {units byte byte' : Nat}
    (first : Utf16Floor text units byte) (second : Utf16Floor text units byte')
    : byte = byte' :=
  Nat.le_antisymm (first.mono second (Nat.le_refl _)) (second.mono first (Nat.le_refl _))

theorem Utf16Floor.boundary {text : Text} {units byte : Nat}
    (floor : Utf16Floor text units byte)
    : Boundary text byte := by
  obtain ⟨front, back, rfl, rfl, -⟩ := floor
  exact Boundary.of_append front back

/-- The units of a prefix lead to where it ends. -/
theorem utf16Floor_append (front back : Text)
    : Utf16Floor (front ++ back) (utf16Len front) (utf8Len front) :=
  ⟨front, back, rfl, rfl, Nat.le_refl _, fun c _ => Nat.lt_add_of_pos_right (lenUtf16_pos c)⟩

/-- The scan of a text stops where the last character starts, by induction on the text. -/
theorem utf16ToByteFrom_floor (offset : Nat) (text : Text) (utf16 bytes : Nat)
    : ∃ byte, RopeBuffer.utf16ToByteFrom offset text utf16 bytes = bytes + byte
        ∧ Utf16Floor text (offset - utf16) byte := by
  induction text generalizing utf16 bytes with
  | nil => exact ⟨0, rfl, [], [], rfl, rfl, Nat.zero_le _, by simp⟩
  | cons c rest ih =>
      have wide := lenUtf16_pos c
      rw [RopeBuffer.utf16ToByteFrom]
      split
      · refine ⟨0, rfl, [], c :: rest, rfl, rfl, Nat.zero_le _, ?_⟩
        rintro d found
        obtain rfl := Option.some.inj found
        simp only [utf16Len, weight_nil]
        omega
      · obtain ⟨byte, reached, front, back, rfl, rfl, inside, last⟩ :=
          ih (utf16 + RopeBuffer.lenUtf16 c) (bytes + c.utf8Size)
        refine ⟨c.utf8Size + utf8Len front, by omega, c :: front, back, rfl,
          (utf8Len_cons c front).symm, ?_, ?_⟩
        · rw [utf16Len] at inside ⊢
          rw [weight_cons]
          omega
        · intro d found
          have next := last d found
          rw [utf16Len] at next ⊢
          rw [weight_cons]
          omega

namespace RopeBuffer

theorem utf16ToByte_floor (buffer : RopeBuffer) (offset : Nat)
    : Utf16Floor buffer.rope offset (buffer.utf16ToByte offset) := by
  obtain ⟨byte, reached, floor⟩ := utf16ToByteFrom_floor offset buffer.rope 0 0
  rw [utf16ToByte, reached, Nat.zero_add]
  exact floor

theorem byteToUtf16_append {buffer : RopeBuffer} {front back : Text}
    (split : buffer.rope = front ++ back)
    : buffer.byteToUtf16 (utf8Len front) = .ok (utf16Len front) := by
  have boundary : Boundary buffer.rope (utf8Len front) := ⟨front, back, split, rfl⟩
  have valid := (validateOffset_ok_iff buffer _).mpr boundary
  have char : buffer.byteToChar (utf8Len front) = .ok front.length := by
    rw [byteToChar, valid, split, Rope.byteToChar_append]
    rfl
  rw [byteToUtf16, char, split]
  simp only [bind, Except.bind, pure, Except.pure, List.take_left]
  rfl

theorem byteToUtf16_cases {buffer : RopeBuffer} {byte units : Nat}
    (read : buffer.byteToUtf16 byte = .ok units)
    : ∃ front back, buffer.rope = front ++ back
        ∧ byte = utf8Len front
        ∧ units = utf16Len front := by
  rw [byteToUtf16] at read
  obtain ⟨char, known, -⟩ := (except_bind_ok_iff _ _ _).mp read
  rw [byteToChar] at known
  obtain ⟨_, valid, -⟩ := (except_bind_ok_iff _ _ _).mp known
  obtain ⟨front, back, split, rfl⟩ := (validateOffset_ok_iff buffer byte).mp valid
  have again := byteToUtf16_append split
  rw [byteToUtf16, read] at again
  exact ⟨front, back, split, rfl, Except.ok.inj again⟩

end RopeBuffer

end Hane.Document
