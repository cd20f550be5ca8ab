import Mathlib.Data.List.Basic

/-! The bytes of UTF-8: the well-formed sequences by their lead byte, and that they are the
encodings of characters.
-/

namespace Hane.Foundations

/-- The bytes of some characters, one after the other. -/
def ValidUtf8 (bytes : List UInt8) : Prop :=
  ∃ chars : List Char, chars.flatMap String.utf8EncodeChar = bytes

def ContinuationByte (byte : UInt8) : Prop := 0x80 ≤ byte ∧ byte ≤ 0xBF

/-- What the second byte has to be behind a lead byte: no overlong form, no surrogate, and nothing
past the last code point.
-/
structure SecondByte (lead second : UInt8) : Prop where
  continues : ContinuationByte second
  notOverlong : lead = 0xE0 → 0xA0 ≤ second
  notSurrogate : lead = 0xED → second ≤ 0x9F
  notShort : lead = 0xF0 → 0x90 ≤ second
  notPast : lead = 0xF4 → second ≤ 0x8F

/-- A well-formed byte sequence of one character. -/
inductive Utf8Sequence : List UInt8 → Prop where
  | one {lead : UInt8} (ascii : lead ≤ 0x7F) : Utf8Sequence [lead]
  | two {lead second : UInt8} (leads : 0xC2 ≤ lead ∧ lead ≤ 0xDF) (next : SecondByte lead second)
    : Utf8Sequence [lead, second]
  | three {lead second third : UInt8} (leads : 0xE0 ≤ lead ∧ lead ≤ 0xEF)
      (next : SecondByte lead second) (last : ContinuationByte third)
    : Utf8Sequence [lead, second, third]
  | four {lead second third fourth : UInt8} (leads : 0xF0 ≤ lead ∧ lead ≤ 0xF4)
      (next : SecondByte lead second) (more : ContinuationByte third)
      (last : ContinuationByte fourth)
    : Utf8Sequence [lead, second, third, fourth]

/-- The bytes of a code point. -/
def encoding (code : Nat) : List UInt8 :=
  if code ≤ 0x7F then
    [UInt8.ofNat code]
  else if code ≤ 0x7FF then
    [UInt8.ofNat (code / 64 % 0x20 + 0xC0), UInt8.ofNat (code % 0x40 + 0x80)]
  else if code ≤ 0xFFFF then
    [UInt8.ofNat (code / 4096 % 0x10 + 0xE0), UInt8.ofNat (code / 64 % 0x40 + 0x80),
      UInt8.ofNat (code % 0x40 + 0x80)]
  else
    [UInt8.ofNat (code / 262144 % 0x08 + 0xF0), UInt8.ofNat (code / 4096 % 0x40 + 0x80),
      UInt8.ofNat (code / 64 % 0x40 + 0x80), UInt8.ofNat (code % 0x40 + 0x80)]

theorem utf8EncodeChar_eq (c : Char) : String.utf8EncodeChar c = encoding c.val.toNat := rfl

theorem exists_encoding {code : Nat} {bytes : List UInt8} (scalar : code.isValidChar)
    (same : encoding code = bytes)
    : ∃ c, String.utf8EncodeChar c = bytes := by
  refine ⟨Char.ofNat code, ?_⟩
  have value : (Char.ofNat code).val.toNat = code := by
    rw [Char.ofNat, dif_pos scalar]
    rfl
  rw [utf8EncodeChar_eq, value, same]

theorem ofNat_eq {code : Nat} {byte : UInt8} (same : code = byte.toNat)
    : UInt8.ofNat code = byte := by
  rw [same, UInt8.ofNat_toNat]

/-- A well-formed sequence encodes the character whose bits it holds, by its length. -/
theorem Utf8Sequence.exists_char {bytes : List UInt8} (formed : Utf8Sequence bytes)
    : ∃ c, String.utf8EncodeChar c = bytes := by
  cases formed with
  | @one lead ascii =>
      simp only [UInt8.le_iff_toNat_le, UInt8.reduceToNat] at ascii
      have scalar : lead.toNat.isValidChar := .inl (by omega)
      refine exists_encoding scalar ?_
      simp only [encoding, if_pos ascii, UInt8.ofNat_toNat]
  | @two lead second leads next =>
      obtain ⟨⟨low, high⟩, -, -, -, -⟩ := next
      simp only [UInt8.le_iff_toNat_le, UInt8.reduceToNat] at leads low high
      have scalar : ((lead.toNat - 0xC0) * 64 + (second.toNat - 0x80)).isValidChar :=
        .inl (by omega)
      refine exists_encoding scalar ?_
      simp only [encoding]
      rw [if_neg (by omega), if_pos (by omega)]
      simp only [List.cons.injEq, and_true]
      exact ⟨ofNat_eq (by omega), ofNat_eq (by omega)⟩
  | @three lead second third leads next last =>
      obtain ⟨⟨low, high⟩, overlong, surrogate, -, -⟩ := next
      obtain ⟨last, lastHigh⟩ := last
      simp only [UInt8.le_iff_toNat_le, UInt8.reduceToNat, ← UInt8.toNat_inj]
        at leads low high overlong surrogate last lastHigh
      have scalar : ((lead.toNat - 0xE0) * 4096 + (second.toNat - 0x80) * 64
          + (third.toNat - 0x80)).isValidChar := by
        unfold Nat.isValidChar
        omega
      refine exists_encoding scalar ?_
      simp only [encoding]
      rw [if_neg (by omega), if_neg (by omega), if_pos (by omega)]
      simp only [List.cons.injEq, and_true]
      exact ⟨ofNat_eq (by omega), ofNat_eq (by omega), ofNat_eq (by omega)⟩
  | @four lead second third fourth leads next more last =>
      obtain ⟨⟨low, high⟩, -, -, short, past⟩ := next
      obtain ⟨more, moreHigh⟩ := more
      obtain ⟨last, lastHigh⟩ := last
      simp only [UInt8.le_iff_toNat_le, UInt8.reduceToNat, ← UInt8.toNat_inj]
        at leads low high short past more moreHigh last lastHigh
      have scalar : ((lead.toNat - 0xF0) * 262144 + (second.toNat - 0x80) * 4096
          + (third.toNat - 0x80) * 64 + (fourth.toNat - 0x80)).isValidChar := by
        unfold Nat.isValidChar
        omega
      refine exists_encoding scalar ?_
      simp only [encoding]
      rw [if_neg (by omega), if_neg (by omega), if_neg (by omega)]
      simp only [List.cons.injEq, and_true]
      exact ⟨ofNat_eq (by omega), ofNat_eq (by omega), ofNat_eq (by omega), ofNat_eq (by omega)⟩

/-- The encoding of a character is well-formed, by its length. -/
theorem utf8Sequence_encode (c : Char) : Utf8Sequence (String.utf8EncodeChar c) := by
  have scalar : c.val.toNat.isValidChar := c.valid
  unfold Nat.isValidChar at scalar
  rw [utf8EncodeChar_eq]
  generalize c.val.toNat = code at scalar
  unfold encoding
  split
  · refine .one ?_
    simp only [UInt8.le_iff_toNat_le, UInt8.reduceToNat, UInt8.toNat_ofNat']
    omega
  · split
    · refine .two ?_ ⟨?_, ?_, ?_, ?_, ?_⟩
      all_goals
        simp only [ContinuationByte, UInt8.le_iff_toNat_le, UInt8.reduceToNat, ← UInt8.toNat_inj,
          UInt8.toNat_ofNat']
        omega
    · split
      · refine .three ?_ ⟨?_, ?_, ?_, ?_, ?_⟩ ?_
        all_goals
          simp only [ContinuationByte, UInt8.le_iff_toNat_le, UInt8.reduceToNat,
            ← UInt8.toNat_inj, UInt8.toNat_ofNat']
          omega
      · refine .four ?_ ⟨?_, ?_, ?_, ?_, ?_⟩ ?_ ?_
        all_goals
          simp only [ContinuationByte, UInt8.le_iff_toNat_le, UInt8.reduceToNat,
            ← UInt8.toNat_inj, UInt8.toNat_ofNat']
          omega

theorem toNat_of_mem_encode {c : Char} {byte : UInt8} (member : byte ∈ String.utf8EncodeChar c)
    (ascii : byte < 0x80)
    : c.val.toNat = byte.toNat := by
  rw [utf8EncodeChar_eq] at member
  generalize c.val.toNat = code at member ⊢
  simp only [UInt8.lt_iff_toNat_lt, UInt8.reduceToNat] at ascii
  unfold encoding at member
  split at member
  · obtain rfl := List.mem_singleton.mp member
    simp only [UInt8.toNat_ofNat']
    omega
  · exfalso
    split at member
    · simp only [List.mem_cons, List.not_mem_nil, or_false] at member
      obtain rfl | rfl := member <;> simp only [UInt8.toNat_ofNat'] at ascii <;> omega
    · split at member
      · simp only [List.mem_cons, List.not_mem_nil, or_false] at member
        obtain rfl | rfl | rfl := member <;> simp only [UInt8.toNat_ofNat'] at ascii <;> omega
      · simp only [List.mem_cons, List.not_mem_nil, or_false] at member
        obtain rfl | rfl | rfl | rfl := member <;> simp only [UInt8.toNat_ofNat'] at ascii <;> omega

@[simp] theorem validUtf8_nil : ValidUtf8 [] := ⟨[], rfl⟩

theorem Utf8Sequence.validUtf8_append {first rest : List UInt8} (formed : Utf8Sequence first)
    (valid : ValidUtf8 rest)
    : ValidUtf8 (first ++ rest) := by
  obtain ⟨c, rfl⟩ := formed.exists_char
  obtain ⟨chars, rfl⟩ := valid
  exact ⟨c :: chars, rfl⟩

/-- Valid bytes are taken apart into well-formed sequences, by induction on the characters. -/
theorem ValidUtf8.induction {motive : List UInt8 → Prop} (nil : motive [])
    (cons : ∀ first rest, Utf8Sequence first → motive rest → motive (first ++ rest))
    {bytes : List UInt8} (valid : ValidUtf8 bytes)
    : motive bytes := by
  obtain ⟨chars, rfl⟩ := valid
  induction chars with
  | nil => exact nil
  | cons c rest ih => exact cons _ _ (utf8Sequence_encode c) ih

end Hane.Foundations
