import Mathlib.Data.List.DropRight

/-! White space and lines of plain text, as lists of characters. -/

namespace Hane.Foundations

/-- The characters with the Unicode property `White_Space`. -/
def isWhitespace (c : Char) : Bool :=
  let code := c.toNat
  9 ≤ code && code ≤ 13
  || [0x20, 0x85, 0xA0, 0x1680, 0x2028, 0x2029, 0x202F, 0x205F, 0x3000].contains code
  || 0x2000 ≤ code && code ≤ 0x200A

def trimStart (text : List Char) : List Char := text.dropWhile isWhitespace

def trimEnd (text : List Char) : List Char := text.rdropWhile isWhitespace

def trim (text : List Char) : List Char := trimEnd (trimStart text)

/-- The lines of a text. A line ends at `\n` or `\r\n`; another `\r` belongs to its line, and an
ending at the end of the text starts no further line.
-/
def lines : List Char → List (List Char)
  | [] => []
  | '\n' :: rest => [] :: lines rest
  | '\r' :: '\n' :: rest => [] :: lines rest
  | c :: rest =>
      match lines rest with
      | [] => [[c]]
      | line :: more => (c :: line) :: more

/-- A line without line endings in front of its own, by induction over it. -/
theorem lines_append_newline {line : List Char} (plain : ∀ c ∈ line, c ≠ '\n' ∧ c ≠ '\r')
    (rest : List Char)
    : lines (line ++ '\n' :: rest) = line :: lines rest := by
  induction line with
  | nil => rw [List.nil_append, lines]
  | cons c line ih =>
      obtain ⟨⟨noNewline, noReturn⟩, plain⟩ := List.forall_mem_cons.mp plain
      rw [List.cons_append, lines, ih plain]
      · exact noNewline
      · intro other same
        exact absurd same noReturn

/-- Dropping one kind of white space first changes nothing, by induction on the text. -/
theorem trimStart_dropWhile {kind : Char → Bool} (white : ∀ c, kind c = true → isWhitespace c)
    (text : List Char)
    : trimStart (text.dropWhile kind) = trimStart text := by
  induction text with
  | nil => rfl
  | cons c rest ih =>
      by_cases dropped : kind c = true
      · rw [List.dropWhile_cons_of_pos dropped, ih, trimStart, trimStart,
          List.dropWhile_cons_of_pos (white c dropped)]
      · rw [List.dropWhile_cons_of_neg dropped]

theorem trimStart_eq_or (text : List Char)
    : trimStart text = text ∨ ∃ c rest, text = c :: rest ∧ isWhitespace c := by
  cases text with
  | nil => exact .inl rfl
  | cons c rest =>
      by_cases white : isWhitespace c = true
      · exact .inr ⟨c, rest, rfl, white⟩
      · exact .inl (List.dropWhile_cons_of_neg white)

theorem trim_trim (text : List Char) : trim (trim text) = trim text := by
  have starts : trimStart (trim text) = trim text := by
    rcases trimStart_eq_or (trim text) with same | ⟨c, rest, split, white⟩
    · exact same
    · obtain ⟨more, whole⟩ := List.rdropWhile_prefix isWhitespace (trimStart text)
      rw [← trimEnd, ← trim, split, List.cons_append] at whole
      have again : trimStart (trimStart text) = trimStart text :=
        List.dropWhile_idempotent _ _
      rw [← whole, trimStart, List.dropWhile_cons_of_pos white] at again
      have shorter := (List.dropWhile_suffix isWhitespace (l := rest ++ more)).length_le
      rw [again, List.length_cons] at shorter
      omega
  calc trim (trim text) = trimEnd (trimStart (trim text)) := rfl
    _ = trimEnd (trimEnd (trimStart text)) := by rw [starts, trim]
    _ = trim text := List.rdropWhile_idempotent _ _

theorem trim_ne_nil {c : Char} {rest : List Char} (visible : isWhitespace c = false)
    : trim (c :: rest) ≠ [] := by
  rw [trim, trimStart, List.dropWhile_cons_of_neg (by simp [visible]), trimEnd]
  intro blank
  have white := List.rdropWhile_eq_nil_iff.mp blank c List.mem_cons_self
  rw [visible] at white
  cases white

example : lines ['a', '\r', '\n', '\n', 'b', '\r'] = [['a'], [], ['b', '\r']] := by decide

end Hane.Foundations
