import Hane.Document.Text

/-! The rope interface the buffer relies on: a character sequence with byte and character
indexing, whose own line index breaks only after a line feed.
-/

namespace Hane.Document

open Hane.Foundations

/-- A rope is observed only as the character sequence it stores. -/
abbrev Rope := Text

namespace Rope

def lenBytes (rope : Rope) : Nat := utf8Len rope

def lenChars (rope : Rope) : Nat := rope.length

/-- The character holding a byte; one past the last character at the rope's end. -/
def byteToChar (rope : Rope) (byte : Nat) : Nat := indexAt Char.utf8Size rope byte

def charToByte (rope : Rope) (char : Nat) : Nat := utf8Len (rope.take char)

def slice (rope : Rope) (start stop : Nat) : Text := (rope.take stop).drop start

def remove (rope : Rope) (start stop : Nat) : Rope := rope.take start ++ rope.drop stop

def insert (rope : Rope) (char : Nat) (text : Text) : Rope :=
  rope.take char ++ text ++ rope.drop char

def lenLines (rope : Rope) : Nat := rope.count '\n' + 1

def charToLine (rope : Rope) (char : Nat) : Nat := (rope.take char).count '\n'

/-- The first character of a line; the rope's length for the line past the last one. -/
def lineToChar : Rope → Nat → Nat
  | _, 0 => 0
  | [], _ + 1 => 0
  | c :: rest, line + 1 =>
      if c = '\n' then lineToChar rest line + 1 else lineToChar rest (line + 1) + 1

theorem byteToChar_charToByte (rope : Rope) (char : Nat) (bound : char ≤ rope.length)
    : byteToChar rope (charToByte rope char) = char :=
  indexAt_weight_take _ Char.utf8Size_pos rope bound

@[simp] theorem byteToChar_append (before after : Text)
    : byteToChar (before ++ after) (utf8Len before) = before.length := by
  have start := byteToChar_charToByte (before ++ after) before.length (by simp)
  simpa [charToByte] using start

@[simp] theorem byteToChar_append_append (before middle after : Text)
    : byteToChar (before ++ (middle ++ after)) (utf8Len before + utf8Len middle)
      = before.length + middle.length := by
  have start := byteToChar_append (before ++ middle) after
  simpa using start

@[simp] theorem charToByte_append (before after : Text)
    : charToByte (before ++ after) before.length = utf8Len before := by
  simp [charToByte]

theorem boundary_iff (rope : Rope) (byte : Nat)
    : Boundary rope byte ↔ charToByte rope (byteToChar rope byte) = byte := by
  constructor
  · rintro ⟨before, after, rfl, rfl⟩
    simp
  · intro fixed
    exact ⟨rope.take (byteToChar rope byte), rope.drop (byteToChar rope byte),
      (List.take_append_drop _ _).symm, fixed⟩

@[simp] theorem slice_append (before middle after : Text)
    : slice (before ++ (middle ++ after)) before.length (before.length + middle.length)
      = middle := by
  simp [slice, List.take_append]

@[simp] theorem remove_append (before middle after : Text)
    : remove (before ++ (middle ++ after)) before.length (before.length + middle.length)
      = before ++ after := by
  simp [remove, List.drop_append]

@[simp] theorem insert_append (before after text : Text)
    : insert (before ++ after) before.length text = before ++ (text ++ after) := by
  simp [insert]

theorem getElem?_append_length (before after : Text)
    : (before ++ after)[before.length]? = after.head? := by
  rw [List.getElem?_append_right (Nat.le_refl _), Nat.sub_self, List.head?_eq_getElem?]

theorem getElem?_append_append_length (before middle after : Text)
    : (before ++ (middle ++ after))[before.length + middle.length]? = after.head? := by
  have next := getElem?_append_length (before ++ middle) after
  simpa using next

end Rope

end Hane.Document
