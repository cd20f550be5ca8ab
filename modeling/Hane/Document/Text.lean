import Hane.Foundations.WeightedLists

/-! UTF-8 source text as a character sequence addressed by byte offsets. -/

namespace Hane.Document

open Hane.Foundations

/-- Source text. Offsets into it are UTF-8 byte counts, never character counts. -/
abbrev Text := List Char

/-- A byte range of the source. The field `stop` is the source's `end`. -/
structure SourceRange where
  start : Nat
  stop : Nat
deriving DecidableEq

namespace SourceRange

def empty (offset : Nat) : SourceRange := ⟨offset, offset⟩

def lenBytes (range : SourceRange) : Nat := range.stop - range.start

def isEmpty (range : SourceRange) : Bool := range.start == range.stop

def intersects (range other : SourceRange) : Bool :=
  decide (range.start < other.stop) && decide (other.start < range.stop)

end SourceRange

def utf8Len (text : Text) : Nat := weight Char.utf8Size text

@[simp] theorem utf8Len_nil : utf8Len [] = 0 := rfl

@[simp] theorem utf8Len_cons (c : Char) (rest : Text)
    : utf8Len (c :: rest) = c.utf8Size + utf8Len rest :=
  weight_cons _ c rest

@[simp] theorem utf8Len_append (left right : Text)
    : utf8Len (left ++ right) = utf8Len left + utf8Len right :=
  weight_append _ left right

theorem utf8Len_eq_zero_iff (text : Text) : utf8Len text = 0 ↔ text = [] :=
  weight_eq_zero_iff _ Char.utf8Size_pos text

/-- A prefix split at a byte length is unique, by induction on both prefixes. -/
theorem append_inj_of_utf8Len {left left' right right' : Text}
    (same : left ++ right = left' ++ right') (len : utf8Len left = utf8Len left')
    : left = left' ∧ right = right' := by
  induction left generalizing left' with
  | nil =>
      have none : left' = [] := (utf8Len_eq_zero_iff left').mp len.symm
      subst none
      exact ⟨rfl, same⟩
  | cons c rest ih =>
      cases left' with
      | nil =>
          have positive := Char.utf8Size_pos c
          simp only [utf8Len_cons, utf8Len_nil] at len
          omega
      | cons d rest' =>
          obtain ⟨rfl, tail⟩ := List.cons.inj same
          obtain ⟨rfl, rfl⟩ := ih tail (by simpa using len)
          exact ⟨rfl, rfl⟩

theorem append_split_of_utf8Len_le {left left' right right' : Text}
    (same : left ++ right = left' ++ right') (shorter : utf8Len left ≤ utf8Len left')
    : ∃ between, left' = left ++ between ∧ right = between ++ right' := by
  rcases List.append_eq_append_iff.mp same with ⟨between, rfl, rfl⟩ | ⟨between, rfl, rfl⟩
  · exact ⟨between, rfl, rfl⟩
  · have none : between = [] := by
      apply (utf8Len_eq_zero_iff between).mp
      simp only [utf8Len_append] at shorter
      omega
    subst none
    exact ⟨[], by simp, by simp⟩

/-- An offset is a boundary when the text splits there into two character sequences. -/
def Boundary (text : Text) (offset : Nat) : Prop :=
  ∃ before after, text = before ++ after ∧ utf8Len before = offset

theorem Boundary.zero (text : Text) : Boundary text 0 := ⟨[], text, rfl, rfl⟩

theorem Boundary.utf8Len (text : Text) : Boundary text (utf8Len text) :=
  ⟨text, [], by simp, rfl⟩

theorem Boundary.of_append (before after : Text)
    : Boundary (before ++ after) (Document.utf8Len before) :=
  ⟨before, after, rfl, rfl⟩

theorem Boundary.le {text : Text} {offset : Nat} (boundary : Boundary text offset)
    : offset ≤ Document.utf8Len text := by
  obtain ⟨before, after, rfl, rfl⟩ := boundary
  simp

/-- Two ordered boundaries cut a text into three parts. -/
theorem Boundary.split {text : Text} {start stop : Nat}
    (first : Boundary text start) (last : Boundary text stop) (ordered : start ≤ stop)
    : ∃ before middle after,
        text = before ++ middle ++ after
        ∧ Document.utf8Len before = start
        ∧ Document.utf8Len before + Document.utf8Len middle = stop := by
  obtain ⟨before, rest, rfl, rfl⟩ := first
  obtain ⟨head, after, same, rfl⟩ := last
  rcases List.append_eq_append_iff.mp same with ⟨middle, rfl, rfl⟩ | ⟨extra, rfl, rfl⟩
  · exact ⟨before, middle, after, by simp, rfl, by simp⟩
  · have none : extra = [] := by
      apply (utf8Len_eq_zero_iff extra).mp
      simp only [utf8Len_append] at ordered
      omega
    subst none
    exact ⟨head, [], rest, by simp, by simp, by simp⟩

end Hane.Document
