import Hane.Document.Edits
import Hane.Document.Lines
import Mathlib.Logic.Relation

/-! The line mirror stays exact: it is always the text with every bare CR turned into a line
feed, whatever chunks it was built from and whatever edits followed.
-/

namespace Hane.Document

@[simp] theorem mirrorBareCr_length (text : Text) (trailing : Bool)
    : (mirrorBareCr text trailing).length = text.length := by
  induction text with
  | nil => rfl
  | cons c rest ih => simp [mirrorBareCr, ih]

theorem followedByLf_append (left right : Text) (trailing : Bool)
    : followedByLf (left ++ right) trailing
      = followedByLf left (followedByLf right trailing) := by
  cases left <;> rfl

theorem followedByLf_eq_head? (rest : Text)
    : followedByLf rest false = (rest.head? == some '\n') := by
  cases rest <;> rfl

theorem mirrorBareCr_append (left right : Text) (trailing : Bool)
    : mirrorBareCr (left ++ right) trailing
      = mirrorBareCr left (followedByLf right trailing) ++ mirrorBareCr right trailing := by
  induction left with
  | nil => rfl
  | cons c rest ih =>
      simp only [List.cons_append, mirrorBareCr, followedByLf_append]
      rw [ih]

/-- The mirror, position by position. -/
theorem mirrorBareCr_getElem? (text : Text) (index : Nat)
    : (mirrorBareCr text false)[index]?
      = if text[index]? = some '\r' ∧ text[index + 1]? ≠ some '\n' then
          some '\n'
        else
          text[index]? := by
  induction text generalizing index with
  | nil => simp [mirrorBareCr]
  | cons c rest ih =>
      cases index with
      | zero =>
          simp only [mirrorBareCr, followedByLf_eq_head?, List.head?_eq_getElem?]
          by_cases bare : c = '\r' ∧ (rest[0]? == some '\n') = false
          · rw [if_pos bare, if_pos]
            · rfl
            · simpa using bare
          · rw [if_neg bare, if_neg]
            · rfl
            · simpa using bare
      | succ index => simpa [mirrorBareCr] using ih index

/-- Building chunk by chunk gives the mirror of the whole text. Witness: induction over the
chunks; the first character of a later chunk is the first character of the later text.
-/
theorem buildLineMirror_eq (chunks : List Text)
    : buildLineMirror chunks = mirrorBareCr chunks.flatten false := by
  have firstLater (later : List Text)
      : (later.findSome? List.head? == some '\n') = followedByLf later.flatten false := by
    rw [followedByLf_eq_head?]
    induction later with
    | nil => rfl
    | cons chunk rest ih =>
        cases chunk with
        | nil => simpa [List.findSome?_cons] using ih
        | cons c tail => simp [List.findSome?_cons]
  induction chunks with
  | nil => rfl
  | cons chunk later ih =>
      rw [buildLineMirror, List.flatten_cons, mirrorBareCr_append, firstLater, ih]

/-- The mirror holds the text with every bare CR replaced. -/
def RopeBuffer.Mirrored (buffer : RopeBuffer) : Prop :=
  buffer.lineMirror = mirrorBareCr buffer.rope false

theorem RopeBuffer.Mirrored.fromRope (chunks : List Text) : (fromRope chunks).Mirrored :=
  buildLineMirror_eq chunks

theorem mirrorBareCr_concat (front : Text) (c : Char) (trailing : Bool)
    : mirrorBareCr (front ++ [c]) trailing
      = mirrorBareCr front (c == '\n')
        ++ [if c = '\r' ∧ trailing = false then '\n' else c] := by
  rw [mirrorBareCr_append]
  rfl

/-- Replacing one character of a concatenation. -/
theorem Rope.insert_remove_singleton (front : Text) (old new : Char) (back : Text)
    : Rope.insert (Rope.remove (front ++ old :: back) front.length (front.length + 1))
        front.length [new]
      = front ++ new :: back := by
  have removed := Rope.remove_append front [old] back
  have inserted := Rope.insert_append front back [new]
  simp only [List.length_singleton, List.singleton_append] at removed inserted
  rw [removed, inserted]

namespace RopeBuffer

theorem nowPaired_eq (replacement after : Text)
    : (if replacement.isEmpty then followedByLf after false
        else replacement.head? == some '\n')
      = followedByLf (replacement ++ after) false := by
  cases replacement <;> rfl

/-- The mirror before reclassification still treats the left part as it was before the edit.
-/
theorem mirrored_replace {buffer : RopeBuffer} (mirrored : buffer.Mirrored)
    {before deleted after : Text} (replacement : Text)
    (text : buffer.rope = before ++ (deleted ++ after))
    : (buffer.lineMirror.remove before.length (before.length + deleted.length)).insert
          before.length (mirrorBareCr replacement (followedByLf after false))
      = mirrorBareCr before (followedByLf (deleted ++ after) false)
        ++ mirrorBareCr (replacement ++ after) false := by
  have removed := Rope.remove_append
    (mirrorBareCr before (followedByLf (deleted ++ after) false))
    (mirrorBareCr deleted (followedByLf after false)) (mirrorBareCr after false)
  have inserted := Rope.insert_append
    (mirrorBareCr before (followedByLf (deleted ++ after) false)) (mirrorBareCr after false)
    (mirrorBareCr replacement (followedByLf after false))
  simp only [mirrorBareCr_length] at removed inserted
  rw [mirrored, text, mirrorBareCr_append before, mirrorBareCr_append deleted, removed,
    inserted, ← mirrorBareCr_append replacement]

/-- An edit at a split leaves the mirror of the new text. Witness: only the last character
of the left part can change class, and reclassification gives it its new one.
-/
theorem editedMirror_append {buffer : RopeBuffer} (mirrored : buffer.Mirrored)
    {before deleted after : Text} (replacement : Text)
    (text : buffer.rope = before ++ (deleted ++ after))
    : buffer.editedMirror before.length (before.length + deleted.length) replacement
      = mirrorBareCr (before ++ (replacement ++ after)) false := by
  have trailing
      : (buffer.rope[before.length + deleted.length]? == some '\n')
        = followedByLf after false := by
    rw [text, Rope.getElem?_append_append_length, followedByLf_eq_head?]
  simp only [editedMirror, trailing, mirrored_replace mirrored replacement text]
  rcases List.eq_nil_or_concat' before with rfl | ⟨front, c, rfl⟩
  · simp [leftReclassification, mirrorBareCr]
  · have leftChar : buffer.rope[front.length]? = some c := by
      rw [text, List.append_assoc, Rope.getElem?_append_length]
      rfl
    have leftMirror
        : buffer.lineMirror[front.length]?
          = some
              (if c = '\r' ∧ followedByLf (deleted ++ after) false = false then '\n'
                else c) := by
      rw [mirrored, text, mirrorBareCr_append, mirrorBareCr_concat, List.append_assoc]
      have next := Rope.getElem?_append_length (mirrorBareCr front (c == '\n'))
        ([if c = '\r' ∧ followedByLf (deleted ++ after) false = false then '\n' else c]
          ++ mirrorBareCr (deleted ++ after) false)
      rw [mirrorBareCr_length] at next
      exact next
    rw [mirrorBareCr_append (front ++ [c]), mirrorBareCr_concat, mirrorBareCr_concat]
    simp only [leftReclassification, List.length_append, List.length_singleton,
      Nat.add_one_ne_zero, if_false, Nat.add_sub_cancel, leftChar, leftMirror, nowPaired_eq,
      List.append_assoc, List.singleton_append, Option.some.injEq]
    by_cases cr : c = '\r'
    · subst cr
      have swap := Rope.insert_remove_singleton (mirrorBareCr front false)
      rw [mirrorBareCr_length] at swap
      cases followedByLf (deleted ++ after) false
        <;> cases followedByLf (replacement ++ after) false
        <;> simp [swap]
    · simp [cr]

theorem Mirrored.edit {buffer next : RopeBuffer} (mirrored : buffer.Mirrored)
    {range : SourceRange} {replacement : Text} {summary : EditSummary}
    (edited : buffer.edit range replacement = .ok (summary, next))
    : next.Mirrored := by
  obtain ⟨before, deleted, after, text, rfl, _, rfl⟩ := edit_cases edited
  exact editedMirror_append mirrored replacement text

def Edited (buffer next : RopeBuffer) : Prop :=
  ∃ range replacement summary, buffer.edit range replacement = .ok (summary, next)

/-- Any finite sequence of successful edits. -/
abbrev Edits : RopeBuffer → RopeBuffer → Prop := Relation.ReflTransGen Edited

/-- Edits never take a revision back, by induction on them. -/
theorem Edits.revision_le {buffer next : RopeBuffer} (edits : Edits buffer next)
    : buffer.revision ≤ next.revision := by
  induction edits with
  | refl => exact Nat.le_refl _
  | tail _ step ih =>
      obtain ⟨range, replacement, summary, edited⟩ := step
      obtain ⟨_, _, _, _, _, _, rfl⟩ := edit_cases edited
      exact Nat.le_succ_of_le ih

/-- Any sequence of edits keeps the mirror exact, by induction on the run. -/
theorem Mirrored.edits {buffer next : RopeBuffer} (mirrored : buffer.Mirrored)
    (edits : Edits buffer next)
    : next.Mirrored := by
  induction edits with
  | refl => exact mirrored
  | tail _ step ih =>
      obtain ⟨range, replacement, summary, edited⟩ := step
      exact ih.edit edited

end RopeBuffer

end Hane.Document
