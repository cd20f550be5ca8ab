import Hane.Document.Edits

/-! Character boundaries of a text, and the largest one at or before a byte. -/

namespace Hane.Document

open Hane.Foundations

instance (text : Text) (byte : Nat) : Decidable (Boundary text byte) :=
  decidable_of_iff _ (Rope.boundary_iff text byte).symm

/-- Counts down from `byte` to the first one that stops it, or to zero. -/
def lowerTo (stops : Nat → Bool) : Nat → Nat
  | 0 => 0
  | byte + 1 => if stops (byte + 1) then byte + 1 else lowerTo stops byte

theorem lowerTo_le (stops : Nat → Bool) (byte : Nat) : lowerTo stops byte ≤ byte := by
  induction byte with
  | zero => exact Nat.le_refl 0
  | succ byte ih =>
      unfold lowerTo
      split
      · exact Nat.le_refl _
      · omega

theorem lowerTo_skips (stops : Nat → Bool) {byte between : Nat}
    (above : lowerTo stops byte < between) (inside : between ≤ byte)
    : stops between = false := by
  induction byte with
  | zero =>
      have reached : lowerTo stops 0 = 0 := rfl
      omega
  | succ byte ih =>
      unfold lowerTo at above
      split at above
      · omega
      · rename_i passes
        rcases Nat.eq_or_lt_of_le inside with rfl | lower
        · simpa using passes
        · exact ih above (by omega)

theorem stops_lowerTo (stops : Nat → Bool) (zero : stops 0 = true) (byte : Nat)
    : stops (lowerTo stops byte) = true := by
  induction byte with
  | zero => exact zero
  | succ byte ih =>
      unfold lowerTo
      split
      · assumption
      · exact ih

theorem le_lowerTo (stops : Nat → Bool) {byte low : Nat} (stop : stops low = true)
    (below : low ≤ byte) : low ≤ lowerTo stops byte := by
  by_contra above
  have skipped := lowerTo_skips stops (Nat.lt_of_not_le above) below
  rw [stop] at skipped
  cases skipped

theorem lowerTo_eq_self (stops : Nat → Bool) {byte : Nat} (stop : stops byte = true)
    : lowerTo stops byte = byte :=
  Nat.le_antisymm (lowerTo_le stops byte) (le_lowerTo stops stop (Nat.le_refl byte))

theorem Boundary.cons {text : Text} {offset : Nat} (c : Char) (boundary : Boundary text offset)
    : Boundary (c :: text) (c.utf8Size + offset) := by
  obtain ⟨before, after, rfl, rfl⟩ := boundary
  exact ⟨c :: before, after, rfl, by simp⟩

/-- Every byte of a text has a boundary at most three bytes before it, by induction on the
text. -/
theorem exists_boundary_near (text : Text) {byte : Nat} (inside : byte ≤ utf8Len text)
    : ∃ boundary, Boundary text boundary ∧ boundary ≤ byte ∧ byte ≤ boundary + 3 := by
  induction text generalizing byte with
  | nil =>
      have atStart : byte = 0 := by simpa using inside
      exact ⟨0, Boundary.zero [], by omega, by omega⟩
  | cons c rest ih =>
      have size := Char.utf8Size_le_four c
      rcases Nat.lt_or_ge byte c.utf8Size with first | later
      · exact ⟨0, Boundary.zero _, by omega, by omega⟩
      · rw [utf8Len_cons] at inside
        have within : byte - c.utf8Size ≤ utf8Len rest := by omega
        obtain ⟨boundary, found, before, near⟩ := ih within
        exact ⟨c.utf8Size + boundary, found.cons c, by omega, by omega⟩

/-- The start of the character a byte lies in, as a count down to a boundary. -/
def floorBoundary (text : Text) (byte : Nat) : Nat :=
  lowerTo (fun offset => decide (Boundary text offset)) byte

theorem floorBoundary_le (text : Text) (byte : Nat) : floorBoundary text byte ≤ byte :=
  lowerTo_le _ byte

theorem boundary_floorBoundary (text : Text) (byte : Nat)
    : Boundary text (floorBoundary text byte) := by
  have stops := stops_lowerTo (fun offset => decide (Boundary text offset))
    (by simpa using Boundary.zero text) byte
  exact of_decide_eq_true stops

theorem le_floorBoundary {text : Text} {byte low : Nat} (boundary : Boundary text low)
    (below : low ≤ byte) : low ≤ floorBoundary text byte :=
  le_lowerTo _ (by simpa using boundary) below

theorem floorBoundary_near (text : Text) {byte : Nat} (inside : byte ≤ utf8Len text)
    : byte ≤ floorBoundary text byte + 3 := by
  obtain ⟨boundary, found, before, near⟩ := exists_boundary_near text inside
  have reached := le_floorBoundary found before
  omega

@[simp] theorem floorBoundary_of_boundary {text : Text} {byte : Nat}
    (boundary : Boundary text byte) : floorBoundary text byte = byte :=
  lowerTo_eq_self _ (by simpa using boundary)

theorem Boundary.append_left {before : Text} {offset : Nat} (after : Text)
    (boundary : Boundary before offset) : Boundary (before ++ after) offset := by
  obtain ⟨front, back, rfl, rfl⟩ := boundary
  exact ⟨front, back ++ after, by simp, rfl⟩

theorem Boundary.of_append_left {before after : Text} {offset : Nat}
    (boundary : Boundary (before ++ after) offset) (inside : offset ≤ Document.utf8Len before)
    : Boundary before offset := by
  obtain ⟨front, back, same, rfl⟩ := boundary
  obtain ⟨between, rfl, _⟩ := append_split_of_utf8Len_le same.symm inside
  exact Boundary.of_append front between

theorem Boundary.drop (before : Text) {after : Text} {offset : Nat}
    (boundary : Boundary (before ++ after) offset) (past : Document.utf8Len before ≤ offset)
    : Boundary after (offset - Document.utf8Len before) := by
  obtain ⟨front, back, same, rfl⟩ := boundary
  obtain ⟨between, rfl, rfl⟩ := append_split_of_utf8Len_le same past
  exact ⟨between, back, rfl, by simp⟩

theorem Boundary.first_le {c : Char} {rest : Text} {offset : Nat}
    (boundary : Boundary (c :: rest) offset) (positive : 0 < offset) : c.utf8Size ≤ offset := by
  obtain ⟨before, after, same, rfl⟩ := boundary
  cases before with
  | nil =>
      rw [utf8Len_nil] at positive
      omega
  | cons d tail =>
      obtain ⟨rfl, _⟩ := List.cons.inj same
      rw [utf8Len_cons]
      omega

/-- The text between two boundaries. -/
def substring (text : Text) (start stop : Nat) : Text :=
  Rope.slice text (Rope.byteToChar text start) (Rope.byteToChar text stop)

@[simp] theorem substring_append (before content after : Text)
    : substring (before ++ (content ++ after)) (utf8Len before)
        (utf8Len before + utf8Len content)
      = content := by
  simp only [substring, Rope.byteToChar_append, Rope.byteToChar_append_append,
    Rope.slice_append]

theorem exists_substring {text : Text} {start stop : Nat} (first : Boundary text start)
    (last : Boundary text stop) (ordered : start ≤ stop)
    : ∃ before after, text = before ++ (substring text start stop ++ after)
        ∧ utf8Len before = start
        ∧ start + utf8Len (substring text start stop) = stop := by
  obtain ⟨before, content, after, rfl, rfl, rfl⟩ := first.split last ordered
  rw [List.append_assoc, substring_append]
  exact ⟨before, after, rfl, rfl, rfl⟩

theorem utf8Len_substring {text : Text} {start stop : Nat} (first : Boundary text start)
    (last : Boundary text stop) (ordered : start ≤ stop)
    : start + utf8Len (substring text start stop) = stop := by
  obtain ⟨_, _, _, _, size⟩ := exists_substring first last ordered
  exact size

theorem substring_append_substring {text : Text} {start middle stop : Nat}
    (first : Boundary text start) (second : Boundary text middle) (last : Boundary text stop)
    (lower : start ≤ middle) (upper : middle ≤ stop)
    : substring text start middle ++ substring text middle stop = substring text start stop := by
  obtain ⟨before, left, rest, rfl, rfl, rfl⟩ := first.split second lower
  obtain ⟨front, right, after, same, size, rfl⟩ := second.split last upper
  have same : (before ++ left) ++ rest = front ++ (right ++ after) := by simpa using same
  obtain ⟨rfl, rfl⟩ := append_inj_of_utf8Len same (by simp [size])
  have whole := substring_append before (left ++ right) after
  have behind := substring_append (before ++ left) right after
  simp only [utf8Len_append, List.append_assoc, ← Nat.add_assoc] at whole behind
  simp only [utf8Len_append, List.append_assoc, substring_append, behind, whole]

@[simp] theorem substring_self {text : Text} {byte : Nat} (boundary : Boundary text byte)
    : substring text byte byte = [] := by
  have size := utf8Len_substring boundary boundary (Nat.le_refl byte)
  exact (utf8Len_eq_zero_iff _).mp (by omega)

@[simp] theorem substring_whole (text : Text) : substring text 0 (utf8Len text) = text := by
  have whole := substring_append [] text []
  simpa using whole

theorem substring_partition {text : Text} {start stop : Nat} (first : Boundary text start)
    (last : Boundary text stop) (ordered : start ≤ stop)
    : text
      = substring text 0 start
        ++ (substring text start stop ++ substring text stop (utf8Len text)) := by
  have tail := substring_append_substring first last (Boundary.utf8Len text) ordered last.le
  have whole := substring_append_substring (Boundary.zero text) first (Boundary.utf8Len text)
    (Nat.zero_le start) first.le
  rw [tail, whole, substring_whole]

theorem substring_split {text front back : Text} {start stop : Nat} (first : Boundary text start)
    (last : Boundary text stop) (ordered : start ≤ stop)
    (split : substring text start stop = front ++ back)
    : Boundary text (start + utf8Len front)
      ∧ start + utf8Len front ≤ stop
      ∧ substring text (start + utf8Len front) stop = back := by
  obtain ⟨before, content, after, rfl, rfl, rfl⟩ := first.split last ordered
  rw [List.append_assoc, substring_append] at split
  subst split
  have cut := Boundary.of_append (before ++ front) (back ++ after)
  have read := substring_append (before ++ front) back after
  simp only [utf8Len_append, List.append_assoc, Nat.add_assoc] at cut read ⊢
  exact ⟨cut, by omega, read⟩

theorem Boundary.substring {text : Text} {start middle stop : Nat} (first : Boundary text start)
    (between : Boundary text middle) (last : Boundary text stop) (lower : start ≤ middle)
    (upper : middle ≤ stop) : Boundary (Document.substring text start stop) (middle - start) := by
  have size := utf8Len_substring first between lower
  rw [← substring_append_substring first between last lower upper]
  have cut := Boundary.of_append (Document.substring text start middle)
    (Document.substring text middle stop)
  rwa [show Document.utf8Len (Document.substring text start middle) = middle - start by omega]
    at cut

/-- `&text[start..stop]`, which panics unless both ends are ordered boundaries. -/
def slice? (text : Text) (start stop : Nat) : Option Text :=
  if start ≤ stop ∧ Boundary text start ∧ Boundary text stop then
    some (substring text start stop)
  else
    none

theorem slice?_eq {text : Text} {start stop : Nat} (ordered : start ≤ stop)
    (first : Boundary text start) (last : Boundary text stop)
    : slice? text start stop = some (substring text start stop) := by
  rw [slice?, if_pos ⟨ordered, first, last⟩]

@[simp] theorem slice?_append (before content after : Text)
    : slice? (before ++ (content ++ after)) (utf8Len before)
        (utf8Len before + utf8Len content)
      = some content := by
  have first := Boundary.of_append before (content ++ after)
  have last := Boundary.of_append (before ++ content) after
  rw [utf8Len_append, List.append_assoc] at last
  rw [slice?_eq (by omega) first last, substring_append]

theorem exists_of_slice? {text content : Text} {start stop : Nat}
    (sliced : slice? text start stop = some content)
    : ∃ before after, text = before ++ (content ++ after)
        ∧ start = utf8Len before
        ∧ stop = utf8Len before + utf8Len content := by
  by_cases valid : start ≤ stop ∧ Boundary text start ∧ Boundary text stop
  · obtain ⟨front, middle, back, rfl, rfl, rfl⟩ := valid.2.1.split valid.2.2 valid.1
    rw [List.append_assoc, slice?_append] at sliced
    obtain rfl := Option.some.inj sliced
    exact ⟨front, back, List.append_assoc _ _ _, rfl, rfl⟩
  · rw [slice?, if_neg valid] at sliced
    cases sliced

theorem slice?_append_right {before after content : Text} {start stop : Nat}
    (sliced : slice? before start stop = some content)
    : slice? (before ++ after) start stop = some content := by
  obtain ⟨front, back, rfl, rfl, rfl⟩ := exists_of_slice? sliced
  rw [List.append_assoc, List.append_assoc, slice?_append]

theorem RopeBuffer.text_eq {buffer : RopeBuffer} {start stop : Nat} (ordered : start ≤ stop)
    (first : Boundary buffer.rope start) (last : Boundary buffer.rope stop)
    : buffer.text ⟨start, stop⟩ = .ok (substring buffer.rope start stop) := by
  obtain ⟨before, after, split, size, length⟩ := exists_substring first last ordered
  have read := text_append split
  rwa [size, length] at read

end Hane.Document
