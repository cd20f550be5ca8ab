import Hane.Markdown.ListEditing
import Hane.Markdown.ListOpenings

/-! Moving the lines of a list item by columns: when they and the caret end up where they should. -/

namespace Hane.Markdown

open Hane.Document Hane.Foundations

-- One line

/-- A line after its indentation changed. -/
structure Reindented (before after : SourceLine) : Prop where
  ending : after.ending = before.ending
  kept : after.content.dropWhile isIndent = before.content.dropWhile isIndent

/-- A line after its text moved by some columns, but not beyond the start of the line. -/
structure Moved (delta : Int) (before after : SourceLine) : Prop extends
    Reindented before after where
  columns
    : isAsciiBlank before.content = false
      → (columns after.content : Int) = max 0 (columns before.content + delta)

/-- What is behind an indentation moves by some columns when that many spaces come in front of it,
or white space that counts as many is cut off.
-/
def MovesBy (delta : Int) (indentation : Text) : Prop :=
  if 0 ≤ delta then
    '\t' ∈ indentation → 4 ∣ delta.toNat
  else
    TabStops.Lands 4 (-delta).toNat indentation

instance (delta : Int) (indentation : Text) : Decidable (MovesBy delta indentation) := by
  unfold MovesBy
  infer_instance

/-- The indentation of a transformed line. -/
def shiftedIndent (delta : Int) (indentation : Text) : Text :=
  if 0 ≤ delta then
    List.replicate delta.toNat ' ' ++ indentation
  else
    TabStops.left 4 (-delta).toNat indentation

/-- White space is cut off the indentation, by induction on the line. -/
theorem removeColumnsFrom_eq (columnsToRemove removed : Nat) (line : Text)
    : removeColumnsFrom columnsToRemove removed line
      = TabStops.left 4 (columnsToRemove - removed) (line.takeWhile isIndent)
        ++ line.dropWhile isIndent := by
  induction line generalizing removed with
  | nil => rfl
  | cons c rest ih =>
      have step (counts : Nat) (white : isIndent c = true)
          (counted : (if c = '\t' then 4 else 1) = counts)
          : (if removed < columnsToRemove then
                removeColumnsFrom columnsToRemove (removed + counts) rest
              else
                c :: rest)
            = TabStops.left 4 (columnsToRemove - removed) ((c :: rest).takeWhile isIndent)
              ++ (c :: rest).dropWhile isIndent := by
        rw [List.takeWhile_cons_of_pos white, List.dropWhile_cons_of_pos white,
          TabStops.left_cons, counted]
        by_cases more : removed < columnsToRemove
        · rw [if_pos more, if_neg (by omega), ih, Nat.sub_sub]
        · rw [if_neg more, if_pos (by omega), List.cons_append, List.takeWhile_append_dropWhile]
      rw [removeColumnsFrom]
      by_cases space : c = ' '
      · subst space
        simpa using step 1 rfl rfl
      · by_cases tab : c = '\t'
        · subst tab
          simpa using step 4 rfl rfl
        · have visible : isIndent c = false := by simp [isIndent, space, tab]
          rw [List.takeWhile_cons_of_neg (by simp [visible]),
            List.dropWhile_cons_of_neg (by simp [visible])]
          simp [space, tab, TabStops.left]

theorem transformLine_content (delta : Int) (line : SourceLine)
    : (transformLine delta line).content
      = shiftedIndent delta (line.content.takeWhile isIndent) ++ line.content.dropWhile isIndent := by
  rw [transformLine, shiftedIndent]
  split
  · rw [List.append_assoc, List.takeWhile_append_dropWhile]
  · exact removeColumnsFrom_eq _ 0 line.content

@[simp] theorem transformLine_ending (delta : Int) (line : SourceLine)
    : (transformLine delta line).ending = line.ending := by
  rw [transformLine]
  split <;> rfl

theorem shiftedIndent_blank (delta : Int) {indentation : Text}
    (blank : ∀ c ∈ indentation, isIndent c = true)
    : ∀ c ∈ shiftedIndent delta indentation, isIndent c = true := by
  intro c member
  rw [shiftedIndent] at member
  split at member
  · rcases List.mem_append.mp member with space | inside
    · rw [List.eq_of_mem_replicate space]
      rfl
    · exact blank c inside
  · exact blank c (List.mem_of_mem_drop member)

theorem takeWhile_indent {front : Text} (blank : ∀ c ∈ front, isIndent c = true) (content : Text)
    : (front ++ content.dropWhile isIndent).takeWhile isIndent = front
      ∧ (front ++ content.dropWhile isIndent).dropWhile isIndent = content.dropWhile isIndent := by
  rw [List.takeWhile_append_of_pos blank, List.dropWhile_append_of_pos blank]
  cases behind : content.dropWhile isIndent with
  | nil => simp
  | cons c rest =>
      have visible := List.head?_dropWhile_not isIndent content
      rw [behind] at visible
      have shown : isIndent c = false := by simpa using visible
      simp [shown]

/-- How far an indentation moves what is behind it. -/
theorem advance_shiftedIndent_iff {delta : Int} {indentation : Text}
    : (TabStops.advance 4 0 (shiftedIndent delta indentation) : Int)
        = max 0 (TabStops.advance 4 0 indentation + delta)
      ↔ MovesBy delta indentation := by
  rw [shiftedIndent, MovesBy]
  by_cases forward : 0 ≤ delta
  · obtain ⟨amount, rfl⟩ := Int.eq_ofNat_of_zero_le forward
    have spaces : TabStops.advance 4 0 (List.replicate amount ' ') = amount := by
      have plain : '\t' ∉ List.replicate amount ' ' := by simp [List.mem_replicate]
      rw [TabStops.advance_plain plain, List.length_replicate, Nat.zero_add]
    rw [if_pos forward, if_pos forward, Int.toNat_natCast,
      ← TabStops.advance_spaces_iff (by decide), TabStops.advance_append, spaces]
    omega
  · rw [if_neg forward, if_neg forward, ← TabStops.lands_iff (by decide)]
    omega

theorem columns_transformLine (delta : Int) (line : SourceLine)
    : columns (transformLine delta line).content
        = TabStops.advance 4 0 (shiftedIndent delta (line.content.takeWhile isIndent))
      ∧ Reindented line (transformLine delta line) := by
  have blank : ∀ c ∈ line.content.takeWhile isIndent, isIndent c = true := fun c member =>
    List.mem_takeWhile_imp member
  obtain ⟨front, back⟩ := takeWhile_indent (shiftedIndent_blank delta blank) line.content
  rw [← transformLine_content] at front back
  exact ⟨by rw [columns, front], transformLine_ending delta line, back⟩

theorem moved_transformLine_iff {delta : Int} {line : SourceLine}
    : Moved delta line (transformLine delta line)
      ↔ (isAsciiBlank line.content = false → MovesBy delta (line.content.takeWhile isIndent)) := by
  obtain ⟨place, kept⟩ := columns_transformLine delta line
  have moves : (columns (transformLine delta line).content : Int)
        = max 0 (columns line.content + delta)
      ↔ MovesBy delta (line.content.takeWhile isIndent) := by
    rw [place]
    exact advance_shiftedIndent_iff
  constructor
  · intro moved visible
    exact moves.mp (moved.columns visible)
  · intro condition
    exact ⟨kept, fun visible => moves.mpr (condition visible)⟩

theorem Reindented.unbroken {before after : SourceLine} (moved : Reindented before after)
    (plain : Unbroken before.content)
    : Unbroken after.content := by
  rw [← List.takeWhile_append_dropWhile (p := isIndent) (l := after.content), moved.kept]
  refine Unbroken.append ?_ ?_
  · intro c member
    have white := List.mem_takeWhile_imp member
    rw [isIndent, Bool.or_eq_true, beq_iff_eq, beq_iff_eq] at white
    rcases white with rfl | rfl <;> rfl
  · intro c member
    exact plain c ((List.dropWhile_sublist _).mem member)

-- Lines

/-- The physical lines of a text make up the text, and only the last one is without an ending, by
induction on the lines.
-/
theorem splitLines_filled {text : Text} {lines : List SourceLine}
    (split : splitLines text = lines)
    : ((lines.filter fun line => !line.text.isEmpty).map SourceLine.text).flatten = text
      ∧ ∀ line ∈ (lines.filter fun line => !line.text.isEmpty).dropLast, line.ending ≠ [] := by
  induction lines generalizing text with
  | nil => exact absurd split (splitLines_ne_nil text)
  | cons line lines ih =>
      have whole := splitLines_flatten text
      rw [split, List.map_cons, List.flatten_cons] at whole
      by_cases several : lines = []
      · subst several
        rw [List.map_nil, List.flatten_nil, List.append_nil] at whole
        by_cases filled : line.text = []
        · simp [filled, ← whole]
        · rw [List.filter_cons_of_pos (by simpa using filled), List.filter_nil]
          simp [whole]
      · obtain ⟨rest, rfl, later, ended, -⟩ := exists_rest_of_splitLines split several
        have filled : line.text ≠ [] := fun none => ended (List.append_eq_nil_iff.mp none).2
        obtain ⟨same, others⟩ := ih later
        rw [List.filter_cons_of_pos (by simpa using filled), List.map_cons, List.flatten_cons, same]
        refine ⟨rfl, fun other member => ?_⟩
        by_cases last : (lines.filter fun line => !line.text.isEmpty) = []
        · rw [last] at member
          cases member
        · rw [List.dropLast_cons_of_ne_nil last] at member
          rcases List.mem_cons.mp member with rfl | inside
          · exact ended
          · exact others other inside

theorem splitPhysicalLines_flatten (text : Text)
    : ((splitPhysicalLines text).map SourceLine.text).flatten = text :=
  (splitLines_filled rfl).1

theorem splitPhysicalLines_ended (text : Text)
    : ∀ line ∈ (splitPhysicalLines text).dropLast, line.ending ≠ [] :=
  (splitLines_filled rfl).2

theorem splitPhysicalLines_wellFormed (text : Text)
    : ∀ line ∈ splitPhysicalLines text, line.WellFormed := fun line member =>
  splitLines_wellFormed text line (List.mem_of_mem_filter member)

/-- Lines with other indentations are known from their text, by induction on the lines they come
from.
-/
theorem Reindented.lines_unique {lines first second : List SourceLine}
    (wellFormed : ∀ line ∈ lines, line.WellFormed)
    (ended : ∀ line ∈ lines.dropLast, line.ending ≠ [])
    (left : List.Forall₂ Reindented lines first)
    (right : List.Forall₂ Reindented lines second)
    (same : (first.map SourceLine.text).flatten = (second.map SourceLine.text).flatten)
    : first = second := by
  induction lines generalizing first second with
  | nil =>
      cases left
      cases right
      rfl
  | cons line lines ih =>
      obtain @⟨⟩ | @⟨_, a, _, as, here, left⟩ := left
      obtain @⟨⟩ | @⟨_, b, _, bs, there, right⟩ := right
      obtain ⟨known, others⟩ := List.forall_mem_cons.mp wellFormed
      have one (content : a.content = b.content) : a = b := by
        have ending : a.ending = b.ending := here.ending.trans there.ending.symm
        cases a
        cases b
        exact congrArg₂ SourceLine.mk content ending
      simp only [List.map_cons, List.flatten_cons, SourceLine.text, here.ending, there.ending,
        List.append_assoc] at same
      by_cases last : lines = []
      · subst last
        cases left
        cases right
        have content : a.content = b.content := List.append_cancel_right same
        rw [one content]
      · rw [List.dropLast_cons_of_ne_nil last] at ended
        obtain ⟨ends, ended⟩ := List.forall_mem_cons.mp ended
        have stops (tail : Text) : AtLineEnd (line.ending ++ tail) :=
          AtLineEnd.ending known (.inl ends)
        have content := congrArg (List.takeWhile fun c => !isLineBreak c) same
        rw [takeWhile_line (here.unbroken (unbroken_content known)) (stops _),
          takeWhile_line (there.unbroken (unbroken_content known)) (stops _)] at content
        rw [content] at same
        have rest := List.append_cancel_left (List.append_cancel_left same)
        rw [one content, ih others ended left right rest]

-- The caret

/-- A text around an offset: what is in front of its line, the line up to there and from there on,
and what is behind the line.
-/
structure CaretLine (text : Text) (offset : Nat) (before front back after : Text) : Prop where
  whole : text = before ++ (front ++ (back ++ after))
  starts : AtLineStart before
  unbroken : Unbroken (front ++ back)
  stops : AtLineEnd after
  place : offset = utf8Len before + utf8Len front

/-- A caret stays on its line with the same text to its right, or is at the start of the line when
it was in the white space that the line lost.
-/
def CaretKept (document edited : Text) (caret mapped : Nat) : Prop :=
  ∃ before front back after front' back' after',
    CaretLine document caret before front back after
    ∧ CaretLine edited mapped before front' back' after'
    ∧ (back' = back
      ∨ front' = []
        ∧ ∃ removed, (∀ c ∈ removed, isIndent c = true)
          ∧ front ++ back = removed ++ back'
          ∧ utf8Len front ≤ utf8Len removed)

theorem CaretLine.line {before front back after line rest : Text} {offset : Nat}
    (here : CaretLine (before ++ (line ++ rest)) offset before front back after)
    (plain : Unbroken line) (stops : AtLineEnd rest)
    : front ++ back = line := by
  have behind := List.append_cancel_left here.whole
  rw [← List.append_assoc] at behind
  have same := congrArg (List.takeWhile fun c => !isLineBreak c) behind
  rw [takeWhile_line plain stops, takeWhile_line here.unbroken here.stops] at same
  exact same.symm

theorem CaretLine.unique {text : Text} {offset : Nat} {before front back after : Text}
    {before' front' back' after' : Text} (first : CaretLine text offset before front back after)
    (second : CaretLine text offset before' front' back' after')
    : before' = before ∧ front' = front ∧ back' = back := by
  have split : (before ++ front) ++ (back ++ after) = (before' ++ front') ++ (back' ++ after') := by
    rw [List.append_assoc, List.append_assoc, ← first.whole, ← second.whole]
  obtain ⟨fronts, backs⟩ := append_inj_of_utf8Len split (by
    rw [utf8Len_append, utf8Len_append, ← first.place, ← second.place])
  have starts := congrArg (List.rdropWhile fun c => !isLineBreak c) fronts
  rw [rdropWhile_line first.starts (unbroken_append_iff.mp first.unbroken).1,
    rdropWhile_line second.starts (unbroken_append_iff.mp second.unbroken).1] at starts
  have stops := congrArg (List.takeWhile fun c => !isLineBreak c) backs
  rw [takeWhile_line (unbroken_append_iff.mp first.unbroken).2 first.stops,
    takeWhile_line (unbroken_append_iff.mp second.unbroken).2 second.stops] at stops
  rw [starts] at fronts
  exact ⟨starts.symm, (List.append_cancel_left fronts).symm, stops.symm⟩

theorem caretKept_iff {document before front back after line after' : Text} {caret place : Nat}
    (here : CaretLine document caret before front back after) (plain : Unbroken line)
    (stops : AtLineEnd after')
    : CaretKept document (before ++ (line ++ after')) caret (utf8Len before + place)
      ↔ ∃ front' back', line = front' ++ back'
          ∧ utf8Len front' = place
          ∧ (back' = back
            ∨ front' = []
              ∧ ∃ removed, (∀ c ∈ removed, isIndent c = true)
                ∧ front ++ back = removed ++ back'
                ∧ utf8Len front ≤ utf8Len removed) := by
  constructor
  · rintro ⟨_, _, _, _, front', back', _, there, edited, kept⟩
    obtain ⟨rfl, rfl, rfl⟩ := here.unique there
    exact ⟨front', back', (edited.line plain stops).symm, (Nat.add_left_cancel edited.place).symm,
      kept⟩
  · rintro ⟨front', back', rfl, rfl, kept⟩
    exact ⟨before, front, back, after, front', back', after', here,
      ⟨by simp, here.starts, plain, stops, rfl⟩, kept⟩

section

variable {document before front back after : Text} {caret : Nat}
  (here : CaretLine document caret before front back after)
include here

theorem caretKept_spaces (amount : Nat) {after' : Text} (stops : AtLineEnd after')
    : CaretKept document
        (before ++ ((List.replicate amount ' ' ++ (front ++ back)) ++ after')) caret
        (caret + amount) := by
  have spaces : Unbroken (List.replicate amount ' ') := by
    intro c member
    rw [List.eq_of_mem_replicate member]
    rfl
  have size : utf8Len (List.replicate amount ' ') = amount := by
    rw [utf8Len_indent fun c member => by rw [List.eq_of_mem_replicate member]; rfl,
      List.length_replicate]
  have place : caret + amount = utf8Len before + (utf8Len front + amount) := by
    rw [here.place, Nat.add_assoc]
  rw [place, caretKept_iff here (spaces.append here.unbroken) stops]
  refine ⟨List.replicate amount ' ' ++ front, back, by simp, ?_, .inl rfl⟩
  rw [utf8Len_append, size, Nat.add_comm]

theorem caretKept_moved_iff {amount : Nat} {after' : Text} (stops : AtLineEnd after')
    : CaretKept document (before ++ ((front ++ back) ++ after')) caret (caret + amount)
      ↔ amount = 0 := by
  have place : caret + amount = utf8Len before + (utf8Len front + amount) := by
    rw [here.place, Nat.add_assoc]
  rw [place, caretKept_iff here here.unbroken stops]
  constructor
  · rintro ⟨front', back', split, size, rfl | ⟨rfl, -⟩⟩
    · have same := congrArg utf8Len split
      rw [utf8Len_append, utf8Len_append] at same
      omega
    · have none : 0 = utf8Len front + amount := size
      omega
  · rintro rfl
    exact ⟨front, back, rfl, rfl, .inl rfl⟩

/-- A caret on a line that lost white space. -/
theorem caretKept_cut_iff (amount : Nat) (removed : Text) {rest after' : Text} (stops : AtLineEnd after')
    (blank : ∀ c ∈ removed, isIndent c = true) (split : front ++ back = removed ++ rest)
    (few : utf8Len removed ≤ amount)
    : CaretKept document (before ++ (rest ++ after')) caret
        (max (caret - amount) (utf8Len before))
      ↔ caret ≤ utf8Len before + utf8Len removed ∨ utf8Len removed = amount := by
  have size := congrArg utf8Len split
  rw [utf8Len_append, utf8Len_append] at size
  have place : max (caret - amount) (utf8Len before)
      = utf8Len before + (utf8Len front - amount) := by
    have known := here.place
    omega
  have plain : Unbroken rest := (unbroken_append_iff.mp (split ▸ here.unbroken)).2
  rw [place, caretKept_iff here plain stops, here.place]
  constructor
  · rintro ⟨front', back', rfl, short, rfl | ⟨rfl, white, -, whole, inside⟩⟩
    · rw [utf8Len_append] at size
      omega
    · have same := congrArg utf8Len whole
      rw [utf8Len_append, utf8Len_append] at same
      rw [List.nil_append] at size
      omega
  · intro near
    by_cases inside : utf8Len front ≤ utf8Len removed
    · refine ⟨[], rest, rfl, ?_, .inr ⟨rfl, removed, blank, split, inside⟩⟩
      have none : utf8Len front - amount = 0 := by omega
      rw [none]
      rfl
    · -- The caret is behind the white space.
      rcases List.append_eq_append_iff.mp split with ⟨more, longer, -⟩ | ⟨more, front_eq, rest_eq⟩
      · have longer := congrArg utf8Len longer
        rw [utf8Len_append] at longer
        omega
      · refine ⟨more, back, rest_eq, ?_, .inl rfl⟩
        have longer := congrArg utf8Len front_eq
        rw [utf8Len_append] at longer
        omega

end

-- The subtree

/-- An edit of a document that moves the subtree of an item by some columns, and the caret with it;
the rest of the document stays as it is.
-/
def MovesSubtree (document : Text) (item : ListEditItem) (delta : Int) (caret : Nat)
    (range : SourceRange) (replacement : Text) (selectionAfter : SourceSelection) : Prop :=
  ∃ front original back lines mapped,
    document = front ++ (original ++ back)
    ∧ range = item.subtreeRange
    ∧ range = ⟨utf8Len front, utf8Len front + utf8Len original⟩
    ∧ List.Forall₂ (Moved delta) (splitPhysicalLines original) lines
    ∧ replacement = (lines.map SourceLine.text).flatten
    ∧ replaceRange document range replacement = some (front ++ replacement ++ back)
    ∧ selectionAfter = .caret mapped
    ∧ CaretKept document (front ++ replacement ++ back) caret mapped

/-- Whether a caret on the first of the lines moves as far as the line does, or is in the white
space that the line loses.
-/
def CaretFollows (delta : Int) (lines : List SourceLine) (leading : Nat) : Prop :=
  if 0 ≤ delta then
    delta = 0 ∨ lines ≠ []
  else
    let content := (lines.head?.map SourceLine.content).getD []
    let removed := (TabStops.cut 4 (-delta).toNat (content.takeWhile isIndent)).length
    leading ≤ removed ∨ removed = (-delta).toNat

/-- Whether the white space of the lines of a subtree lets them move by some columns, and the caret
with them.
-/
def CanShift (document : Text) (item : ListEditItem) (delta : Int) (caret : Nat) : Prop :=
  match slice? document item.subtreeRange.start item.subtreeRange.stop with
  | none => False
  | some original =>
      (∀ line ∈ splitPhysicalLines original,
        isAsciiBlank line.content = false → MovesBy delta (line.content.takeWhile isIndent))
      ∧ CaretFollows delta (splitPhysicalLines original) (caret - item.subtreeRange.start)

instance (delta : Int) (lines : List SourceLine) (leading : Nat)
    : Decidable (CaretFollows delta lines leading) := by
  unfold CaretFollows
  infer_instance

instance (document : Text) (item : ListEditItem) (delta : Int) (caret : Nat)
    : Decidable (CanShift document item delta caret) := by
  unfold CanShift
  split <;> infer_instance

theorem exists_firstLine {original back line after : Text} (whole : original ++ back = line ++ after)
    (plain : Unbroken line) (stops : AtLineEnd after) {first : SourceLine}
    {others : List SourceLine} (lines : splitPhysicalLines original = first :: others)
    (edit : SourceLine → SourceLine) (endings : ∀ line, (edit line).ending = line.ending)
    : ∃ more after', line = first.content ++ more
        ∧ AtLineEnd after'
        ∧ ((splitPhysicalLines original).map fun line => (edit line).text).flatten ++ back
          = ((edit first).content ++ more) ++ after' := by
  have known : first.WellFormed :=
    splitPhysicalLines_wellFormed original first (by rw [lines]; exact List.mem_cons_self)
  have split := splitPhysicalLines_flatten original
  have ended := splitPhysicalLines_ended original
  rw [lines, List.map_cons, List.flatten_cons] at split
  rw [lines] at ended ⊢
  subst split
  by_cases last : first.ending = []
  · have alone : others = [] := by
      by_contra several
      refine ended first ?_ last
      rw [List.dropLast_cons_of_ne_nil several]
      exact List.mem_cons_self
    subst alone
    have behind : first.content ++ back = line ++ after := by
      simpa [SourceLine.text, last] using whole
    have edited : (([first].map fun line => (edit line).text).flatten) ++ back
        = (edit first).content ++ back := by
      simp [SourceLine.text, endings, last]
    rw [edited]
    rcases List.append_eq_append_iff.mp behind with ⟨more, rfl, rfl⟩ | ⟨beyond, cut, rfl⟩
    · exact ⟨more, after, rfl, stops, (List.append_assoc _ _ _).symm⟩
    · cases beyond with
      | nil =>
          rw [List.append_nil] at cut
          exact ⟨[], back, by rw [List.append_nil, cut], by simpa using stops, by simp⟩
      | cons c beyond =>
          have breaks := stops c rfl
          rw [unbroken_content known c (by simp [cut])] at breaks
          cases breaks
  · have behind : first.content ++ (first.ending ++ ((others.map SourceLine.text).flatten ++ back))
        = line ++ after := by
      simpa [SourceLine.text] using whole
    have same := congrArg (List.takeWhile fun c => !isLineBreak c) behind
    rw [takeWhile_line (unbroken_content known) (AtLineEnd.ending known (.inl last)),
      takeWhile_line plain stops] at same
    refine ⟨[], first.ending ++ ((others.map fun line => (edit line).text).flatten ++ back),
      by rw [List.append_nil, same], AtLineEnd.ending known (.inl last), ?_⟩
    simp [SourceLine.text, endings]

/-- Where the caret is after the lines of a subtree moved. -/
theorem caretKept_transformSubtree_iff {before line after original back : Text} {front rest : Text}
    {caret : Nat} (starts : AtLineStart before) (plain : Unbroken line) (stops : AtLineEnd after)
    (whole : original ++ back = line ++ after) (cut : line = front ++ rest)
    (place : caret = utf8Len before + utf8Len front) (delta : Int)
    : CaretKept (before ++ (line ++ after))
        (before ++ (((splitPhysicalLines original).map fun line =>
          (transformLine delta line).text).flatten ++ back))
        caret
        (if 0 ≤ delta then
          caret + delta.toNat
        else
          max (caret - (-delta).toNat) (utf8Len before))
      ↔ CaretFollows delta (splitPhysicalLines original) (caret - utf8Len before) := by
  subst cut
  have here : CaretLine (before ++ ((front ++ rest) ++ after)) caret before front rest after :=
    ⟨by rw [List.append_assoc], starts, plain, stops, place⟩
  rw [CaretFollows]
  cases lines : splitPhysicalLines original with
  | nil =>
      have none := splitPhysicalLines_flatten original
      rw [lines] at none
      rw [← none] at whole
      simp only [List.map_nil, List.flatten_nil, List.nil_append] at whole ⊢
      rw [whole]
      split
      · rename_i forward
        rw [caretKept_moved_iff here stops]
        simp
        omega
      · rename_i backward
        rw [caretKept_cut_iff here (-delta).toNat [] stops (by simp) (List.nil_append _).symm
          (Nat.zero_le _)]
        simp [TabStops.cut]
        omega
  | cons first others =>
      obtain ⟨more, after', cut, stops', edited⟩ :=
        exists_firstLine whole plain stops lines (transformLine delta) (transformLine_ending delta)
      rw [lines] at edited
      rw [edited]
      split
      · rename_i forward
        have line : (transformLine delta first).content ++ more
            = List.replicate delta.toNat ' ' ++ (front ++ rest) := by
          rw [transformLine, if_pos forward, cut, List.append_assoc]
        rw [line]
        exact iff_of_true (caretKept_spaces here _ stops') (.inr (List.cons_ne_nil _ _))
      · rename_i backward
        obtain ⟨lead, leadEq⟩ : ∃ lead, first.content.takeWhile isIndent = lead := ⟨_, rfl⟩
        have blank : ∀ c ∈ TabStops.cut 4 (-delta).toNat lead, isIndent c = true := by
          intro c member
          have inside : c ∈ first.content.takeWhile isIndent := by
            rw [leadEq, ← TabStops.cut_append_left 4 (-delta).toNat lead]
            exact List.mem_append_left _ member
          exact List.mem_takeWhile_imp inside
        have line : front ++ rest
            = TabStops.cut 4 (-delta).toNat lead ++ ((transformLine delta first).content ++ more) := by
          rw [transformLine_content, shiftedIndent, if_neg backward, leadEq, cut,
            ← List.append_assoc, ← List.append_assoc, TabStops.cut_append_left, ← leadEq,
            List.takeWhile_append_dropWhile]
        have few : (TabStops.cut 4 (-delta).toNat lead).length ≤ (-delta).toNat :=
          TabStops.length_cut_le (by decide) (-delta).toNat lead
        have size := utf8Len_indent blank
        rw [caretKept_cut_iff here (-delta).toNat _ stops' blank line (by omega), size]
        simp only [List.head?_cons, Option.map_some, Option.getD_some, leadEq]
        omega

/-- When the lines and the caret of a transformed subtree end up where they should. -/
theorem transformSubtree_shifts_iff {opening : Opening} {item : ListEditItem}
    (opens : opening.Opens 0 item) {delta : Int} {caret : Nat} {front rest : Text}
    (cut : opening.line = front ++ rest) (place : caret = utf8Len opening.before + utf8Len front)
    {range : SourceRange} {replacement : Text} {selectionAfter : SourceSelection}
    (planned
      : transformSubtree opening.text item delta caret = .replace range replacement selectionAfter)
    : MovesSubtree opening.text item delta caret range replacement selectionAfter
      ↔ CanShift opening.text item delta caret := by
  have first : item.subtreeRange.start = utf8Len opening.before := by
    rw [opens.subtree, Nat.zero_add]
  have start : lineStart opening.text caret = utf8Len opening.before := by
    have split : opening.text = opening.before ++ (front ++ (rest ++ opening.after)) := by
      rw [Opening.text, cut, List.append_assoc]
    rw [split, place]
    exact lineStart_eq _ opens.starts (unbroken_append_iff.mp (cut ▸ opens.unbroken)).1
  rw [transformSubtree, start] at planned
  obtain ⟨rfl, rfl, rfl⟩ := MarkdownEditPlan.replace.inj planned
  rw [CanShift]
  cases sliced : slice? opening.text item.subtreeRange.start item.subtreeRange.stop with
  | none =>
      refine iff_of_false ?_ not_false
      rintro ⟨before, original, back, lines, mapped, split, -, range, -⟩
      rw [split, range, slice?_append] at sliced
      cases sliced
  | some original =>
      obtain ⟨before, back, split, starts, stops⟩ := exists_of_slice? sliced
      have whole : opening.before ++ (opening.line ++ opening.after) = before ++ (original ++ back) :=
        split
      obtain ⟨rfl, behind⟩ := append_inj_of_utf8Len whole (by rw [← first, starts])
      have kept := caretKept_transformSubtree_iff opens.starts opens.unbroken opens.stops
        behind.symm cut place delta
      have range : item.subtreeRange
          = ⟨utf8Len opening.before, utf8Len opening.before + utf8Len original⟩ := by
        rw [← stops, ← starts]
      constructor
      · rintro ⟨before, content, after, lines, mapped, other, -, same, moved, text, -, caret, holds⟩
        have known := sliced
        rw [other, same, slice?_append] at known
        obtain rfl := Option.some.inj known
        have again : opening.before ++ (content ++ back) = before ++ (content ++ after) :=
          split.symm.trans other
        obtain ⟨rfl, ends⟩ := append_inj_of_utf8Len again (by rw [← starts, same])
        obtain rfl := List.append_cancel_left ends
        have reindented : List.Forall₂ Reindented (splitPhysicalLines content)
            ((splitPhysicalLines content).map (transformLine delta)) := by
          rw [List.forall₂_map_right_iff, List.forall₂_same]
          exact fun line _ => (columns_transformLine delta line).2
        obtain rfl := Reindented.lines_unique (splitPhysicalLines_wellFormed content)
          (splitPhysicalLines_ended content) (moved.imp fun _ _ line => line.toReindented) reindented
          (by rw [← text, Option.getD_some, List.map_map]; rfl)
        rw [List.forall₂_map_right_iff, List.forall₂_same] at moved
        obtain rfl : _ = mapped := congrArg SourceSelection.active caret
        refine ⟨fun line member => moved_transformLine_iff.mp (moved line member), ?_⟩
        rw [starts]
        rw [List.append_assoc] at holds
        exact kept.mp holds
      · rintro ⟨moves, follows⟩
        have edited : replaceRange opening.text item.subtreeRange
            ((splitPhysicalLines original).map fun line => (transformLine delta line).text).flatten
            = some (opening.before
              ++ ((splitPhysicalLines original).map fun line =>
                (transformLine delta line).text).flatten ++ back) := by
          rw [split, range, replaceRange_eq]
        refine ⟨opening.before, original, back, (splitPhysicalLines original).map
          (transformLine delta), _, split, rfl, range, ?_, ?_, edited, rfl, ?_⟩
        · rw [List.forall₂_map_right_iff, List.forall₂_same]
          intro line member
          exact moved_transformLine_iff.mpr (moves line member)
        · rw [Option.getD_some, List.map_map]
          rfl
        · rw [List.append_assoc]
          exact kept.mpr (by rwa [← starts])

theorem itemAt_shifts_iff {parsed : ListParse} {source document before after : Text}
    (sound : parsed.Sound source) (block : parsed.Within source document before after)
    {caret : Nat} {item : ListEditItem} {delta : Int} {range : SourceRange} {replacement : Text}
    {selectionAfter : SourceSelection} (boundary : Boundary document caret)
    (found : (buildListEditProjection parsed source).itemAt caret = some item)
    (inside : item.prefixRange.start ≤ caret ∧ caret ≤ item.bodyRange.stop)
    (planned
      : transformSubtree document item delta caret = .replace range replacement selectionAfter)
    : MovesSubtree document item delta caret range replacement selectionAfter
      ↔ CanShift document item delta caret := by
  obtain ⟨opening, rfl, opens⟩ := itemAt_opens sound block found
  obtain ⟨first, last⟩ := inside
  rw [opens.prefixStart, Nat.zero_add] at first
  rw [opens.bodyStop, Nat.zero_add] at last
  obtain ⟨front, rest, cut, place⟩ := opening.exists_place boundary first last
  exact transformSubtree_shifts_iff opens cut place planned

/-- An indent, an outdent or the exit of a nested list moves the subtree of its item, and the caret
with it, exactly when the white space of the lines lets it.
Witness: `indent_spaces`.
-/
theorem planListEdit_shifts_iff {parsed : ListParse} {source document before after : Text}
    (sound : parsed.Sound source) (block : parsed.Within source document before after)
    {selection : SourceSelection} {item : ListEditItem} {intent : ListEditIntent} {delta : Int}
    {range : SourceRange} {replacement : Text} {selectionAfter : SourceSelection}
    (boundary : Boundary document selection.active)
    (found : (buildListEditProjection parsed source).itemAt selection.active = some item)
    (moves : columnsMoved (buildListEditProjection parsed source) item intent = some delta)
    (exits
      : intent = .enter ∨ intent = .backspace
        → slice? document item.bodyRange.start item.bodyRange.stop = some [] ∧ 1 < item.depth)
    (planned
      : planListEdit document (buildListEditProjection parsed source) selection intent
        = .handled (.replace range replacement selectionAfter))
    : MovesSubtree document item delta selection.active range replacement selectionAfter
      ↔ CanShift document item delta selection.active :=
  itemAt_shifts_iff sound block boundary found (onOpeningLine_of_replace found planned)
    (transformSubtree_of_planned found moves exits planned)

/-- A list of two items, the second one with a list of one item in it. -/
def nestedParse (second third stop : Nat) : ListParse where
  revision := 1
  sourceRange := ⟨0, stop⟩
  tree.nodes := [
    ⟨.document, ⟨0, stop⟩, [1]⟩,
    ⟨.list none, ⟨0, stop⟩, [2, 4]⟩,
    ⟨.listItem none, ⟨0, second⟩, [3]⟩,
    ⟨.text, ⟨2, 3⟩, []⟩,
    ⟨.listItem none, ⟨second, stop⟩, [5, 6]⟩,
    ⟨.text, ⟨second + 2, second + 3⟩, []⟩,
    ⟨.list none, ⟨third, stop⟩, [7]⟩,
    ⟨.listItem none, ⟨third, stop⟩, [8]⟩,
    ⟨.text, ⟨third + 2, stop⟩, []⟩]
  details.parents := [none, some 0, some 1, some 2, some 1, some 4, some 4, some 6, some 7]

def nestedBySpaces : Text := "- a\n- b\n  - c".toList

def nestedByTab : Text := "- a\n- b\n\t- c".toList

theorem indent_spaces
    : ∃ item, (buildListEditProjection (nestedParse 4 10 13) nestedBySpaces).itemAt 6 = some item
        ∧ (MovesSubtree nestedBySpaces item 2 6 ⟨4, 13⟩ "  - b\n    - c".toList (.caret 8)
          ↔ CanShift nestedBySpaces item 2 6)
        ∧ CanShift nestedBySpaces item 2 6 := by
  have sound : (nestedParse 4 10 13).Sound nestedBySpaces := by
    intro node member
    refine ⟨node.sourceRange.start, node.sourceRange.stop, ?_⟩
    revert node
    decide +kernel
  have block : (nestedParse 4 10 13).Within nestedBySpaces nestedBySpaces [] [] :=
    ⟨by simp, by decide +kernel, .nil, .inl .nil⟩
  have facts : ((buildListEditProjection (nestedParse 4 10 13) nestedBySpaces).itemAt 6).any
      (fun item => columnsMoved (buildListEditProjection (nestedParse 4 10 13) nestedBySpaces) item
          .indent == some 2
        && CanShift nestedBySpaces item 2 6) = true := by
    decide +kernel
  obtain ⟨item, found, facts⟩ := (Option.any_eq_true _ _).mp facts
  rw [Bool.and_eq_true, beq_iff_eq, decide_eq_true_eq] at facts
  have planned : planListEdit nestedBySpaces
      (buildListEditProjection (nestedParse 4 10 13) nestedBySpaces) (.caret 6) .indent
      = .handled (.replace ⟨4, 13⟩ "  - b\n    - c".toList (.caret 8)) := by
    decide +kernel
  exact ⟨item, found, planListEdit_shifts_iff sound block (by decide +kernel) found facts.1
    (by simp) planned, facts.2⟩

/-- The indent of an item whose nested item is indented by a tab leaves the nested one where it is.
-/
theorem indent_tab_stays
    : ∃ item, (buildListEditProjection (nestedParse 4 9 12) nestedByTab).itemAt 6 = some item
        ∧ columnsMoved (buildListEditProjection (nestedParse 4 9 12) nestedByTab) item .indent
          = some 2
        ∧ planListEdit nestedByTab (buildListEditProjection (nestedParse 4 9 12) nestedByTab)
            (.caret 6) .indent
          = .handled (.replace ⟨4, 12⟩ "  - b\n  \t- c".toList (.caret 8))
        ∧ ¬MovesSubtree nestedByTab item 2 6 ⟨4, 12⟩ "  - b\n  \t- c".toList (.caret 8) := by
  have sound : (nestedParse 4 9 12).Sound nestedByTab := by
    intro node member
    refine ⟨node.sourceRange.start, node.sourceRange.stop, ?_⟩
    revert node
    decide +kernel
  have block : (nestedParse 4 9 12).Within nestedByTab nestedByTab [] [] :=
    ⟨by simp, by decide +kernel, .nil, .inl .nil⟩
  have facts : ((buildListEditProjection (nestedParse 4 9 12) nestedByTab).itemAt 6).any
      (fun item => columnsMoved (buildListEditProjection (nestedParse 4 9 12) nestedByTab) item
          .indent == some 2
        && item.prefixRange.start ≤ 6
        && 6 ≤ item.bodyRange.stop
        && transformSubtree nestedByTab item 2 6
          == .replace ⟨4, 12⟩ "  - b\n  \t- c".toList (.caret 8)
        && ¬CanShift nestedByTab item 2 6) = true := by
    decide +kernel
  obtain ⟨item, found, facts⟩ := (Option.any_eq_true _ _).mp facts
  simp only [Bool.and_eq_true, beq_iff_eq, decide_eq_true_eq] at facts
  obtain ⟨⟨⟨⟨moves, first⟩, last⟩, plan⟩, stays⟩ := facts
  refine ⟨item, found, moves, by decide +kernel, fun shifts => stays ?_⟩
  exact (itemAt_shifts_iff sound block (by decide +kernel) found ⟨first, last⟩ plan).mp shifts

end Hane.Markdown
