import Hane.Document.LineIndex
import Hane.Editing.Movement
import Mathlib.Data.List.Induction

/-! Where caret movement leads: from a character boundary it always succeeds, and reaches a
character boundary.
-/

namespace Hane.Document

open Hane.Foundations

theorem Boundary.within {text part before after : Text} {offset : Nat}
    (split : text = before ++ (part ++ after)) (boundary : Boundary part offset)
    : Boundary text (Document.utf8Len before + offset) := by
  obtain ⟨front, back, rfl, rfl⟩ := boundary
  subst split
  rw [← utf8Len_append, List.append_assoc, ← List.append_assoc before]
  exact .of_append (before ++ front) (back ++ after)

namespace RopeBuffer

/-- A range read from the text: ordered boundaries. -/
structure ReadsRange (buffer : RopeBuffer) (range : SourceRange) : Prop where
  ordered : range.start ≤ range.stop
  start : Boundary buffer.rope range.start
  stop : Boundary buffer.rope range.stop

theorem ReadsRange.text {buffer : RopeBuffer} {range : SourceRange}
    (reads : buffer.ReadsRange range)
    : Succeeds
        (fun content => utf8Len content = range.lenBytes
          ∧ ∀ offset, Boundary content offset → Boundary buffer.rope (range.start + offset))
        (buffer.text range) := by
  obtain ⟨before, middle, after, text, start, stop⟩ := reads.start.split reads.stop reads.ordered
  rw [List.append_assoc] at text
  refine ⟨middle, ?_, ?_, ?_⟩
  · have content := text_append text
    rwa [stop, start] at content
  · rw [SourceRange.lenBytes, ← stop, start, Nat.add_sub_cancel_left]
  · intro offset boundary
    exact start ▸ boundary.within text

section Lines

variable {buffer : RopeBuffer} (mirrored : buffer.Mirrored)

include mirrored

theorem Mirrored.readsLine {line : Nat} (inside : line < buffer.lineCount)
    : ∃ range content,
        buffer.lineRange line = .ok range
        ∧ buffer.lineContentRange line = .ok content
        ∧ buffer.ReadsRange range
        ∧ buffer.ReadsRange content
        ∧ content.start = range.start := by
  rw [mirrored.lineCount] at inside
  have found := List.getElem?_eq_getElem inside
  obtain ⟨before, after, text, start⟩ := exists_line_split found
  have whole : buffer.rope = before ++ ((splitLines buffer.rope)[line].text ++ after) := by
    rw [SourceLine.text, List.append_assoc]
    exact text
  have starts : Boundary buffer.rope (lineStart buffer.rope line) := ⟨before, _, text, start⟩
  have range := mirrored.lineRange line
  have content := mirrored.lineContentRange line
  rw [found] at range content
  refine ⟨_, _, range, content, ⟨Nat.le_add_right _ _, starts, ?_⟩, ⟨Nat.le_add_right _ _, starts, ?_⟩, rfl⟩
  · exact start ▸ Boundary.within whole (Boundary.utf8Len _)
  · exact start ▸ Boundary.within text (Boundary.utf8Len _)

theorem Mirrored.lineRange_reads {line : Nat} (inside : line < buffer.lineCount)
    : Succeeds buffer.ReadsRange (buffer.lineRange line) := by
  obtain ⟨range, content, found, -, reads, -⟩ := mirrored.readsLine inside
  exact ⟨range, found, reads⟩

theorem Mirrored.lineContentRange_reads {line : Nat} (inside : line < buffer.lineCount)
    : Succeeds buffer.ReadsRange (buffer.lineContentRange line) := by
  obtain ⟨range, content, -, found, -, reads, -⟩ := mirrored.readsLine inside
  exact ⟨content, found, reads⟩

theorem Mirrored.lineForOffset_reads {offset : Nat} (boundary : Boundary buffer.rope offset)
    : Succeeds
        (fun line => line < buffer.lineCount
          ∧ ∃ range, buffer.lineRange line = .ok range ∧ buffer.ReadsRange range
            ∧ range.start ≤ offset ∧ offset ≤ range.stop)
        (buffer.lineForOffset offset) := by
  obtain ⟨line, range, asked, found, after, before⟩ := mirrored.lineForOffset boundary
  have inside : line < buffer.lineCount := by
    rw [mirrored.lineCount]
    by_contra past
    rw [mirrored.lineRange, List.getElem?_eq_none (Nat.le_of_not_lt past)] at found
    cases found
  obtain ⟨same, found', reads⟩ := mirrored.lineRange_reads inside
  obtain rfl := Except.ok.inj (found.symm.trans found')
  refine ⟨line, asked, inside, range, found, reads, after, ?_⟩
  rcases before with earlier | ⟨-, same⟩
  · exact Nat.le_of_lt earlier
  · exact Nat.le_of_eq same

theorem Mirrored.offsetForLineCol_zero {line : Nat} {range : SourceRange}
    (found : buffer.lineRange line = .ok range) (inside : line < buffer.lineCount)
    : buffer.offsetForLineCol line 0 = .ok range.start := by
  obtain ⟨range', content, found', read, -, reads, start⟩ := mirrored.readsLine inside
  obtain rfl := Except.ok.inj (found.symm.trans found')
  have byte := (Rope.boundary_iff _ _).mp reads.start
  rw [start] at byte
  rw [offsetForLineCol, read]
  simp only [bind, Except.bind, Nat.not_lt_zero, gt_iff_lt, if_false, Nat.add_zero, pure,
    Except.pure, byte, start]

theorem Mirrored.previousLine {line : Nat} {range : SourceRange}
    (found : buffer.lineRange (line + 1) = .ok range)
    : Succeeds (fun previous => buffer.ReadsRange previous ∧ previous.stop = range.start)
        (buffer.lineRange line) := by
  have inside : line + 1 < buffer.lineCount := by
    rw [mirrored.lineCount]
    by_contra past
    rw [mirrored.lineRange, List.getElem?_eq_none (Nat.le_of_not_lt past)] at found
    cases found
  obtain ⟨previous, here, reads⟩ := mirrored.lineRange_reads (Nat.lt_of_succ_lt inside)
  obtain ⟨-, meets, -⟩ := mirrored.lineRange_tiles here
  exact ⟨previous, here, reads, (meets range found).symm⟩

end Lines

end RopeBuffer

end Hane.Document

namespace Hane.Editing

open Hane.Foundations Hane.Document

/-- Segments start at boundaries of their text, by induction on them. -/
theorem segmentIndices_boundary {segments : List Text} {index : Nat} {entry : Nat × Text}
    (member : entry ∈ segmentIndices index segments)
    : ∃ offset, entry.1 = index + offset ∧ Boundary segments.flatten offset
        ∧ Boundary segments.flatten (offset + utf8Len entry.2) := by
  induction segments generalizing index with
  | nil => cases member
  | cons segment rest ih =>
      rcases List.mem_cons.mp member with rfl | later
      · refine ⟨0, rfl, .zero _, ?_⟩
        rw [Nat.zero_add]
        exact .of_append segment rest.flatten
      · obtain ⟨offset, start, first, last⟩ := ih later
        have text : (segment :: rest).flatten = segment ++ (rest.flatten ++ []) := by simp
        refine ⟨utf8Len segment + offset, by omega, first.within text, ?_⟩
        rw [Nat.add_assoc]
        exact last.within text

theorem segmentIndices_append (index : Nat) (front back : List Text)
    : segmentIndices index (front ++ back)
      = segmentIndices index front ++ segmentIndices (index + utf8Len front.flatten) back := by
  induction front generalizing index with
  | nil => simp [segmentIndices]
  | cons segment rest ih => simp [segmentIndices, ih, Nat.add_assoc]

namespace Editor

def Walk.position : Walk → Nat
  | .done position | .running position _ => position

variable {unicode : Unicode}

/-- The part of a segment after `relative`, with its bytes. -/
def forwardPart (relative : Nat) : Nat × Text → Option (Text × Nat) := fun (index, segment) =>
  let segmentEnd := index + utf8Len segment
  if segmentEnd > relative then some (segment, segmentEnd - max index relative) else none

/-- The part of a segment before `relative`, with its bytes. -/
def backwardPart (relative : Nat) : Nat × Text → Option (Text × Nat) := fun (index, segment) =>
  let segmentEnd := index + utf8Len segment
  if index < relative then some (segment, min segmentEnd relative - index) else none

theorem walkSegments_cons {keeps : Nat → Prop} {forward : Bool} {phases : WordClass × WordClass}
    {segment : Text} {walked position : Nat} {rest : List (Text × Nat)} {second : Bool}
    (stays : keeps position)
    (goes :
      ∀ second, keeps
        (walkSegments unicode forward phases rest
          (if forward then position + walked else position - walked) second).position)
    : keeps
        (walkSegments unicode forward phases ((segment, walked) :: rest) position second).position := by
  have either (condition : Prop) [Decidable condition] (walk : Walk) (kept : keeps walk.position)
      : keeps (if condition then Walk.done position else walk).position := by
    split
    · exact stays
    · exact kept
  exact either _ _ (goes _)

/-- A forward walk only passes positions where a segment ends, by induction on the segments. -/
theorem walkForward_keeps {keeps : Nat → Prop} {phases : WordClass × WordClass} {base relative : Nat}
    {segments : List Text} {index : Nat} {second : Bool} (starts : keeps (base + max index relative))
    (ends :
      ∀ entry ∈ segmentIndices index segments, keeps (base + (entry.1 + utf8Len entry.2)))
    : keeps
        (walkSegments unicode true phases
          ((segmentIndices index segments).filterMap (forwardPart relative))
          (base + max index relative) second).position := by
  induction segments generalizing index second with
  | nil => exact starts
  | cons segment rest ih =>
      have ended := ends (index, segment) List.mem_cons_self
      have later := fun entry member => ends entry (List.mem_cons_of_mem _ member)
      by_cases past : index + utf8Len segment > relative
      · have part : forwardPart relative (index, segment)
            = some (segment, index + utf8Len segment - max index relative) := if_pos past
        rw [segmentIndices, List.filterMap_cons_some part]
        apply walkSegments_cons starts
        intro second
        have moved : base + max index relative + (index + utf8Len segment - max index relative)
            = base + max (index + utf8Len segment) relative := by
          omega
        have stops : base + max (index + utf8Len segment) relative
            = base + (index + utf8Len segment) := by
          omega
        rw [if_pos rfl, moved]
        exact ih (stops ▸ ended) later
      · have part : forwardPart relative (index, segment) = none := if_neg past
        rw [segmentIndices, List.filterMap_cons_none part]
        have same : max index relative = max (index + utf8Len segment) relative := by omega
        rw [same] at starts ⊢
        exact ih starts later

/-- A backward walk only passes positions where a segment starts, by induction on the segments
from the last one.
-/
theorem walkBackward_keeps {keeps : Nat → Prop} {phases : WordClass × WordClass}
    {base relative : Nat} {segments : List Text} {second : Bool}
    (starts : keeps (base + min (utf8Len segments.flatten) relative))
    (begins : ∀ entry ∈ segmentIndices 0 segments, keeps (base + entry.1))
    : keeps
        (walkSegments unicode false phases
          ((segmentIndices 0 segments).filterMap (backwardPart relative)).reverse
          (base + min (utf8Len segments.flatten) relative) second).position := by
  induction segments using List.reverseRecOn generalizing second with
  | nil => exact starts
  | append_singleton front segment ih =>
      have indices : segmentIndices 0 (front ++ [segment])
          = segmentIndices 0 front ++ [(utf8Len front.flatten, segment)] := by
        rw [segmentIndices_append, Nat.zero_add]
        rfl
      have total : utf8Len (front ++ [segment]).flatten
          = utf8Len front.flatten + utf8Len segment := by
        simp
      rw [indices] at begins ⊢
      rw [total] at starts ⊢
      have begun := begins _ (List.mem_append_right _ (List.mem_singleton.mpr rfl))
      have earlier := fun entry member => begins entry (List.mem_append_left _ member)
      rw [List.filterMap_append, List.reverse_append]
      by_cases before : utf8Len front.flatten < relative
      · have part : backwardPart relative (utf8Len front.flatten, segment)
            = some (segment, min (utf8Len front.flatten + utf8Len segment) relative
              - utf8Len front.flatten) := if_pos before
        rw [List.filterMap_cons_some part]
        apply walkSegments_cons starts
        intro second
        have moved : base + min (utf8Len front.flatten + utf8Len segment) relative
              - (min (utf8Len front.flatten + utf8Len segment) relative - utf8Len front.flatten)
            = base + min (utf8Len front.flatten) relative := by
          omega
        have stops : base + min (utf8Len front.flatten) relative
            = base + utf8Len front.flatten := by
          omega
        rw [if_neg Bool.false_ne_true, moved]
        exact ih (stops ▸ begun) earlier
      · have part : backwardPart relative (utf8Len front.flatten, segment) = none := if_neg before
        rw [List.filterMap_cons_none part]
        have same : min (utf8Len front.flatten + utf8Len segment) relative
            = min (utf8Len front.flatten) relative := by
          omega
        rw [same] at starts ⊢
        exact ih starts earlier

section Targets

variable {editor : Editor} (mirrored : editor.document.Mirrored)

theorem segmentStart_boundary {range : SourceRange} {segments : List Text} {content : Text}
    {buffer : RopeBuffer} {found : Option (Nat × Text)} {otherwise : Nat}
    (whole : segments.flatten = content)
    (within : ∀ offset, Boundary content offset → Boundary buffer.rope (range.start + offset))
    (member : ∀ entry ∈ found, entry ∈ segmentIndices 0 segments)
    (fallback : Boundary content otherwise)
    : Boundary buffer.rope (range.start + (found.map Prod.fst).getD otherwise) := by
  cases found with
  | none => exact within _ fallback
  | some entry =>
      obtain ⟨offset, start, boundary, -⟩ := segmentIndices_boundary (member entry rfl)
      apply within
      rw [whole] at boundary
      rw [Option.map_some, Option.getD_some, start, Nat.zero_add]
      exact boundary

/-- A walk over one line ends or goes on at a boundary. -/
theorem walkedSegments_boundary {forward : Bool} {phases : WordClass × WordClass}
    {range : SourceRange} {content : Text} {position : Nat} {second : Bool}
    (length : utf8Len content = range.lenBytes)
    (within :
      ∀ offset, Boundary content offset → Boundary editor.document.rope (range.start + offset))
    (after : range.start ≤ position) (before : position ≤ range.stop)
    (boundary : Boundary editor.document.rope position)
    : Boundary editor.document.rope
        (walkSegments unicode forward phases
          (walkedSegments unicode content (position - range.start) forward) position
          second).position := by
  have whole := unicode.wordBounds_flatten content
  rw [SourceRange.lenBytes] at length
  have edges (entry : Nat × Text) (member : entry ∈ segmentIndices 0 (unicode.wordBounds content))
      : Boundary editor.document.rope (range.start + entry.1)
        ∧ Boundary editor.document.rope (range.start + (entry.1 + utf8Len entry.2)) := by
    obtain ⟨offset, start, first, last⟩ := segmentIndices_boundary member
    rw [whole] at first last
    rw [start, Nat.zero_add]
    exact ⟨within _ first, within _ last⟩
  cases forward with
  | true =>
      have starts : range.start + max 0 (position - range.start) = position := by omega
      have walked := @walkForward_keeps unicode (Boundary editor.document.rope) phases range.start
        (position - range.start) (unicode.wordBounds content) 0 second
        (starts.symm ▸ boundary) fun entry member => (edges entry member).2
      rwa [starts] at walked
  | false =>
      have starts : range.start + min (utf8Len (unicode.wordBounds content).flatten)
          (position - range.start) = position := by
        rw [whole]
        omega
      have walked := @walkBackward_keeps unicode (Boundary editor.document.rope) phases range.start
        (position - range.start) (unicode.wordBounds content) second
        (starts.symm ▸ boundary) fun entry member => (edges entry member).1
      rwa [starts] at walked

include mirrored

theorem previousGrapheme_succeeds {offset : Nat} (boundary : Boundary editor.document.rope offset)
    : Succeeds (Boundary editor.document.rope) (editor.previousGrapheme unicode offset) := by
  rw [previousGrapheme, (RopeBuffer.validateOffset_ok_iff _ _).mpr boundary]
  change Succeeds _ (if offset = 0 then _ else _)
  split
  · exact .pure boundary
  refine (mirrored.lineForOffset_reads boundary).bind ?_
  intro line here
  obtain ⟨inside, range, found, reads, after, -⟩ := here
  rw [mirrored.offsetForLineCol_zero found inside]
  change Succeeds _ (if offset = range.start ∧ line > 0 then _ else _)
  split
  · have above : line - 1 < editor.document.lineCount := by omega
    refine (mirrored.lineContentRange_reads above).bind ?_
    exact fun previous reads => .pure reads.stop
  · have part : editor.document.ReadsRange ⟨range.start, offset⟩ := ⟨after, reads.start, boundary⟩
    refine part.text.bind ?_
    intro content read
    refine .pure (segmentStart_boundary (unicode.graphemes_flatten content) read.2 ?_ (.zero _))
    exact fun entry last => List.mem_of_getLast? last

theorem nextGrapheme_succeeds {offset : Nat} (boundary : Boundary editor.document.rope offset)
    : Succeeds (Boundary editor.document.rope) (editor.nextGrapheme unicode offset) := by
  rw [nextGrapheme, (RopeBuffer.validateOffset_ok_iff _ _).mpr boundary]
  change Succeeds _ (if offset = editor.document.lenBytes then _ else _)
  split
  · exact .pure boundary
  refine (mirrored.lineForOffset_reads boundary).bind ?_
  intro line here
  obtain ⟨-, range, found, reads, -, before⟩ := here
  rw [found]
  have part : editor.document.ReadsRange ⟨offset, range.stop⟩ := ⟨before, boundary, reads.stop⟩
  refine part.text.bind ?_
  intro content read
  refine .pure (segmentStart_boundary (unicode.graphemes_flatten content) read.2 ?_
    (Boundary.utf8Len _))
  exact fun entry second => List.mem_of_getElem? second

theorem walkLine_succeeds {position : Nat} {forward : Bool}
    (boundary : Boundary editor.document.rope position)
    : Succeeds
        (fun found => ∀ range ∈ found, editor.document.ReadsRange range
          ∧ range.start ≤ position ∧ position ≤ range.stop)
        (editor.walkLine position forward) := by
  have line := mirrored.lineForOffset_reads boundary
  rw [walkLine]
  split
  · split
    · exact .pure nofun
    · refine line.bind ?_
      intro line here
      obtain ⟨-, range, found, reads⟩ := here
      rw [found]
      exact .pure fun _ same => Option.some.inj same ▸ reads
  · split
    · exact .pure nofun
    rename_i nonzero
    refine line.bind ?_
    intro line here
    obtain ⟨-, range, found, reads, after, before⟩ := here
    rw [found]
    change Succeeds _ (if position = range.start then _ else _)
    split
    · rename_i atStart
      cases line with
      | zero =>
          have first := (mirrored.lineRange_tiles found).1 rfl
          exact absurd (atStart.trans first) nonzero
      | succ line =>
          refine (mirrored.previousLine found).bind ?_
          intro previous here
          obtain ⟨reads, meets⟩ := here
          have stops : previous.stop = position := meets.trans atStart.symm
          exact .pure fun _ same => Option.some.inj same
            ▸ ⟨reads, stops ▸ reads.ordered, Nat.le_of_eq stops.symm⟩
    · exact .pure fun _ same => Option.some.inj same ▸ ⟨reads, after, before⟩

/-- The walk line by line ends at a boundary, by induction on its rounds. -/
theorem scanLines_succeeds {forward : Bool} {phases : WordClass × WordClass} {rounds position : Nat}
    {second : Bool} (boundary : Boundary editor.document.rope position)
    : Succeeds (Boundary editor.document.rope)
        (editor.scanLines unicode forward phases rounds position second) := by
  induction rounds generalizing position second with
  | zero => exact .pure boundary
  | succ rounds ih =>
      rw [scanLines]
      refine (walkLine_succeeds mirrored boundary).bind ?_
      intro found reads
      cases found with
      | none => exact .pure boundary
      | some range =>
          obtain ⟨reads, after, before⟩ := reads range rfl
          refine reads.text.bind ?_
          intro content read
          have walked := @walkedSegments_boundary unicode editor forward phases range content position
            second read.1 read.2 after before boundary
          dsimp only
          generalize walkSegments unicode forward phases
            (walkedSegments unicode content (position - range.start) forward) position second
            = walk at walked ⊢
          cases walk with
          | done position => exact .pure walked
          | running position second => exact ih walked

theorem wordTarget_succeeds {start : Nat} {forward : Bool} {stop : ForwardStop}
    (boundary : Boundary editor.document.rope start)
    : Succeeds (Boundary editor.document.rope) (editor.wordTarget unicode start forward stop) := by
  change Succeeds _ (editor.scanWords unicode start forward _)
  rw [scanWords, (RopeBuffer.validateOffset_ok_iff _ _).mpr boundary]
  exact scanLines_succeeds mirrored boundary

theorem paragraphTarget_succeeds {start : Nat} {forward : Bool} {stop : ForwardStop}
    (boundary : Boundary editor.document.rope start)
    : Succeeds (Boundary editor.document.rope) (editor.paragraphTarget start forward stop) := by
  rw [paragraphTarget]
  refine (mirrored.lineForOffset_reads boundary).bind ?_
  intro line here
  have inside := here.1
  have content (line : Nat) (inside : line < editor.document.lineCount) :=
    mirrored.lineContentRange_reads inside
  refine (content line inside).bind ?_
  intro range reads
  dsimp only
  split
  · split
    · exact .pure reads.start
    · split
      · exact .pure reads.start
      · exact (content (line - 1) (by omega)).bind fun _ reads => .pure reads.start
  · cases stop with
    | nextStart =>
        dsimp only
        split
        · rename_i hasNext
          exact (mirrored.lineRange_reads (of_decide_eq_true hasNext)).bind
            fun _ reads => .pure reads.start
        · exact (content line inside).bind fun _ reads => .pure reads.stop
    | atEnd =>
        dsimp only
        split
        · exact .pure reads.stop
        · split
          · rename_i hasNext
            exact (content (line + 1) (of_decide_eq_true hasNext)).bind
              fun _ reads => .pure reads.stop
          · exact .pure boundary

end Targets

end Editor

end Hane.Editing
