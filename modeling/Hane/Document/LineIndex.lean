import Hane.Document.LineMirror
import Mathlib.Data.List.Flatten
import Mathlib.Algebra.BigOperators.Group.List.Basic

/-! The line queries of a mirrored buffer agree with the reference splitter. -/

namespace Hane.Document

open Hane.Foundations

/-- Mirroring two characters at a time follows the splitter's cases. -/
theorem mirrorBareCr_crlf (rest : Text)
    : mirrorBareCr ('\r' :: '\n' :: rest) false = '\r' :: '\n' :: mirrorBareCr rest false := by
  simp [mirrorBareCr, followedByLf]

theorem mirrorBareCr_bareCr (rest : Text) (bare : rest.head? ≠ some '\n')
    : mirrorBareCr ('\r' :: rest) false = '\n' :: mirrorBareCr rest false := by
  simp [mirrorBareCr, followedByLf_eq_head?, bare]

theorem mirrorBareCr_other (c : Char) (rest : Text) (cr : c ≠ '\r')
    : mirrorBareCr (c :: rest) false = c :: mirrorBareCr rest false := by
  simp [mirrorBareCr, cr]

/-- The mirror's line count is the number of source lines. -/
theorem lenLines_mirror (text : Text)
    : Rope.lenLines (mirrorBareCr text false) = (splitLines text).length := by
  unfold Rope.lenLines
  induction text using splitLines_induction with
  | nil => rfl
  | crlf rest ih => simp [mirrorBareCr_crlf, splitLines, ih]
  | cr rest bare ih => simp [mirrorBareCr_bareCr rest bare, splitLines_bareCr rest bare, ih]
  | lf rest ih => simp [mirrorBareCr_other, splitLines, ih]
  | other c rest lf cr ih =>
      obtain ⟨line, lines, split, joined⟩ := splitLines_cons c rest lf cr
      rw [split] at ih
      simpa [mirrorBareCr_other c rest cr, joined, lf] using ih

/-- A line of the mirror starts after the characters of the source lines before it. -/
theorem lineToChar_mirror (text : Text) (line : Nat)
    : Rope.lineToChar (mirrorBareCr text false) line
      = (((splitLines text).map (fun line => line.text.length)).take line).sum := by
  induction text using splitLines_induction generalizing line with
  | nil => cases line <;> simp [mirrorBareCr, Rope.lineToChar, splitLines, SourceLine.text]
  | crlf rest ih =>
      cases line with
      | zero => simp [Rope.lineToChar]
      | succ line =>
          simp [mirrorBareCr_crlf, splitLines, Rope.lineToChar, ih, SourceLine.text]
          omega
  | cr rest bare ih =>
      cases line with
      | zero => simp [Rope.lineToChar]
      | succ line =>
          simp [mirrorBareCr_bareCr rest bare, splitLines_bareCr rest bare, Rope.lineToChar,
            ih, SourceLine.text]
          omega
  | lf rest ih =>
      cases line with
      | zero => simp [Rope.lineToChar]
      | succ line =>
          simp [mirrorBareCr_other, splitLines, Rope.lineToChar, ih, SourceLine.text]
          omega
  | other c rest lf cr ih =>
      obtain ⟨first, lines, split, joined⟩ := splitLines_cons c rest lf cr
      cases line with
      | zero => simp [Rope.lineToChar]
      | succ line =>
          have later := ih (line + 1)
          simp only [split, List.map_cons, List.take_succ_cons, List.sum_cons] at later
          simp only [mirrorBareCr_other c rest cr, Rope.lineToChar, lf, if_false, later, joined,
            List.map_cons, SourceLine.text_push, List.length_cons, List.take_succ_cons,
            List.sum_cons]
          omega

namespace Rope

theorem lineToChar_le (rope : Rope) (line : Nat) : lineToChar rope line ≤ rope.length := by
  induction rope generalizing line with
  | nil => cases line <;> simp [lineToChar]
  | cons c rest ih =>
      cases line with
      | zero => simp [lineToChar]
      | succ line =>
          simp only [lineToChar, List.length_cons]
          split
          · have bound := ih line
            omega
          · have bound := ih (line + 1)
            omega

theorem lineToChar_lenLines (rope : Rope) : lineToChar rope (lenLines rope) = rope.length := by
  unfold lenLines
  induction rope with
  | nil => rfl
  | cons c rest ih =>
      by_cases lf : c = '\n'
      · simp [lineToChar, lf, ih]
      · simp [lineToChar, lf, ih]

theorem charToLine_lt (rope : Rope) (char : Nat) : charToLine rope char < lenLines rope := by
  have fewer := (List.take_sublist char rope).count_le '\n'
  unfold charToLine lenLines
  omega

/-- A character lies at or after the start of its line. -/
theorem lineToChar_charToLine_le (rope : Rope) {char : Nat} (bound : char ≤ rope.length)
    : lineToChar rope (charToLine rope char) ≤ char := by
  unfold charToLine
  induction rope generalizing char with
  | nil => simp [lineToChar]
  | cons c rest ih =>
      cases char with
      | zero => simp [lineToChar]
      | succ char =>
          have inner := @ih char (by simpa using bound)
          by_cases lf : c = '\n'
          · simpa [lf, lineToChar] using inner
          · simp only [List.take_succ_cons, List.count_cons, beq_iff_eq, lf, if_false,
              Nat.add_zero]
            cases count : (rest.take char).count '\n' with
            | zero => simp [lineToChar]
            | succ line =>
                rw [count] at inner
                simpa [lineToChar, lf] using inner

/-- A character lies before the start of the next line. -/
theorem lt_lineToChar_succ (rope : Rope) {char : Nat} (bound : char < rope.length)
    : char < lineToChar rope (charToLine rope char + 1) := by
  unfold charToLine
  induction rope generalizing char with
  | nil => simp at bound
  | cons c rest ih =>
      cases char with
      | zero =>
          simp only [List.take_zero, List.count_nil, lineToChar]
          split <;> omega
      | succ char =>
          have inner := @ih char (by simpa using bound)
          by_cases lf : c = '\n'
          · simpa [lf, lineToChar] using inner
          · simpa [lf, lineToChar] using inner

theorem charToLine_length (rope : Rope) : charToLine rope rope.length + 1 = lenLines rope := by
  simp [charToLine, lenLines]

end Rope

-- The buffer's line queries

/-- The byte at which a source line starts. -/
def lineStart (text : Text) (line : Nat) : Nat :=
  utf8Len (((splitLines text).take line).map SourceLine.text).flatten

theorem take_lineToChar (text : Text) (line : Nat)
    : text.take (Rope.lineToChar (mirrorBareCr text false) line)
      = (((splitLines text).take line).map SourceLine.text).flatten := by
  have cut := List.take_sum_flatten ((splitLines text).map SourceLine.text) line
  rw [splitLines_flatten] at cut
  rw [lineToChar_mirror, List.map_take, ← cut]
  simp [Function.comp_def]

theorem charToByte_lineToChar (text : Text) (line : Nat)
    : Rope.charToByte text (Rope.lineToChar (mirrorBareCr text false) line)
      = lineStart text line := by
  rw [Rope.charToByte, take_lineToChar, lineStart]

theorem lineStart_succ {text : Text} {index : Nat} {line : SourceLine}
    (found : (splitLines text)[index]? = some line)
    : lineStart text (index + 1) = lineStart text index + utf8Len line.text := by
  simp [lineStart, List.take_add_one, found]

theorem exists_line_split {text : Text} {index : Nat} {line : SourceLine}
    (found : (splitLines text)[index]? = some line)
    : ∃ before after,
        text = before ++ (line.content ++ (line.ending ++ after))
        ∧ utf8Len before = lineStart text index := by
  refine ⟨(((splitLines text).take index).map SourceLine.text).flatten,
    (((splitLines text).drop (index + 1)).map SourceLine.text).flatten, ?_, rfl⟩
  obtain ⟨bound, here⟩ := List.getElem?_eq_some_iff.mp found
  have cut : (splitLines text).take index ++ line :: (splitLines text).drop (index + 1)
      = splitLines text := by
    rw [← here, List.getElem_cons_drop, List.take_append_drop]
  conv_lhs => rw [← splitLines_flatten text, ← cut]
  simp [SourceLine.text]

namespace RopeBuffer

theorem Mirrored.lineCount {buffer : RopeBuffer} (mirrored : buffer.Mirrored)
    : buffer.lineCount = (splitLines buffer.rope).length := by
  rw [RopeBuffer.lineCount, mirrored, lenLines_mirror]

theorem Mirrored.lineRange {buffer : RopeBuffer} (mirrored : buffer.Mirrored) (index : Nat)
    : buffer.lineRange index
      = match (splitLines buffer.rope)[index]? with
        | some line =>
            .ok ⟨lineStart buffer.rope index, lineStart buffer.rope index + utf8Len line.text⟩
        | none => .error (.invalidLineColumn index 0) := by
  have count := mirrored.lineCount
  rw [RopeBuffer.lineCount] at count
  cases found : (splitLines buffer.rope)[index]? with
  | none =>
      have past := List.getElem?_eq_none_iff.mp found
      rw [RopeBuffer.lineRange, if_pos (by omega)]
  | some line =>
      obtain ⟨inside, _⟩ := List.getElem?_eq_some_iff.mp found
      have stop
          : (if index + 1 < buffer.lineMirror.lenLines then
                buffer.lineMirror.lineToChar (index + 1)
              else
                buffer.lineMirror.lenChars)
            = buffer.lineMirror.lineToChar (index + 1) := by
        split
        · rfl
        · have last : index + 1 = buffer.lineMirror.lenLines := by omega
          rw [last, Rope.lineToChar_lenLines]
          rfl
      rw [RopeBuffer.lineRange, if_neg (by omega)]
      simp only [stop]
      rw [mirrored, charToByte_lineToChar, charToByte_lineToChar, lineStart_succ found]

theorem contentChars_line (before : Text) (line : SourceLine) (after : Text)
    (wellFormed : line.WellFormed)
    : contentChars (before ++ (line.content ++ (line.ending ++ after))) before.length
        line.text.length
      = line.content.length := by
  obtain ⟨content, ending⟩ := line
  obtain ⟨clean, closed⟩ := wellFormed
  simp only [SourceLine.text] at *
  rcases List.eq_nil_or_concat' content with rfl | ⟨front, c, rfl⟩
  · rcases closed with rfl | rfl | rfl | rfl <;> simp [contentChars]
  · have plain := clean c (by simp)
    rcases closed with rfl | rfl | rfl | rfl
      <;> simp [contentChars, plain, Nat.add_assoc]

theorem Mirrored.lineContentRange {buffer : RopeBuffer} (mirrored : buffer.Mirrored)
    (index : Nat)
    : buffer.lineContentRange index
      = match (splitLines buffer.rope)[index]? with
        | some line =>
            .ok
              ⟨lineStart buffer.rope index,
                lineStart buffer.rope index + utf8Len line.content⟩
        | none => .error (.invalidLineColumn index 0) := by
  rw [RopeBuffer.lineContentRange, mirrored.lineRange]
  cases found : (splitLines buffer.rope)[index]? with
  | none => rfl
  | some line =>
      obtain ⟨before, after, text, start⟩ := exists_line_split found
      have wellFormed :=
        splitLines_wellFormed buffer.rope line (List.mem_of_getElem? found)
      have stopChar := Rope.byteToChar_append_append before line.text after
      have content := contentChars_line before line after wellFormed
      have contentStop := Rope.charToByte_append (before ++ line.content) (line.ending ++ after)
      simp only [SourceLine.text, List.append_assoc] at stopChar
      simp only [List.append_assoc, List.length_append, utf8Len_append] at contentStop
      rw [text] at start ⊢
      simp only [← start, SourceLine.text, bind, Except.bind, Rope.byteToChar_append, stopChar,
        Nat.add_sub_cancel_left, pure, Except.pure]
      simp only [SourceLine.text] at content
      rw [content, contentStop]

/-- A valid offset is reported on the line whose range contains it; the end of the text is
on the last line.
-/
theorem Mirrored.lineForOffset {buffer : RopeBuffer} (mirrored : buffer.Mirrored)
    {offset : Nat} (boundary : Boundary buffer.rope offset)
    : ∃ line range,
        buffer.lineForOffset offset = .ok line
        ∧ buffer.lineRange line = .ok range
        ∧ range.start ≤ offset
        ∧ (offset < range.stop ∨ line + 1 = buffer.lineCount ∧ offset = range.stop) := by
  obtain ⟨before, after, text, rfl⟩ := boundary
  have charBound : before.length ≤ buffer.lineMirror.length := by
    rw [mirrored, mirrorBareCr_length, text]
    simp
  let line := buffer.lineMirror.charToLine before.length
  have lineBound : line < (splitLines buffer.rope).length := by
    have bound := Rope.charToLine_lt buffer.lineMirror before.length
    rwa [mirrored, lenLines_mirror, ← mirrored] at bound
  have found := List.getElem?_eq_getElem lineBound
  have range := mirrored.lineRange line
  rw [found] at range
  refine ⟨line, _, ?_, range, ?_, ?_⟩
  · have valid := (validateOffset_ok_iff buffer (utf8Len before)).mpr ⟨before, after, text, rfl⟩
    rw [RopeBuffer.lineForOffset, RopeBuffer.byteToChar, valid]
    simp only [bind, Except.bind, pure, Except.pure, line]
    rw [text, Rope.byteToChar_append]
  · have lower := Rope.lineToChar_charToLine_le buffer.lineMirror charBound
    have bytes := weight_take_mono Char.utf8Size buffer.rope lower
    have front : buffer.rope.take before.length = before := by simp [text]
    rw [front] at bytes
    have start := charToByte_lineToChar buffer.rope line
    rw [← mirrored] at start
    exact Nat.le_trans (Nat.le_of_eq start.symm) bytes
  · have front : buffer.rope.take before.length = before := by simp [text]
    have length : buffer.lineMirror.length = buffer.rope.length := by
      rw [mirrored, mirrorBareCr_length]
    have stop := charToByte_lineToChar buffer.rope (line + 1)
    rw [← mirrored, lineStart_succ found] at stop
    rcases Nat.lt_or_ge before.length buffer.rope.length with inside | atEnd
    · left
      have upper := Rope.lt_lineToChar_succ buffer.lineMirror (length.symm ▸ inside)
      have bytes := weight_take_strictMono Char.utf8Size Char.utf8Size_pos buffer.rope upper
        (length ▸ Rope.lineToChar_le buffer.lineMirror (line + 1))
      rw [front] at bytes
      exact Nat.lt_of_lt_of_eq bytes stop
    · right
      have whole : before.length = buffer.lineMirror.length := by omega
      have last : line + 1 = buffer.lineMirror.lenLines := by
        simp only [line, whole, Rope.charToLine_length]
      refine ⟨last, ?_⟩
      rw [last, Rope.lineToChar_lenLines, ← whole, Rope.charToByte, front] at stop
      exact stop

/-- What the line queries of a buffer promise: they read the reference splitter's lines. -/
structure LinesAgree (buffer : RopeBuffer) : Prop where
  mirrorLength : buffer.lineMirror.length = buffer.rope.length
  mirror
    : ∀ index : Nat,
        buffer.lineMirror[index]?
        = if buffer.rope[index]? = some '\r' ∧ buffer.rope[index + 1]? ≠ some '\n' then
            some '\n'
          else
            buffer.rope[index]?
  lineCount : buffer.lineCount = (splitLines buffer.rope).length
  lineRange
    : ∀ index,
        buffer.lineRange index
        = match (splitLines buffer.rope)[index]? with
          | some line =>
              .ok
                ⟨lineStart buffer.rope index,
                  lineStart buffer.rope index + utf8Len line.text⟩
          | none => .error (.invalidLineColumn index 0)
  lineContentRange
    : ∀ index,
        buffer.lineContentRange index
        = match (splitLines buffer.rope)[index]? with
          | some line =>
              .ok
                ⟨lineStart buffer.rope index,
                  lineStart buffer.rope index + utf8Len line.content⟩
          | none => .error (.invalidLineColumn index 0)
  tiles
    : ∀ index range,
        buffer.lineRange index = .ok range
        → (index = 0 → range.start = 0)
          ∧ (∀ next, buffer.lineRange (index + 1) = .ok next → next.start = range.stop)
          ∧ (index + 1 = buffer.lineCount → range.stop = buffer.lenBytes)
  lineForOffset
    : ∀ offset,
        Boundary buffer.rope offset
        → ∃ line range,
            buffer.lineForOffset offset = .ok line
            ∧ buffer.lineRange line = .ok range
            ∧ range.start ≤ offset
            ∧ (offset < range.stop ∨ line + 1 = buffer.lineCount ∧ offset = range.stop)

theorem lineStart_lineCount (text : Text)
    : lineStart text (splitLines text).length = utf8Len text := by
  rw [lineStart, List.take_length, splitLines_flatten]

/-- Consecutive line ranges meet, the first starts the text and the last ends it. -/
theorem Mirrored.lineRange_tiles {buffer : RopeBuffer} (mirrored : buffer.Mirrored)
    {index : Nat} {range : SourceRange} (found : buffer.lineRange index = .ok range)
    : (index = 0 → range.start = 0)
      ∧ (∀ next, buffer.lineRange (index + 1) = .ok next → next.start = range.stop)
      ∧ (index + 1 = buffer.lineCount → range.stop = buffer.lenBytes) := by
  rw [mirrored.lineRange] at found
  cases here : (splitLines buffer.rope)[index]? with
  | none => simp [here] at found
  | some line =>
      rw [here] at found
      obtain rfl := Except.ok.inj found
      have meets := lineStart_succ here
      refine ⟨?_, ?_, ?_⟩
      · rintro rfl
        rfl
      · intro next following
        rw [mirrored.lineRange] at following
        cases after : (splitLines buffer.rope)[index + 1]? with
        | none => simp [after] at following
        | some nextLine =>
            rw [after] at following
            obtain rfl := Except.ok.inj following
            exact meets
      · intro last
        rw [mirrored.lineCount] at last
        rw [← meets, last, lineStart_lineCount]
        rfl

theorem Mirrored.linesAgree {buffer : RopeBuffer} (mirrored : buffer.Mirrored)
    : buffer.LinesAgree where
  mirrorLength := by rw [mirrored, mirrorBareCr_length]
  mirror := fun index => by rw [mirrored, mirrorBareCr_getElem?]
  lineCount := mirrored.lineCount
  lineRange := mirrored.lineRange
  lineContentRange := mirrored.lineContentRange
  tiles := fun _ _ found => mirrored.lineRange_tiles found
  lineForOffset := fun _ boundary => mirrored.lineForOffset boundary

/-- Whatever chunks a buffer is built from and whatever edits succeed on it, its line
queries agree with the reference splitter. Witness: the mirror is exact at the start and
every edit keeps it exact.
-/
theorem linesAgree_of_edits {chunks : List Text} {buffer : RopeBuffer}
    (edits : Edits (fromRope chunks) buffer)
    : buffer.LinesAgree :=
  ((Mirrored.fromRope chunks).edits edits).linesAgree

/-- Inserting a line feed after a bare CR pairs the two. -/
theorem linesAgree_of_edits_paired
    : ∃ buffer,
        Edits (fromRope [['a', '\r'], ['b']]) buffer
        ∧ buffer.lineMirror = ['a', '\r', '\n', 'b']
        ∧ buffer.LinesAgree := by
  have step : Edited (fromRope [['a', '\r'], ['b']])
      { fromRope [['a', '\r'], ['b']] with
        rope := ['a', '\r', '\n', 'b']
        lineMirror := ['a', '\r', '\n', 'b']
        revision := 1
        deltas := [editDelta 0 ⟨2, 2⟩ ['\n']] } :=
    ⟨⟨2, 2⟩, ['\n'], editSummary 0 ⟨2, 2⟩ ['\n'] [], by decide⟩
  exact ⟨_, .single step, rfl, linesAgree_of_edits (.single step)⟩

end RopeBuffer

end Hane.Document
