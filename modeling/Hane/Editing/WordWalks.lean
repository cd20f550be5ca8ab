import Hane.Editing.Composing
import Hane.Editing.Dispatch
import Hane.Editing.Targets

/-! Word walks read the document line by line and end where a walk over the segments of the whole
text does.
-/

namespace Hane.Document

open Hane.Foundations

theorem splitLines_ended (text : Text)
    : ∀ line ∈ (splitLines text).dropLast, line.ending ≠ [] := by
  induction text using splitLines_induction with
  | nil => simp [splitLines]
  | crlf rest ih =>
      rw [splitLines, List.dropLast_cons_of_ne_nil (splitLines_ne_nil rest)]
      exact List.forall_mem_cons.mpr ⟨by simp, ih⟩
  | cr rest bare ih =>
      rw [splitLines_bareCr rest bare, List.dropLast_cons_of_ne_nil (splitLines_ne_nil rest)]
      exact List.forall_mem_cons.mpr ⟨by simp, ih⟩
  | lf rest ih =>
      rw [splitLines, List.dropLast_cons_of_ne_nil (splitLines_ne_nil rest)]
      exact List.forall_mem_cons.mpr ⟨by simp, ih⟩
  | other c rest lf cr ih =>
      obtain ⟨first, lines, split, joined⟩ := splitLines_cons c rest lf cr
      rw [split] at ih
      rw [joined]
      cases lines with
      | nil => simp
      | cons second lines =>
          rw [List.dropLast_cons_cons] at ih ⊢
          obtain ⟨ended, later⟩ := List.forall_mem_cons.mp ih
          exact List.forall_mem_cons.mpr ⟨ended, later⟩

theorem RopeBuffer.Mirrored.line_around {buffer : RopeBuffer} (mirrored : buffer.Mirrored)
    {index : Nat} {range : SourceRange} (found : buffer.lineRange index = .ok range)
    : ∃ front line back,
        splitLines buffer.rope = front ++ line :: back
        ∧ front.length = index
        ∧ range.start = utf8Len (front.map SourceLine.text).flatten
        ∧ range.stop = range.start + utf8Len line.text := by
  rw [mirrored.lineRange] at found
  cases here : (splitLines buffer.rope)[index]? with
  | none => simp [here] at found
  | some line =>
      rw [here] at found
      obtain rfl := Except.ok.inj found
      obtain ⟨bound, same⟩ := List.getElem?_eq_some_iff.mp here
      refine ⟨(splitLines buffer.rope).take index, line,
        (splitLines buffer.rope).drop (index + 1), ?_, ?_, rfl, rfl⟩
      · rw [← same, List.getElem_cons_drop, List.take_append_drop]
      · exact List.length_take_of_le (Nat.le_of_lt bound)

end Hane.Document

namespace Hane.Editing

open Hane.Foundations Hane.Document

/-- Words do not reach across line breaks: the segments of a text are those of its lines. -/
def Unicode.SegmentsByLine (unicode : Unicode) : Prop :=
  ∀ text,
    unicode.wordBounds text = (splitLines text).flatMap fun line => unicode.wordBounds line.text

namespace Editor

-- The parts of segments on one side of a position

/-- The segments that end after `relative`, in walking order. -/
def partsAfter (segments : List Text) (relative : Nat) : List (Text × Nat) :=
  (segmentIndices 0 segments).filterMap (forwardPart relative)

/-- The segments that start before `relative`, in walking order. -/
def partsBefore (segments : List Text) (relative : Nat) : List (Text × Nat) :=
  ((segmentIndices 0 segments).filterMap (backwardPart relative)).reverse

theorem forwardPart_shift (distance relative index : Nat) (segments : List Text)
    : (segmentIndices (distance + index) segments).filterMap (forwardPart (distance + relative))
      = (segmentIndices index segments).filterMap (forwardPart relative) := by
  induction segments generalizing index with
  | nil => rfl
  | cons segment rest ih =>
      have same : forwardPart (distance + relative) (distance + index, segment)
          = forwardPart relative (index, segment) := by
        simp only [forwardPart]
        split <;> split
        · congr 2
          omega
        · omega
        · omega
        · rfl
      rw [segmentIndices, segmentIndices, List.filterMap_cons, List.filterMap_cons, same,
        Nat.add_assoc, ih]

theorem backwardPart_shift (distance relative index : Nat) (segments : List Text)
    : (segmentIndices (distance + index) segments).filterMap (backwardPart (distance + relative))
      = (segmentIndices index segments).filterMap (backwardPart relative) := by
  induction segments generalizing index with
  | nil => rfl
  | cons segment rest ih =>
      have same : backwardPart (distance + relative) (distance + index, segment)
          = backwardPart relative (index, segment) := by
        simp only [backwardPart]
        split <;> split
        · congr 2
          omega
        · omega
        · omega
        · rfl
      rw [segmentIndices, segmentIndices, List.filterMap_cons, List.filterMap_cons, same,
        Nat.add_assoc, ih]

theorem forwardPart_past {index relative : Nat} {segments : List Text}
    (past : index + utf8Len segments.flatten ≤ relative)
    : (segmentIndices index segments).filterMap (forwardPart relative) = [] := by
  induction segments generalizing index with
  | nil => rfl
  | cons segment rest ih =>
      rw [List.flatten_cons, utf8Len_append] at past
      have none : forwardPart relative (index, segment) = none := if_neg (by omega)
      rw [segmentIndices, List.filterMap_cons_none none, ih (by omega)]

theorem backwardPart_before {index relative : Nat} {segments : List Text}
    (before : relative ≤ index)
    : (segmentIndices index segments).filterMap (backwardPart relative) = [] := by
  induction segments generalizing index with
  | nil => rfl
  | cons segment rest ih =>
      have none : backwardPart relative (index, segment) = none := if_neg (by omega)
      rw [segmentIndices, List.filterMap_cons_none none, ih (by omega)]

/-- Segments that a forward walk reaches from in front are walked as a whole. -/
theorem forwardPart_whole {index relative other : Nat} {segments : List Text}
    (before : relative ≤ index) (before' : other ≤ index)
    (filled : ∀ segment ∈ segments, segment ≠ [])
    : (segmentIndices index segments).filterMap (forwardPart relative)
      = (segmentIndices index segments).filterMap (forwardPart other) := by
  induction segments generalizing index with
  | nil => rfl
  | cons segment rest ih =>
      have size := Nat.pos_of_ne_zero
        (mt (utf8Len_eq_zero_iff segment).mp (filled segment List.mem_cons_self))
      have whole : ∀ {relative : Nat}, relative ≤ index
          → forwardPart relative (index, segment) = some (segment, utf8Len segment) := by
        intro relative before
        rw [forwardPart]
        rw [if_pos (by omega), Nat.max_eq_left before, Nat.add_sub_cancel_left]
      rw [segmentIndices, List.filterMap_cons_some (whole before),
        List.filterMap_cons_some (whole before'), ih (by omega) (by omega)
          fun other member => filled other (List.mem_cons_of_mem _ member)]

/-- Segments that a backward walk reaches from behind are walked as a whole. -/
theorem backwardPart_whole {index relative other : Nat} {segments : List Text}
    (past : index + utf8Len segments.flatten ≤ relative)
    (past' : index + utf8Len segments.flatten ≤ other)
    (filled : ∀ segment ∈ segments, segment ≠ [])
    : (segmentIndices index segments).filterMap (backwardPart relative)
      = (segmentIndices index segments).filterMap (backwardPart other) := by
  induction segments generalizing index with
  | nil => rfl
  | cons segment rest ih =>
      rw [List.flatten_cons, utf8Len_append] at past past'
      have size := Nat.pos_of_ne_zero
        (mt (utf8Len_eq_zero_iff segment).mp (filled segment List.mem_cons_self))
      have whole : ∀ {relative : Nat}, index + utf8Len segment ≤ relative
          → backwardPart relative (index, segment) = some (segment, utf8Len segment) := by
        intro relative past
        rw [backwardPart]
        rw [if_pos (by omega), Nat.min_eq_left past, Nat.add_sub_cancel_left]
      rw [segmentIndices, List.filterMap_cons_some (whole (by omega)),
        List.filterMap_cons_some (whole (by omega)), ih (by omega) (by omega)
          fun other member => filled other (List.mem_cons_of_mem _ member)]

section Appended

variable {front back : List Text} {relative : Nat}

theorem partsAfter_append (inside : relative ≤ utf8Len front.flatten)
    (filled : ∀ segment ∈ back, segment ≠ [])
    : partsAfter (front ++ back) relative = partsAfter front relative ++ partsAfter back 0 := by
  have shifted := forwardPart_shift (utf8Len front.flatten) 0 0 back
  rw [Nat.add_zero] at shifted
  rw [partsAfter, segmentIndices_append, List.filterMap_append, Nat.zero_add,
    forwardPart_whole inside (Nat.le_refl _) filled, shifted]
  rfl

theorem partsAfter_append_past (past : utf8Len front.flatten ≤ relative)
    : partsAfter (front ++ back) relative
      = partsAfter back (relative - utf8Len front.flatten) := by
  obtain ⟨rest, rfl⟩ := Nat.exists_eq_add_of_le past
  have shifted := forwardPart_shift (utf8Len front.flatten) rest 0 back
  rw [Nat.add_zero] at shifted
  rw [partsAfter, segmentIndices_append, List.filterMap_append, Nat.zero_add,
    forwardPart_past (by omega), shifted, Nat.add_sub_cancel_left]
  rfl

theorem partsBefore_append (inside : relative ≤ utf8Len front.flatten)
    : partsBefore (front ++ back) relative = partsBefore front relative := by
  rw [partsBefore, segmentIndices_append, List.filterMap_append, Nat.zero_add,
    backwardPart_before inside, List.append_nil, partsBefore]

theorem partsBefore_append_past (past : utf8Len front.flatten ≤ relative)
    (filled : ∀ segment ∈ front, segment ≠ [])
    : partsBefore (front ++ back) relative
      = partsBefore back (relative - utf8Len front.flatten)
        ++ partsBefore front (utf8Len front.flatten) := by
  obtain ⟨rest, rfl⟩ := Nat.exists_eq_add_of_le past
  have shifted := backwardPart_shift (utf8Len front.flatten) rest 0 back
  rw [Nat.add_zero] at shifted
  rw [partsBefore, segmentIndices_append, List.filterMap_append, List.reverse_append,
    Nat.zero_add, shifted,
    backwardPart_whole (by omega) (show 0 + utf8Len front.flatten ≤ utf8Len front.flatten by omega)
      filled, Nat.add_sub_cancel_left]
  rfl

end Appended

theorem partsAfter_singleton (segment : Text) (relative : Nat)
    : ((partsAfter [segment] relative).map Prod.snd).sum = utf8Len segment - relative := by
  by_cases inside : relative < utf8Len segment
  · simp [partsAfter, segmentIndices, forwardPart, inside]
  · simp only [partsAfter, segmentIndices, List.filterMap_cons, forwardPart, Nat.zero_add,
      gt_iff_lt, inside, if_false, List.filterMap_nil, List.map_nil, List.sum_nil]
    omega

theorem partsBefore_singleton (segment : Text) (relative : Nat)
    : ((partsBefore [segment] relative).map Prod.snd).sum = min (utf8Len segment) relative := by
  cases relative with
  | zero => simp [partsBefore, segmentIndices, backwardPart]
  | succ relative => simp [partsBefore, segmentIndices, backwardPart]

/-- The bytes a forward walk finds are those after its position. -/
theorem partsAfter_sum {segments : List Text} (filled : ∀ segment ∈ segments, segment ≠ [])
    (relative : Nat)
    : ((partsAfter segments relative).map Prod.snd).sum
      = utf8Len segments.flatten - relative := by
  induction segments generalizing relative with
  | nil => exact (Nat.zero_sub relative).symm
  | cons segment rest ih =>
      have filled' : ∀ other ∈ rest, other ≠ [] := fun other member =>
        filled other (List.mem_cons_of_mem _ member)
      have first := partsAfter_singleton segment relative
      have later := ih filled'
      have size : utf8Len [segment].flatten = utf8Len segment := by simp
      rw [List.flatten_cons, utf8Len_append, ← List.singleton_append]
      rcases Nat.le_total relative (utf8Len segment) with inside | past
      · rw [partsAfter_append (size.symm ▸ inside) filled', List.map_append, List.sum_append,
          first, later]
        omega
      · rw [partsAfter_append_past (size.symm ▸ past), later, size]
        omega

/-- The bytes a backward walk finds are those before its position. -/
theorem partsBefore_sum {segments : List Text} (filled : ∀ segment ∈ segments, segment ≠ [])
    (relative : Nat)
    : ((partsBefore segments relative).map Prod.snd).sum
      = min (utf8Len segments.flatten) relative := by
  induction segments generalizing relative with
  | nil => exact (Nat.zero_min relative).symm
  | cons segment rest ih =>
      have first := partsBefore_singleton segment
      have later := ih fun other member => filled other (List.mem_cons_of_mem _ member)
      have size : utf8Len [segment].flatten = utf8Len segment := by simp
      rw [List.flatten_cons, utf8Len_append, ← List.singleton_append]
      rcases Nat.le_total relative (utf8Len segment) with inside | past
      · rw [partsBefore_append (size.symm ▸ inside), first]
        omega
      · rw [partsBefore_append_past (size.symm ▸ past)
          (List.forall_mem_singleton.mpr (filled segment List.mem_cons_self)), List.map_append,
          List.sum_append, first, later, size]
        omega

-- Walks over segments

/-- Where a walk stands some bytes further on. -/
def advance (forward : Bool) (position walked : Nat) : Nat :=
  if forward then position + walked else position - walked

theorem advance_advance (forward : Bool) (position first second : Nat)
    : advance forward (advance forward position first) second
      = advance forward position (first + second) := by
  cases forward
  · exact Nat.sub_sub position first second
  · exact Nat.add_assoc position first second

def Walk.andThen : Walk → (Nat → Bool → Walk) → Walk
  | .done position, _ => .done position
  | .running position second, next => next position second

section Walks

variable {unicode : Unicode} {forward : Bool} {phases : WordClass × WordClass}
  {position : Nat} {second : Bool}

theorem walkSegments_next (unicode : Unicode) (forward : Bool) (phases : WordClass × WordClass)
    (part : Text × Nat) (second : Bool)
    : (second = false ∧ classOf unicode part.1 = phases.1
        ∧ ∀ rest position,
          walkSegments unicode forward phases (part :: rest) position second
          = walkSegments unicode forward phases rest (advance forward position part.2) false)
      ∨ ((second = true ∨ classOf unicode part.1 ≠ phases.1) ∧ classOf unicode part.1 = phases.2
        ∧ ∀ rest position,
          walkSegments unicode forward phases (part :: rest) position second
          = walkSegments unicode forward phases rest (advance forward position part.2) true)
      ∨ ((second = true ∨ classOf unicode part.1 ≠ phases.1) ∧ classOf unicode part.1 ≠ phases.2
        ∧ ∀ rest position,
          walkSegments unicode forward phases (part :: rest) position second = .done position) := by
  by_cases first : classOf unicode part.1 = phases.1
  · cases second with
    | false =>
        refine .inl ⟨rfl, first, fun rest position => ?_⟩
        simp [walkSegments, first, advance]
    | true =>
        by_cases same : classOf unicode part.1 = phases.2
        · refine .inr (.inl ⟨.inl rfl, same, fun rest position => ?_⟩)
          simp [walkSegments, same, advance]
        · refine .inr (.inr ⟨.inl rfl, same, fun rest position => ?_⟩)
          simp [walkSegments, same]
  · by_cases same : classOf unicode part.1 = phases.2
    · refine .inr (.inl ⟨.inr first, same, fun rest position => ?_⟩)
      have differ : (phases.2 != phases.1) = true := bne_iff_ne.mpr (same ▸ first)
      cases second <;> simp [walkSegments, same, differ, advance]
    · refine .inr (.inr ⟨.inr first, same, fun rest position => ?_⟩)
      cases second <;> simp [walkSegments, same, first]

theorem walkSegments_append (front back : List (Text × Nat))
    : walkSegments unicode forward phases (front ++ back) position second
      = (walkSegments unicode forward phases front position second).andThen
        (walkSegments unicode forward phases back) := by
  induction front generalizing position second with
  | nil => rfl
  | cons part rest ih =>
      rw [List.cons_append]
      rcases walkSegments_next unicode forward phases part second with
        ⟨-, -, next⟩ | ⟨-, -, next⟩ | ⟨-, -, next⟩
      · rw [next, next, ih]
      · rw [next, next, ih]
      · rw [next, next]
        rfl

theorem walkSegments_running {segments : List (Text × Nat)} {stand : Nat} {second' : Bool}
    (ran : walkSegments unicode forward phases segments position second = .running stand second')
    : stand = advance forward position (segments.map Prod.snd).sum := by
  induction segments generalizing position second with
  | nil =>
      obtain ⟨rfl, -⟩ := Walk.running.inj ran
      cases forward <;> rfl
  | cons part rest ih =>
      rw [List.map_cons, List.sum_cons, ← advance_advance]
      rcases walkSegments_next unicode forward phases part second with
        ⟨-, -, next⟩ | ⟨-, -, next⟩ | ⟨-, -, next⟩
      · exact ih (next rest position ▸ ran)
      · exact ih (next rest position ▸ ran)
      · rw [next] at ran
        cases ran

def passedSecond (unicode : Unicode) (phases : WordClass × WordClass)
    (segments : List (Text × Nat)) : List (Text × Nat) :=
  segments.takeWhile fun part => classOf unicode part.1 == phases.2

/-- The segments a walk passes: a run of the first class, then one of the second. -/
def passed (unicode : Unicode) (phases : WordClass × WordClass) (segments : List (Text × Nat))
    : List (Text × Nat) :=
  segments.takeWhile (fun part => classOf unicode part.1 == phases.1)
    ++ passedSecond unicode phases
      (segments.dropWhile fun part => classOf unicode part.1 == phases.1)

theorem walkSegments_second (segments : List (Text × Nat))
    : (walkSegments unicode forward phases segments position true).position
      = advance forward position
        ((passedSecond unicode phases segments).map Prod.snd).sum := by
  induction segments generalizing position with
  | nil => cases forward <;> rfl
  | cons part rest ih =>
      rcases walkSegments_next unicode forward phases part true with
        ⟨never, -, -⟩ | ⟨-, same, next⟩ | ⟨-, other, next⟩
      · cases never
      · rw [next, ih, advance_advance, passedSecond, passedSecond, List.takeWhile_cons_of_pos
          (by simpa using same), List.map_cons, List.sum_cons]
      · rw [next, passedSecond, List.takeWhile_cons_of_neg (by simpa using other)]
        cases forward <;> rfl

theorem walkSegments_passed (segments : List (Text × Nat))
    : (walkSegments unicode forward phases segments position false).position
      = advance forward position ((passed unicode phases segments).map Prod.snd).sum := by
  induction segments generalizing position with
  | nil => cases forward <;> rfl
  | cons part rest ih =>
      rcases walkSegments_next unicode forward phases part false with
        ⟨-, same, next⟩ | ⟨first, same, next⟩ | ⟨first, other, next⟩
      · rw [next, ih, advance_advance, passed, passed, List.takeWhile_cons_of_pos
          (by simpa using same), List.dropWhile_cons_of_pos (by simpa using same),
          List.cons_append, List.map_cons, List.sum_cons]
      · have first := first.resolve_left Bool.false_ne_true
        rw [next, walkSegments_second, advance_advance, passed, List.takeWhile_cons_of_neg
          (by simpa using first), List.dropWhile_cons_of_neg (by simpa using first), passedSecond,
          passedSecond, List.nil_append, List.takeWhile_cons_of_pos (by simpa using same),
          List.map_cons, List.sum_cons]
      · have first := first.resolve_left Bool.false_ne_true
        rw [next, passed, List.takeWhile_cons_of_neg (by simpa using first),
          List.dropWhile_cons_of_neg (by simpa using first), passedSecond,
          List.takeWhile_cons_of_neg (by simpa using other)]
        cases forward <;> rfl

end Walks

-- Walks over the whole text

/-- Where a walk over the segments of a whole text ends that starts at `start`: the segment that
holds it counts by its bytes on the side of the walk.
-/
def wordStop (unicode : Unicode) (text : Text) (forward : Bool) (phases : WordClass × WordClass)
    (start : Nat) : Nat :=
  advance forward start
    ((passed unicode phases (walkedSegments unicode text start forward)).map Prod.snd).sum

/-- A walk line by line that comes to an end: at the edge of the document, on a line, or after
lines that it crosses.
-/
inductive Scans (unicode : Unicode) (editor : Editor) (forward : Bool)
    (phases : WordClass × WordClass) : Nat → Bool → Nat → Prop where
  | edge {position : Nat} {second : Bool} (last : editor.walkLine position forward = .ok none)
    : Scans unicode editor forward phases position second position
  | stops {position final : Nat} {second : Bool} {range : SourceRange} {content : Text}
      (found : editor.walkLine position forward = .ok (some range))
      (read : editor.document.text range = .ok content)
      (stopped :
        walkSegments unicode forward phases
          (walkedSegments unicode content (position - range.start) forward) position second
        = .done final)
    : Scans unicode editor forward phases position second final
  | crosses {position next final : Nat} {second second' : Bool} {range : SourceRange}
      {content : Text} (found : editor.walkLine position forward = .ok (some range))
      (read : editor.document.text range = .ok content)
      (running :
        walkSegments unicode forward phases
          (walkedSegments unicode content (position - range.start) forward) position second
        = .running next second')
      (later : Scans unicode editor forward phases next second' final)
    : Scans unicode editor forward phases position second final

section Lines

variable {unicode : Unicode} (byLine : unicode.SegmentsByLine)

include byLine

theorem wordBounds_around {text : Text} {front back : List SourceLine} {line : SourceLine}
    (split : splitLines text = front ++ line :: back)
    : ∃ before after,
        unicode.wordBounds text = before ++ (unicode.wordBounds line.text ++ after)
        ∧ before.flatten = (front.map SourceLine.text).flatten
        ∧ (∀ segment ∈ before, segment ≠ [])
        ∧ ∀ segment ∈ after, segment ≠ [] := by
  have joined : ∀ lines : List SourceLine,
      (lines.flatMap fun line => unicode.wordBounds line.text).flatten
      = (lines.map SourceLine.text).flatten := by
    intro lines
    induction lines with
    | nil => rfl
    | cons line lines ih =>
        rw [List.flatMap_cons, List.flatten_append, ih, unicode.wordBounds_flatten, List.map_cons,
          List.flatten_cons]
  have filled : ∀ lines : List SourceLine,
      ∀ segment ∈ lines.flatMap fun line => unicode.wordBounds line.text, segment ≠ [] := by
    intro lines segment member
    obtain ⟨line, -, here⟩ := List.mem_flatMap.mp member
    exact unicode.wordBounds_ne_nil line.text segment here
  refine ⟨_, _, ?_, joined front, filled front, filled back⟩
  rw [byLine text, split, List.flatMap_append, List.flatMap_cons]

/-- From a position on a line, a walk over the whole text first passes the rest of the line, and
then what it passes from the line's edge.
-/
theorem walkedSegments_line {text : Text} {front back : List SourceLine} {line : SourceLine}
    (split : splitLines text = front ++ line :: back) {start position : Nat} (forward : Bool)
    (starts : start = utf8Len (front.map SourceLine.text).flatten) (after : start ≤ position)
    (before : position ≤ start + utf8Len line.text)
    : walkedSegments unicode text position forward
      = walkedSegments unicode line.text (position - start) forward
        ++ walkedSegments unicode text (if forward then start + utf8Len line.text else start)
          forward := by
  obtain ⟨front, back, whole, joined, filled, filled'⟩ := wordBounds_around byLine split
  have size : utf8Len (unicode.wordBounds line.text).flatten = utf8Len line.text := by
    rw [unicode.wordBounds_flatten]
  rw [← joined] at starts
  cases forward with
  | true =>
      change partsAfter _ _ = partsAfter _ _ ++ partsAfter _ _
      rw [whole, if_pos rfl, partsAfter_append_past (starts ▸ after), ← starts,
        partsAfter_append (by omega) filled', partsAfter_append_past (by omega), ← starts,
        Nat.add_sub_cancel_left, partsAfter_append_past (Nat.le_of_eq size), size, Nat.sub_self]
  | false =>
      change partsBefore _ _ = partsBefore _ _ ++ partsBefore _ _
      rw [whole, if_neg Bool.false_ne_true, partsBefore_append_past (starts ▸ after) filled,
        ← starts, partsBefore_append (by omega), partsBefore_append (Nat.le_of_eq starts)]

omit byLine in
/-- Over the rest of a line, a walk gets to the line's edge. -/
theorem advance_line (unicode : Unicode) {content : Text} {start position : Nat} (forward : Bool)
    (after : start ≤ position) (before : position ≤ start + utf8Len content)
    : advance forward position
        ((walkedSegments unicode content (position - start) forward).map Prod.snd).sum
      = if forward then start + utf8Len content else start := by
  have filled := unicode.wordBounds_ne_nil content
  have size : utf8Len (unicode.wordBounds content).flatten = utf8Len content := by
    rw [unicode.wordBounds_flatten]
  cases forward with
  | true =>
      have walked := partsAfter_sum filled (position - start)
      change position + ((partsAfter _ _).map Prod.snd).sum = start + utf8Len content
      omega
  | false =>
      have walked := partsBefore_sum filled (position - start)
      change position - ((partsBefore _ _).map Prod.snd).sum = start
      omega

end Lines

section Scanning

variable {unicode : Unicode} {editor : Editor} (mirrored : editor.document.Mirrored)

/-- The bytes in front of a walk. -/
def remaining (editor : Editor) (forward : Bool) (position : Nat) : Nat :=
  if forward then editor.document.lenBytes - position else position

include mirrored

/-- Away from the edge of the document, a walk reads a line that it does not stand at the edge of.
-/
theorem walkLine_line (forward : Bool) {position : Nat}
    (boundary : Boundary editor.document.rope position)
    : (remaining editor forward position = 0 ∧ editor.walkLine position forward = .ok none)
      ∨ ∃ range front line back,
        editor.walkLine position forward = .ok (some range)
        ∧ splitLines editor.document.rope = front ++ line :: back
        ∧ range.start = utf8Len (front.map SourceLine.text).flatten
        ∧ range.stop = range.start + utf8Len line.text
        ∧ range.start ≤ position
        ∧ position ≤ range.stop
        ∧ position ≠ if forward then range.stop else range.start := by
  obtain ⟨index, range, asked, found, after, before⟩ := mirrored.lineForOffset boundary
  obtain ⟨front, line, back, split, length, start, stop⟩ := mirrored.line_around found
  cases forward with
  | true =>
      by_cases atEnd : position ≥ editor.document.lenBytes
      · refine .inl ⟨Nat.sub_eq_zero_of_le atEnd, ?_⟩
        rw [walkLine, if_pos rfl, if_pos atEnd]
        rfl
      · have inside : position < range.stop := by
          rcases before with inside | ⟨last, same⟩
          · exact inside
          · have ends := (mirrored.lineRange_tiles found).2.2 last
            omega
        refine .inr ⟨range, front, line, back, ?_, split, start, stop, after,
          Nat.le_of_lt inside, Nat.ne_of_lt inside⟩
        rw [walkLine, if_pos rfl, if_neg atEnd, asked]
        simp only [bind, Except.bind, found, pure, Except.pure]
  | false =>
      by_cases atStart : position = 0
      · refine .inl ⟨atStart, ?_⟩
        rw [walkLine, if_neg Bool.false_ne_true, if_pos atStart]
        rfl
      rcases Nat.lt_or_eq_of_le after with past | begins
      · refine .inr ⟨range, front, line, back, ?_, split, start, stop, after, ?_,
          Nat.ne_of_gt past⟩
        · rw [walkLine, if_neg Bool.false_ne_true, if_neg atStart, asked]
          simp only [bind, Except.bind, found, pure, Except.pure, Nat.ne_of_gt past, if_false]
        · rcases before with inside | ⟨-, same⟩
          · exact Nat.le_of_lt inside
          · exact Nat.le_of_eq same
      · -- The line before has an ending, as another one follows it.
        cases index with
        | zero =>
            have first := (mirrored.lineRange_tiles found).1 rfl
            omega
        | succ index =>
            obtain ⟨previous, found', -, meets⟩ := mirrored.previousLine found
            obtain ⟨front', line', back', split', length', start', stop'⟩ :=
              mirrored.line_around found'
            have follows : back' ≠ [] := by
              rintro rfl
              have lengths := congrArg List.length (split.symm.trans split')
              simp only [List.length_append, List.length_cons, List.length_nil] at lengths
              omega
            have ended : line'.ending ≠ [] := by
              apply splitLines_ended editor.document.rope
              rw [split', List.dropLast_append_of_ne_nil (List.cons_ne_nil _ _),
                List.dropLast_cons_of_ne_nil follows]
              exact List.mem_append_right _ List.mem_cons_self
            have size := Nat.pos_of_ne_zero (mt (utf8Len_eq_zero_iff line'.ending).mp ended)
            rw [SourceLine.text, utf8Len_append] at stop'
            refine .inr ⟨previous, front', line', back', ?_, split', start', ?_, ?_, ?_, ?_⟩
            · rw [walkLine, if_neg Bool.false_ne_true, if_neg atStart, asked]
              simp only [bind, Except.bind, found, pure, Except.pure, begins, if_true,
                Nat.add_sub_cancel, found']
            · rw [stop', SourceLine.text, utf8Len_append]
            · omega
            · omega
            · rw [if_neg Bool.false_ne_true]
              omega

omit mirrored in
theorem walkedSegments_edge {forward : Bool} {position : Nat}
    (edge : remaining editor forward position = 0)
    : walkedSegments unicode editor.document.rope position forward = [] := by
  cases forward with
  | true =>
      have past := Nat.le_of_sub_eq_zero edge
      refine forwardPart_past ?_
      rw [unicode.wordBounds_flatten, Nat.zero_add]
      exact past
  | false =>
      change partsBefore _ _ = []
      have before : position ≤ 0 := Nat.le_of_eq edge
      rw [partsBefore, backwardPart_before before]
      rfl

def wholeWalk (unicode : Unicode) (text : Text) (forward : Bool) (phases : WordClass × WordClass)
    (position : Nat) (second : Bool) : Walk :=
  walkSegments unicode forward phases (walkedSegments unicode text position forward) position second

/-- The walk line by line ends where the one over the whole document does, by induction on the
rounds: each line takes both of them to its edge.
-/
theorem scans_whole (byLine : unicode.SegmentsByLine) {forward : Bool}
    {phases : WordClass × WordClass} {rounds position : Nat} {second : Bool}
    (boundary : Boundary editor.document.rope position)
    (enough : remaining editor forward position < rounds)
    : editor.scanLines unicode forward phases rounds position second
        = .ok (wholeWalk unicode editor.document.rope forward phases position second).position
      ∧ Scans unicode editor forward phases position second
        (wholeWalk unicode editor.document.rope forward phases position second).position := by
  induction rounds generalizing position second with
  | zero => cases enough
  | succ rounds ih =>
      rw [scanLines]
      rcases walkLine_line mirrored forward boundary with
        ⟨edge, none⟩ | ⟨range, front, line, back, found, split, start, stop, after, before, inside⟩
      · rw [wholeWalk, walkedSegments_edge edge, none]
        exact ⟨rfl, .edge none⟩
      have text : editor.document.rope
          = (front.map SourceLine.text).flatten
            ++ (line.text ++ (back.map SourceLine.text).flatten) := by
        conv_lhs => rw [← splitLines_flatten editor.document.rope, split]
        simp
      have read : editor.document.text range = .ok line.text := by
        have content := RopeBuffer.text_append text
        rwa [← start, ← stop] at content
      have before' : position ≤ range.start + utf8Len line.text := stop ▸ before
      have parted := walkedSegments_line byLine split forward start after before'
      have reached := advance_line unicode forward after before'
      rw [← stop] at parted reached
      have walked : wholeWalk unicode editor.document.rope forward phases position second
          = (walkSegments unicode forward phases
              (walkedSegments unicode line.text (position - range.start) forward) position
              second).andThen
            (walkSegments unicode forward phases
              (walkedSegments unicode editor.document.rope
                (if forward then range.stop else range.start) forward)) := by
        rw [wholeWalk, parted, walkSegments_append]
      rw [walked, found]
      simp only [bind, Except.bind, read]
      cases ran : walkSegments unicode forward phases
          (walkedSegments unicode line.text (position - range.start) forward) position second with
      | done final => exact ⟨rfl, .stops found read ran⟩
      | running next second' =>
          have stands := walkSegments_running ran
          rw [reached] at stands
          have boundary' : Boundary editor.document.rope next := by
            rw [stands]
            split
            · rw [stop, start]
              exact Boundary.within text (Boundary.utf8Len _)
            · exact ⟨_, _, text, start.symm⟩
          have nearer : remaining editor forward next < rounds := by
            have within : next ≤ editor.document.lenBytes := boundary'.le
            cases forward with
            | true =>
                rw [if_pos rfl] at inside stands
                simp only [remaining, if_true] at enough ⊢
                omega
            | false =>
                rw [if_neg Bool.false_ne_true] at inside stands
                simp only [remaining, Bool.false_eq_true, if_false] at enough ⊢
                omega
          obtain ⟨scanned, scans⟩ := @ih next second' boundary' nearer
          rw [← stands]
          exact ⟨scanned, .crosses found read ran scans⟩

end Scanning

-- Progress

/-- What a walk finds of a segment is never empty. -/
theorem walkedSegments_positive {unicode : Unicode} {text : Text} {relative : Nat} {forward : Bool}
    : ∀ part ∈ walkedSegments unicode text relative forward, 0 < part.2 := by
  have filled : ∀ (segments : List Text) (index : Nat),
      (∀ segment ∈ segments, segment ≠ [])
      → ∀ entry ∈ segmentIndices index segments, 0 < utf8Len entry.2 := by
    intro segments
    induction segments with
    | nil =>
        intro _ _ entry member
        cases member
    | cons segment rest ih =>
        intro index filled entry member
        rcases List.mem_cons.mp member with rfl | later
        · exact Nat.pos_of_ne_zero
            (mt (utf8Len_eq_zero_iff segment).mp (filled segment List.mem_cons_self))
        · exact ih _ (fun other inside => filled other (List.mem_cons_of_mem _ inside)) entry
            later
  have sizes := filled _ 0 (unicode.wordBounds_ne_nil text)
  intro part member
  cases forward with
  | true =>
      obtain ⟨entry, inside, found⟩ := List.mem_filterMap.mp member
      have size := sizes entry inside
      dsimp only at found
      split at found
      · obtain rfl := Option.some.inj found
        dsimp only
        omega
      · cases found
  | false =>
      obtain ⟨entry, inside, found⟩ := List.mem_filterMap.mp (List.mem_reverse.mp member)
      have size := sizes entry inside
      dsimp only at found
      split at found
      · obtain rfl := Option.some.inj found
        dsimp only
        omega
      · cases found

/-- A walk whose phases take both classes passes the first segment there is. -/
theorem passed_positive (unicode : Unicode) {phases : WordClass × WordClass}
    (both : ∀ found : WordClass, found = phases.1 ∨ found = phases.2)
    {segments : List (Text × Nat)} (some : segments ≠ [])
    (positive : ∀ part ∈ segments, 0 < part.2)
    : 0 < ((passed unicode phases segments).map Prod.snd).sum := by
  cases segments with
  | nil => exact absurd rfl some
  | cons part rest =>
      have first : part ∈ passed unicode phases (part :: rest) := by
        by_cases same : classOf unicode part.1 = phases.1
        · rw [passed, List.takeWhile_cons_of_pos (by simpa using same)]
          exact List.mem_append_left _ List.mem_cons_self
        · have second := (both (classOf unicode part.1)).resolve_left same
          rw [passed, List.takeWhile_cons_of_neg (by simpa using same),
            List.dropWhile_cons_of_neg (by simpa using same), passedSecond,
            List.takeWhile_cons_of_pos (by simpa using second)]
          exact List.mem_cons_self
      exact List.sum_pos_iff_exists_pos_nat.mpr
        ⟨part.2, List.mem_map_of_mem first, positive part List.mem_cons_self⟩

/-- The classes a word walk passes, by its direction and where it stops. -/
def wordPhases (forward : Bool) (stop : ForwardStop) : WordClass × WordClass :=
  if forward = true ∧ stop = .nextStart then (.word, .separator) else (.separator, .word)

theorem wordPhases_both (forward : Bool) (stop : ForwardStop) (found : WordClass)
    : found = (wordPhases forward stop).1 ∨ found = (wordPhases forward stop).2 := by
  cases forward <;> cases stop <;> cases found <;> decide

theorem wordTarget_phases (unicode : Unicode) (editor : Editor) (start : Nat) (forward : Bool)
    (stop : ForwardStop)
    : editor.wordTarget unicode start forward stop
      = editor.scanWords unicode start forward (wordPhases forward stop) := by
  cases forward <;> cases stop <;> rfl

/-- Something is left to walk over away from the edge. -/
theorem walkedSegments_ne_nil (unicode : Unicode) {editor : Editor} {forward : Bool}
    {position : Nat} (away : remaining editor forward position ≠ 0)
    (inside : position ≤ editor.document.lenBytes)
    : walkedSegments unicode editor.document.rope position forward ≠ [] := by
  intro none
  have filled := unicode.wordBounds_ne_nil editor.document.rope
  apply away
  cases forward with
  | true =>
      have walked := partsAfter_sum filled position
      rw [unicode.wordBounds_flatten] at walked
      change partsAfter _ _ = [] at none
      rw [none] at walked
      exact walked.symm
  | false =>
      have walked := partsBefore_sum filled position
      have whole : min (utf8Len editor.document.rope) position = position := Nat.min_eq_right inside
      rw [unicode.wordBounds_flatten, whole] at walked
      change partsBefore _ _ = [] at none
      rw [none] at walked
      exact walked.symm

-- Word commands

/-- A document without the bytes between two offsets. -/
def Removes (text : Text) (first second : Nat) (final : Text) : Prop :=
  ∃ before removed after,
    text = before ++ (removed ++ after)
    ∧ utf8Len before = min first second
    ∧ utf8Len before + utf8Len removed = max first second
    ∧ final = before ++ after

theorem deleteWord_removes {unicode : Unicode} {editor : Editor} {forward : Bool}
    {stop : ForwardStop} {target : Nat} (empty : editor.selection.range.isEmpty = true)
    (starts : Boundary editor.text editor.selection.active)
    (boundary : Boundary editor.text target)
    (reached : editor.wordTarget unicode editor.selection.active forward stop = .ok target)
    (now : Instant)
    : ∃ outcome final,
        deleteWord unicode forward stop now editor = (.ok outcome, final)
        ∧ Removes editor.text editor.selection.active target final.text
        ∧ final.selection.active = min editor.selection.active target
        ∧ final.selection.range.isEmpty = true
        ∧ (outcome = none ↔ target = editor.selection.active) := by
  rw [deleteWord, deleteSelected, Stateful.read_bind, if_pos empty]
  by_cases same : target = editor.selection.active
  · obtain ⟨before, after, text, length⟩ := starts
    refine ⟨none, editor, ?_, ⟨before, [], after, text, ?_, ?_, text⟩, ?_, empty,
      iff_of_true rfl same⟩
    · simp only [Stateful.bind_run, Stateful.query_run, reached, same, if_true, Stateful.pure_run]
    · rw [same, Nat.min_self, length]
    · rw [same, Nat.max_self, utf8Len_nil, Nat.add_zero, length]
    · rw [same, Nat.min_self]
  · have ordered : ∃ before removed after,
        editor.text = before ++ (removed ++ after)
        ∧ utf8Len before = min editor.selection.active target
        ∧ utf8Len before + utf8Len removed = max editor.selection.active target := by
      rcases Nat.le_total editor.selection.active target with up | down
      · obtain ⟨before, removed, after, text, first, last⟩ := starts.split boundary up
        exact ⟨before, removed, after, text.trans (List.append_assoc ..), by omega, by omega⟩
      · obtain ⟨before, removed, after, text, first, last⟩ := boundary.split starts down
        exact ⟨before, removed, after, text.trans (List.append_assoc ..), by omega, by omega⟩
    obtain ⟨before, removed, after, text, first, last⟩ := ordered
    obtain ⟨summary, document, -, ran, full, rangeAfter, -⟩ :=
      editDocument_append { editor with selection := ⟨editor.selection.active, target⟩ } text []
    have range : (⟨utf8Len before, utf8Len before + utf8Len removed⟩ : SourceRange)
        = Selection.range ⟨editor.selection.active, target⟩ := by
      rw [last, first]
      rfl
    rw [range] at ran
    refine ⟨some summary,
      { editor with
        document
        selection := .caret summary.rangeAfter.stop
        history :=
          editor.history.record summary [] editor.selection (.caret summary.rangeAfter.stop)
            .replace now },
      ?_, ⟨before, removed, after, text, first, last, full⟩, ?_, ?_,
      iff_of_false (by simp) same⟩
    · simp only [Stateful.bind_run, Stateful.query_run, reached, same, if_false,
        Stateful.modify_run, replaceSelectionRecordedFrom, replaceSelection, Stateful.read_run, ran,
        Stateful.pure_run]
    · rw [rangeAfter]
      exact first
    · simp [Selection.caret, Selection.range, SourceRange.isEmpty]

theorem moveWord_reaches {unicode : Unicode} {editor : Editor} {forward : Bool}
    {stop : ForwardStop} {target : Nat} (empty : editor.selection.range.isEmpty = true)
    (reached : editor.wordTarget unicode editor.selection.active forward stop = .ok target)
    (extend : Bool)
    : ∃ final,
        moveWord unicode forward stop extend editor = (.ok (), final)
        ∧ final.selection.active = target
        ∧ final.document = editor.document := by
  have found : moveTarget editor forward extend (wordTarget unicode · · forward stop)
      = .ok target := by
    rw [moveTarget, collapsedEdge, if_pos empty]
    exact reached
  refine ⟨(moveTo target extend editor).2, ?_, ?_, ?_⟩
  · rw [moveWord, Stateful.bind_run, Stateful.query_run, found]
    rfl
  · cases extend <;> rfl
  · cases extend <;> rfl

/-- A word walk leads on from every place but the document's edge. -/
theorem wordStop_moves {unicode : Unicode} {editor : Editor} (forward : Bool) (stop : ForwardStop)
    {start : Nat} (inside : start ≤ editor.document.lenBytes)
    : if forward then
        start = editor.document.lenBytes
        ∨ start < wordStop unicode editor.text forward (wordPhases forward stop) start
      else
        start = 0
        ∨ wordStop unicode editor.text forward (wordPhases forward stop) start < start := by
  have moves (away : remaining editor forward start ≠ 0) :=
    passed_positive unicode (wordPhases_both forward stop)
      (walkedSegments_ne_nil unicode away inside) walkedSegments_positive
  cases forward with
  | true =>
      by_cases atEnd : start = editor.document.lenBytes
      · exact .inl atEnd
      · have walked := moves (show editor.document.lenBytes - start ≠ 0 by omega)
        exact .inr (Nat.lt_add_of_pos_right walked)
  | false =>
      by_cases atStart : start = 0
      · exact .inl atStart
      · have walked := moves atStart
        exact .inr (Nat.sub_lt (Nat.pos_of_ne_zero atStart) walked)

/-- Where the word walk of a reachable document leads: to the end of a walk over the segments of
the whole text, in finitely many lines and strictly on unless the document ends there. Deleting a
word removes what moving over it passes.
-/
theorem wordTarget_whole {unicode : Unicode} (byLine : unicode.SegmentsByLine)
    {chunks : List Text} {editor : Editor}
    (edits : RopeBuffer.Edits (.fromRope chunks) editor.document) (forward : Bool)
    (stop : ForwardStop)
    : (∀ start,
        Boundary editor.text start
        → ∃ target,
            target = wordStop unicode editor.text forward (wordPhases forward stop) start
            ∧ editor.wordTarget unicode start forward stop = .ok target
            ∧ Scans unicode editor forward (wordPhases forward stop) start false target
            ∧ Boundary editor.text target
            ∧ (if forward then start = utf8Len editor.text ∨ start < target
              else start = 0 ∨ target < start))
      ∧ (editor.selection.range.isEmpty = true
        → Boundary editor.text editor.selection.active
        → ∀ extend now,
            ∃ moved outcome deleted,
              moveWord unicode forward stop extend editor = (.ok (), moved)
              ∧ deleteWord unicode forward stop now editor = (.ok outcome, deleted)
              ∧ Removes editor.text editor.selection.active moved.selection.active
                deleted.text) := by
  have mirrored := (RopeBuffer.Mirrored.fromRope chunks).edits edits
  refine ⟨?_, ?_⟩
  · intro start boundary
    have inside : start ≤ editor.document.lenBytes := boundary.le
    have enough : remaining editor forward start < editor.document.lenBytes + 1 := by
      rw [remaining]
      split <;> omega
    obtain ⟨scanned, scans⟩ := @scans_whole unicode editor mirrored byLine forward
      (wordPhases forward stop) _ start false boundary enough
    have whole : (wholeWalk unicode editor.document.rope forward (wordPhases forward stop) start
          false).position
        = wordStop unicode editor.text forward (wordPhases forward stop) start :=
      walkSegments_passed _
    rw [whole] at scanned scans
    have reached : editor.wordTarget unicode start forward stop
        = .ok (wordStop unicode editor.text forward (wordPhases forward stop) start) := by
      rw [wordTarget_phases, scanWords, (RopeBuffer.validateOffset_ok_iff _ _).mpr boundary]
      exact scanned
    obtain ⟨target, found, boundary'⟩ :=
      @wordTarget_succeeds unicode editor mirrored start forward stop boundary
    obtain rfl := Except.ok.inj (reached.symm.trans found)
    exact ⟨_, rfl, reached, scans, boundary', wordStop_moves forward stop inside⟩
  · intro empty starts extend now
    obtain ⟨target, reached, boundary⟩ :=
      @wordTarget_succeeds unicode editor mirrored _ forward stop starts
    obtain ⟨moved, moves, active, -⟩ := moveWord_reaches empty reached extend
    obtain ⟨outcome, deleted, ran, removes, -⟩ :=
      deleteWord_removes empty starts boundary reached now
    exact ⟨moved, outcome, deleted, moves, ran, active.symm ▸ removes⟩

theorem segmentsByLine_ascii : Unicode.ascii.SegmentsByLine := by
  intro text
  change text.map ([·]) = (splitLines text).flatMap fun line => line.text.map ([·])
  conv_lhs => rw [← splitLines_flatten text]
  rw [List.map_flatten, List.map_map, List.flatMap_def]
  rfl

/-- Two lines of one letter each, the caret in front of them. -/
def twoLines : Editor := .fromDocument (.fromRope [['a', '\n', 'b']])

/-- The walk to the next word crosses the end of the line. -/
theorem wordTarget_whole_twoLines
    : twoLines.wordTarget .ascii 0 true .nextStart = .ok 2
      ∧ ∃ moved outcome deleted,
          moveWord .ascii true .nextStart false twoLines = (.ok (), moved)
          ∧ deleteWord .ascii true .nextStart 0 twoLines = (.ok outcome, deleted)
          ∧ Removes twoLines.text 0 moved.selection.active deleted.text := by
  obtain ⟨walks, deletes⟩ := @wordTarget_whole .ascii segmentsByLine_ascii [['a', '\n', 'b']]
    twoLines .refl true .nextStart
  obtain ⟨target, stops, reached, -⟩ := walks 0 (.zero _)
  have two : wordStop .ascii twoLines.text true (wordPhases true .nextStart) 0 = 2 := by decide
  refine ⟨?_, deletes rfl (.zero _) false 0⟩
  rw [reached, stops, two]

end Editor

end Hane.Editing
