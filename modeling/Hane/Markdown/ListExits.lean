import Hane.Markdown.ListEditing
import Hane.Markdown.ListOpenings

/-! Leaving a list: what is typed behind a removed marker stands alone between blank lines. -/

namespace Hane.Markdown

open Hane.Document Hane.Foundations

/-- A text is alone on its line, which has a blank line or an edge of the text on either side. -/
def StandsAlone (text : Text) (offset : Nat) (typed : Text) : Prop :=
  ∃ earlier ending later, splitLines text = earlier ++ ⟨typed, ending⟩ :: later
    ∧ utf8Len (earlier.map SourceLine.text).flatten = offset
    ∧ (∀ line ∈ earlier.getLast?, isAsciiBlank line.content = true)
    ∧ (∀ line ∈ later.head?, isAsciiBlank line.content = true)

/-- A line ending or nothing. -/
def IsSeparator (text : Text) : Prop :=
  text = [] ∨ text = ['\n'] ∨ text = ['\r', '\n'] ∨ text = ['\r']

/-- What is put around a line of a document: at most one line ending on each side, and none where
the document ends or a blank line is next.
-/
def Separates (document : Text) (range : SourceRange) (left right : Text) : Prop :=
  ∃ earlier content ending later, splitLines document = earlier ++ ⟨content, ending⟩ :: later
    ∧ range.start = utf8Len (earlier.map SourceLine.text).flatten
    ∧ range.stop = range.start + utf8Len content
    ∧ IsSeparator left
    ∧ IsSeparator right
    ∧ ((∀ line ∈ earlier.getLast?, isAsciiBlank line.content = true) → left = [])
    ∧ ((∀ line ∈ later.head?, isAsciiBlank line.content = true) → right = [])

-- The line in front and the line behind

/-- The separator in front of a line. -/
def leftSeparator (document : Text) (start : Nat) : Text :=
  if start > 0 && !previousLineIsBlank document start then
    lineTerminatorBefore document start
  else
    []

/-- The separator behind a line. -/
def rightSeparator (document : Text) (start stop : Nat) : Text :=
  let afterLine := lineEndInclusive document start
  if afterLine < utf8Len document && !followingLineIsBlank document afterLine then
    substring document stop afterLine
  else
    []

theorem leftSeparator_eq {front content ending : Text} (rest : Text) (starts : AtLineStart front)
    (line : SourceLine.WellFormed ⟨content, ending⟩) (ended : ending ≠ [])
    (paired : ['\r', '\n'] <:+ front ++ (content ++ ending) ↔ ending = ['\r', '\n'])
    : leftSeparator (front ++ (content ++ ending) ++ rest) (utf8Len (front ++ (content ++ ending)))
      = if isAsciiBlank content then [] else ending := by
  have size : utf8Len (front ++ (content ++ ending))
      = utf8Len front + utf8Len content + utf8Len ending := by
    simp [Nat.add_assoc]
  have place : terminatorStart (front ++ (content ++ ending) ++ rest)
      (utf8Len (front ++ (content ++ ending))) = utf8Len front + utf8Len content := by
    rw [terminatorStart, substring_front, size]
    by_cases crlf : ending = ['\r', '\n']
    · rw [if_pos (paired.mpr crlf), crlf]
      exact Nat.add_sub_cancel _ 2
    · rw [if_neg (mt paired.mp crlf)]
      rcases line.ending with none | rfl | both | rfl
      · exact absurd none ended
      · exact Nat.add_sub_cancel _ 1
      · exact absurd both crlf
      · exact Nat.add_sub_cancel _ 1
  have split : front ++ (content ++ ending) ++ rest
      = (front ++ content) ++ (ending ++ rest) := by
    simp
  have terminator : lineTerminatorBefore (front ++ (content ++ ending) ++ rest)
      (utf8Len (front ++ (content ++ ending))) = ending := by
    rw [lineTerminatorBefore, place, size, split, ← utf8Len_append, substring_append]
  have blank : previousLineIsBlank (front ++ (content ++ ending) ++ rest)
      (utf8Len (front ++ (content ++ ending))) = isAsciiBlank content := by
    have inside : front ++ (content ++ ending) ++ rest = front ++ (content ++ (ending ++ rest)) := by
      simp
    rw [previousLineIsBlank, place, inside, lineStart_eq _ starts (unbroken_content line),
      substring_append]
  have some : 0 < utf8Len ending :=
    Nat.pos_of_ne_zero fun none => ended ((utf8Len_eq_zero_iff ending).mp none)
  rw [leftSeparator, blank, terminator, size]
  have positive : utf8Len front + utf8Len content + utf8Len ending > 0 := by omega
  cases isAsciiBlank content <;> simp [positive]

/-- What is put in front of a line, and the lines there are then. -/
theorem left_separates {before : Text} (rest : Text) (starts : AtLineStart before)
    : ∃ earlier : List SourceLine, utf8Len (earlier.map SourceLine.text).flatten = utf8Len before
        ∧ (∀ tail, tail.head? ≠ some '\n'
          → splitLines (before ++ tail) = earlier ++ splitLines tail)
        ∧ IsSeparator (leftSeparator (before ++ rest) (utf8Len before))
        ∧ ((∀ line ∈ earlier.getLast?, isAsciiBlank line.content = true)
          → leftSeparator (before ++ rest) (utf8Len before) = [])
        ∧ ∃ separated : List SourceLine,
          utf8Len (separated.map SourceLine.text).flatten
            = utf8Len before + utf8Len (leftSeparator (before ++ rest) (utf8Len before))
          ∧ (∀ line ∈ separated.getLast?, isAsciiBlank line.content = true)
          ∧ ∀ tail, tail.head? ≠ some '\n'
            → splitLines (before ++ (leftSeparator (before ++ rest) (utf8Len before) ++ tail))
              = separated ++ splitLines tail := by
  by_cases filled : before = []
  · subst filled
    have none : leftSeparator ([] ++ rest) (utf8Len []) = [] := rfl
    rw [none]
    exact ⟨[], rfl, fun _ _ => rfl, .inl rfl, fun _ => rfl, [], rfl, by simp, fun _ _ => rfl⟩
  · obtain ⟨front, content, ending, rfl, atStart, line, ended, paired, earlier, whole, splits⟩ :=
      exists_last_line starts filled
    have size : utf8Len ((earlier ++ [(⟨content, ending⟩ : SourceLine)]).map SourceLine.text).flatten
        = utf8Len (front ++ (content ++ ending)) := by
      simp [← whole, SourceLine.text]
    have lines (tail : Text) (apart : Apart ending tail)
        : splitLines (front ++ (content ++ ending) ++ tail)
          = (earlier ++ [⟨content, ending⟩]) ++ splitLines tail := by
      rw [splits tail apart, List.append_assoc, List.singleton_append]
    have separator : IsSeparator ending := line.ending
    rw [leftSeparator_eq rest atStart line ended paired]
    refine ⟨earlier ++ [⟨content, ending⟩], size, fun tail free => lines tail fun _ => free, ?_, ?_,
      ?_⟩
    · split
      · exact .inl rfl
      · exact separator
    · intro blank
      rw [if_pos (blank ⟨content, ending⟩ (by simp))]
    · by_cases blank : isAsciiBlank content = true
      · rw [if_pos blank]
        refine ⟨earlier ++ [⟨content, ending⟩], size, ?_, ?_⟩
        · intro last found
          rw [List.getLast?_concat, Option.mem_some_iff] at found
          rw [← found]
          exact blank
        · intro tail free
          exact lines tail fun _ => free
      · rw [if_neg blank]
        refine ⟨earlier ++ [⟨content, ending⟩] ++ [⟨[], ending⟩], ?_, ?_, ?_⟩
        · rw [List.map_append, List.flatten_append, utf8Len_append, size]
          simp [SourceLine.text]
        · intro last found
          rw [List.getLast?_concat, Option.mem_some_iff] at found
          rw [← found]
          rfl
        · intro tail free
          have apart : Apart ending (ending ++ tail) := by
            rintro rfl
            simp
          have empty : SourceLine.WellFormed ⟨[], ending⟩ := ⟨by simp, line.ending⟩
          have first : splitLines (ending ++ tail) = ⟨[], ending⟩ :: splitLines tail :=
            splitLines_line empty ended fun _ => free
          rw [lines _ apart, first]
          simp

theorem lineEndInclusive_eq {before line ending rest : Text} (plain : Unbroken line)
    (known : SourceLine.WellFormed ⟨[], ending⟩) (ended : ending ≠ []) (apart : Apart ending rest)
    : lineEndInclusive (before ++ (line ++ (ending ++ rest))) (utf8Len before)
      = utf8Len before + utf8Len line + utf8Len ending := by
  have stops : AtLineEnd (ending ++ rest) := AtLineEnd.ending known (.inl ended)
  have behind := substring_back (before ++ line) (ending ++ rest)
  rw [utf8Len_append before, List.append_assoc] at behind
  rw [lineEndInclusive, lineEnd_eq before plain stops, behind]
  rcases known.ending with none | rfl | rfl | rfl
  · exact absurd none ended
  · rfl
  · rfl
  · have bare := apart rfl
    cases rest with
    | nil => rfl
    | cons c rest =>
        have other : c ≠ '\n' := by simpa using bare
        have one : utf8Len before + utf8Len line + 1
            = utf8Len before + utf8Len line + utf8Len ['\r'] := rfl
        rw [← one]
        simp [other]

/-- What is put behind a line, and the lines there are then. -/
theorem right_separates (before : Text) {line after : Text} (plain : Unbroken line)
    (stops : AtLineEnd after)
    : ∃ ending later, splitLines (line ++ after) = ⟨line, ending⟩ :: later
        ∧ IsSeparator (rightSeparator (before ++ (line ++ after)) (utf8Len before)
          (utf8Len before + utf8Len line))
        ∧ ((∀ line ∈ later.head?, isAsciiBlank line.content = true)
          → rightSeparator (before ++ (line ++ after)) (utf8Len before)
              (utf8Len before + utf8Len line)
            = [])
        ∧ ∀ typed, Unbroken typed
          → ∃ ending later, splitLines (typed
                ++ (rightSeparator (before ++ (line ++ after)) (utf8Len before)
                  (utf8Len before + utf8Len line) ++ after))
              = ⟨typed, ending⟩ :: later
            ∧ ∀ line ∈ later.head?, isAsciiBlank line.content = true := by
  by_cases filled : after = []
  · subst filled
    have last : lineEndInclusive (before ++ (line ++ [])) (utf8Len before)
        = utf8Len (before ++ (line ++ [])) := by
      have behind := substring_back (before ++ line) []
      rw [utf8Len_append before, List.append_assoc] at behind
      rw [lineEndInclusive, lineEnd_eq before plain stops, behind]
      simp
    have none : rightSeparator (before ++ (line ++ [])) (utf8Len before)
        (utf8Len before + utf8Len line) = [] := by
      rw [rightSeparator, last]
      simp
    rw [none]
    refine ⟨[], [], by rw [List.append_nil, splitLines_unbroken plain], .inl rfl, fun _ => rfl,
      fun typed whole => ⟨[], [], ?_, by simp⟩⟩
    rw [List.append_nil, List.append_nil, splitLines_unbroken whole]
  · obtain ⟨ending, rest, rfl, known, ended, apart⟩ := exists_ending stops filled
    have next : AtLineEnd (rest.dropWhile fun c => !isLineBreak c) := by
      intro c found
      have last := List.head?_dropWhile_not (fun c => !isLineBreak c) rest
      rw [found] at last
      simpa using last
    have first : Unbroken (rest.takeWhile fun c => !isLineBreak c) := by
      intro c member
      simpa using List.mem_takeWhile_imp member
    obtain ⟨ending', later, splits⟩ := splitLines_first next
    have behind := splits _ first
    rw [List.takeWhile_append_dropWhile] at behind
    have place : lineEndInclusive (before ++ (line ++ (ending ++ rest))) (utf8Len before)
        = utf8Len before + utf8Len line + utf8Len ending :=
      lineEndInclusive_eq plain known ended apart
    have split : before ++ (line ++ (ending ++ rest))
        = (before ++ line ++ ending) ++ (rest.takeWhile (fun c => !isLineBreak c)
          ++ rest.dropWhile fun c => !isLineBreak c) := by
      rw [List.takeWhile_append_dropWhile]
      simp
    have blank : followingLineIsBlank (before ++ (line ++ (ending ++ rest)))
          (utf8Len before + utf8Len line + utf8Len ending)
        = isAsciiBlank (rest.takeWhile fun c => !isLineBreak c) := by
      rw [followingLineIsBlank, split, ← utf8Len_append, ← utf8Len_append, lineEnd_eq _ first next,
        substring_append]
    have terminator : substring (before ++ (line ++ (ending ++ rest)))
        (utf8Len before + utf8Len line) (utf8Len before + utf8Len line + utf8Len ending)
        = ending := by
      rw [← List.append_assoc, ← utf8Len_append, substring_append]
    have separator : rightSeparator (before ++ (line ++ (ending ++ rest))) (utf8Len before)
          (utf8Len before + utf8Len line)
        = if rest = [] ∨ isAsciiBlank (rest.takeWhile fun c => !isLineBreak c) = true then
            []
          else
            ending := by
      have size : utf8Len (before ++ (line ++ (ending ++ rest)))
          = utf8Len before + utf8Len line + utf8Len ending + utf8Len rest := by
        simp [Nat.add_assoc]
      rw [rightSeparator, place, blank, terminator, size]
      by_cases none : rest = []
      · simp [none]
      · have some := Nat.pos_of_ne_zero (mt (utf8Len_eq_zero_iff rest).mp none)
        cases isAsciiBlank (rest.takeWhile fun c => !isLineBreak c) <;> simp [none, some]
    rw [separator]
    refine ⟨ending, splitLines rest, ?_, ?_, ?_, ?_⟩
    · rw [← List.append_assoc]
      exact splitLines_line (wellFormed_unbroken plain known) ended apart
    · split
      · exact .inl rfl
      · exact known.ending
    · intro free
      rw [behind] at free
      rw [if_pos (.inr (free _ rfl))]
    · intro typed whole
      have empty : SourceLine.WellFormed ⟨[], ending⟩ := ⟨by simp, known.ending⟩
      have alone (tail : Text) (free : Apart ending tail)
          : splitLines (typed ++ (ending ++ tail)) = ⟨typed, ending⟩ :: splitLines tail := by
        rw [← List.append_assoc]
        exact splitLines_line (wellFormed_unbroken whole empty) ended free
      split
      · rename_i free
        refine ⟨ending, _, alone rest apart, ?_⟩
        rw [behind]
        intro next found
        obtain rfl := Option.some.inj found
        rcases free with none | blank
        · rw [none]
          rfl
        · exact blank
      · have again : Apart ending (ending ++ rest) := by
          rintro rfl
          simp
        have doubled : splitLines (ending ++ rest) = ⟨[], ending⟩ :: splitLines rest :=
          splitLines_line empty ended apart
        refine ⟨ending, _, alone _ again, ?_⟩
        rw [doubled]
        intro next found
        obtain rfl := Option.some.inj found
        rfl

-- The exit

theorem head_ne_lineFeed {line : Text} (plain : Unbroken line) (filled : line ≠ []) (after : Text)
    : (line ++ after).head? ≠ some '\n' := by
  obtain ⟨c, rest, rfl⟩ := List.exists_cons_of_ne_nil filled
  intro same
  have breaks := plain c List.mem_cons_self
  rw [Option.some.inj same] at breaks
  cases breaks

theorem exitTopLevelItem_separates {before line after : Text} (starts : AtLineStart before)
    (plain : Unbroken line) (filled : line ≠ []) (stops : AtLineEnd after) {item : ListEditItem}
    (first : item.prefixRange.start = utf8Len before)
    (last : item.prefixRange.stop = utf8Len before + utf8Len line)
    : ∃ left right edited, exitTopLevelItem (before ++ (line ++ after)) item
          = .replace item.prefixRange (left ++ right)
            (.caret (item.prefixRange.start + utf8Len left))
        ∧ Separates (before ++ (line ++ after)) item.prefixRange left right
        ∧ replaceRange (before ++ (line ++ after)) item.prefixRange (left ++ right) = some edited
        ∧ ∀ typed, Unbroken typed → isAsciiBlank typed = false
          → ∃ final, replaceRange edited (.empty (item.prefixRange.start + utf8Len left)) typed
                = some final
              ∧ StandsAlone final (item.prefixRange.start + utf8Len left) typed := by
  have range : item.prefixRange = ⟨utf8Len before, utf8Len before + utf8Len line⟩ := by
    rw [← last, ← first]
  obtain ⟨earlier, front, splits, leftKnown, leftNone, separated, place, blankBefore, behind⟩ :=
    left_separates (line ++ after) starts
  obtain ⟨ending, later, shown, rightKnown, rightNone, follows⟩ :=
    right_separates before plain stops
  obtain ⟨left, leftEq⟩ : ∃ left, leftSeparator (before ++ (line ++ after)) (utf8Len before) = left :=
    ⟨_, rfl⟩
  obtain ⟨right, rightEq⟩ : ∃ right, rightSeparator (before ++ (line ++ after)) (utf8Len before)
      (utf8Len before + utf8Len line) = right :=
    ⟨_, rfl⟩
  rw [leftEq] at leftKnown leftNone place behind
  rw [rightEq] at rightKnown rightNone follows
  refine ⟨left, right, before ++ (left ++ right) ++ after, ?_, ?_, ?_, ?_⟩
  · rw [← leftEq, ← rightEq, ← last, ← first]
    rfl
  · refine ⟨earlier, line, ending, later, ?_, by rw [front, first], by rw [first, last],
      leftKnown, rightKnown, leftNone, rightNone⟩
    rw [splits _ (head_ne_lineFeed plain filled after), shown]
  · rw [range, replaceRange_eq]
  · intro typed whole visible
    have some : typed ≠ [] := by
      rintro rfl
      cases visible
    obtain ⟨ending, later, alone, blankAfter⟩ := follows typed whole
    have middle : replaceRange (before ++ (left ++ right) ++ after)
        (.empty (item.prefixRange.start + utf8Len left)) typed
        = .some ((before ++ left) ++ typed ++ (right ++ after)) := by
      have inserted := replaceRange_eq (before ++ left) [] (right ++ after) typed
      rw [first, ← utf8Len_append]
      simpa [SourceRange.empty] using inserted
    refine ⟨_, middle, separated, ending, later, ?_, by rw [place, first], blankBefore, blankAfter⟩
    have together : (before ++ left) ++ typed ++ (right ++ after)
        = before ++ (left ++ (typed ++ (right ++ after))) := by
      simp
    rw [together, behind _ (head_ne_lineFeed whole some _), alone]

/-- Leaving a list from an empty item of its outermost level. What is typed next is alone between
blank lines or edges of the document, whatever the line endings are.
Witness: `exit_between_items`.
-/
theorem planListEdit_exit {parsed : ListParse} {source document before after : Text}
    (sound : parsed.Sound source) (block : parsed.Within source document before after)
    {selection : SourceSelection} {item : ListEditItem} {intent : ListEditIntent}
    {range : SourceRange} {replacement : Text} {selectionAfter : SourceSelection}
    (found : (buildListEditProjection parsed source).itemAt selection.active = some item)
    (top : item.depth ≤ 1)
    (empty : slice? document item.bodyRange.start item.bodyRange.stop = some [])
    (key : intent = .enter ∨ intent = .backspace)
    (planned
      : planListEdit document (buildListEditProjection parsed source) selection intent
        = .handled (.replace range replacement selectionAfter))
    : ∃ left right edited, replacement = left ++ right
        ∧ range = item.prefixRange
        ∧ selectionAfter = .caret (range.start + utf8Len left)
        ∧ Separates document range left right
        ∧ replaceRange document range replacement = some edited
        ∧ Replaces document range replacement edited
        ∧ ∀ typed, Unbroken typed → isAsciiBlank typed = false
          → ∃ final, replaceRange edited (.empty selectionAfter.active) typed = some final
              ∧ StandsAlone final selectionAfter.active typed := by
  obtain ⟨opening, rfl, opens⟩ := itemAt_opens sound block found
  have body : item.bodyRange.start = item.bodyRange.stop := by
    rw [slice?] at empty
    split at empty
    · rename_i inside
      have size := utf8Len_substring inside.2.1 inside.2.2 inside.1
      rw [Option.some.inj empty] at size
      exact size
    · cases empty
  have exits : .replace range replacement selectionAfter = exitTopLevelItem opening.text item := by
    rcases planExit_cases (planExit_of_empty found empty key planned) with
      same | ⟨-, -, same⟩ | ⟨-, nested, -⟩
    · cases same
    · exact same
    · omega
  have filled : opening.line ≠ [] := fun none =>
    opens.marked.ne_nil (List.append_eq_nil_iff.mp (List.append_eq_nil_iff.mp none).2).1
  have first : item.prefixRange.start = utf8Len opening.before := by
    rw [opens.prefixStart, Nat.zero_add]
  have last : item.prefixRange.stop = utf8Len opening.before + utf8Len opening.line := by
    rw [opens.prefixStop, body, opens.bodyStop, Nat.zero_add]
  obtain ⟨left, right, edited, plan, separates, replaced, follows⟩ :=
    exitTopLevelItem_separates opens.starts opens.unbroken filled opens.stops first last
  obtain ⟨rfl, rfl, rfl⟩ := MarkdownEditPlan.replace.inj (exits.trans plan)
  exact ⟨left, right, edited, rfl, rfl, rfl, separates, replaced,
    replaceRange_eq_some_iff.mp replaced, follows⟩

/-- Three items of one list, with a mix of line endings. -/
def mixedList : Text := "- a\r\n- \n- b".toList

def mixedListParse : ListParse where
  revision := 1
  sourceRange := ⟨0, 11⟩
  tree.nodes := [
    ⟨.document, ⟨0, 11⟩, [1]⟩,
    ⟨.list none, ⟨0, 11⟩, [2, 4, 5]⟩,
    ⟨.listItem none, ⟨0, 5⟩, [3]⟩,
    ⟨.text, ⟨2, 3⟩, []⟩,
    ⟨.listItem none, ⟨5, 8⟩, []⟩,
    ⟨.listItem none, ⟨8, 11⟩, [6]⟩,
    ⟨.text, ⟨10, 11⟩, []⟩]
  details.parents := [none, some 0, some 1, some 2, some 1, some 1, some 5]

theorem exit_between_items
    : ∃ item left right edited,
        (buildListEditProjection mixedListParse mixedList).itemAt 7 = some item
        ∧ ['\r', '\n', '\n'] = left ++ right
        ∧ ⟨5, 7⟩ = item.prefixRange
        ∧ SourceSelection.caret 7 = .caret (5 + utf8Len left)
        ∧ Separates mixedList ⟨5, 7⟩ left right
        ∧ replaceRange mixedList ⟨5, 7⟩ ['\r', '\n', '\n'] = some edited
        ∧ Replaces mixedList ⟨5, 7⟩ ['\r', '\n', '\n'] edited
        ∧ ∀ typed, Unbroken typed → isAsciiBlank typed = false
          → ∃ final, replaceRange edited (.empty 7) typed = some final
              ∧ StandsAlone final 7 typed := by
  have sound : mixedListParse.Sound mixedList := by
    intro node member
    refine ⟨node.sourceRange.start, node.sourceRange.stop, ?_⟩
    revert node
    decide +kernel
  have block : mixedListParse.Within mixedList mixedList [] [] :=
    ⟨by simp, by decide +kernel, .nil, .inl .nil⟩
  have shown : ((buildListEditProjection mixedListParse mixedList).itemAt 7).isSome = true := by
    decide +kernel
  obtain ⟨item, found⟩ := Option.isSome_iff_exists.mp shown
  have planned : planListEdit mixedList (buildListEditProjection mixedListParse mixedList)
      (.caret 7) .enter
      = .handled (.replace ⟨5, 7⟩ ['\r', '\n', '\n'] (.caret 7)) := by
    decide +kernel
  have facts : ((buildListEditProjection mixedListParse mixedList).itemAt 7).all (fun item =>
      item.depth ≤ 1
        && slice? mixedList item.bodyRange.start item.bodyRange.stop == some []) = true := by
    decide +kernel
  rw [found, Option.all_some, Bool.and_eq_true, decide_eq_true_eq, beq_iff_eq] at facts
  obtain ⟨left, right, edited, exits⟩ :=
    planListEdit_exit sound block found facts.1 facts.2 (.inl rfl) planned
  exact ⟨item, left, right, edited, found, exits⟩

end Hane.Markdown
