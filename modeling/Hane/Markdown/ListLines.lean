import Hane.Document.Boundaries
import Hane.Document.Lines
import Hane.Foundations.TabStops
import Hane.Markdown.Syntax
import Mathlib.Data.List.DropRight
import Mathlib.Data.List.TakeWhile

/-! Lines and columns of a Markdown source, as the list editor measures them. -/

namespace Hane.Markdown

open Hane.Document Hane.Foundations

def isLineBreak (c : Char) : Bool := c == '\n' || c == '\r'

/-- ASCII space and tab. -/
def isIndent (c : Char) : Bool := c == ' ' || c == '\t'

-- Lines around an offset

def lineStart (source : Text) (offset : Nat) : Nat :=
  utf8Len ((substring source 0 (min offset (utf8Len source))).rdropWhile
    fun c => !isLineBreak c)

def lineEnd (source : Text) (offset : Nat) : Nat :=
  let rest := substring source (min offset (utf8Len source)) (utf8Len source)
  if rest.any isLineBreak then
    offset + utf8Len (rest.takeWhile fun c => !isLineBreak c)
  else
    utf8Len source

def lineEndInclusive (source : Text) (offset : Nat) : Nat :=
  let stop := lineEnd source offset
  match substring source stop (utf8Len source) with
  | [] => stop
  | '\r' :: '\n' :: _ => stop + 2
  | _ => stop + 1

def AtLineStart (before : Text) : Prop := ∀ c, before.getLast? = some c → isLineBreak c = true

def AtLineEnd (after : Text) : Prop := ∀ c, after.head? = some c → isLineBreak c = true

/-- A part of a line. -/
def Unbroken (text : Text) : Prop := ∀ c ∈ text, isLineBreak c = false

theorem AtLineStart.nil : AtLineStart [] := fun _ found => nomatch found

theorem AtLineEnd.nil : AtLineEnd [] := fun _ found => nomatch found

theorem Unbroken.append {front back : Text} (first : Unbroken front) (second : Unbroken back)
    : Unbroken (front ++ back) := by
  intro c member
  rcases List.mem_append.mp member with inside | inside
  · exact first c inside
  · exact second c inside

theorem unbroken_append_iff {front back : Text}
    : Unbroken (front ++ back) ↔ Unbroken front ∧ Unbroken back :=
  List.forall_mem_append

theorem substring_front (before after : Text)
    : substring (before ++ after) 0 (utf8Len before) = before := by
  have read := substring_append [] before after
  simpa using read

theorem substring_back (before after : Text)
    : substring (before ++ after) (utf8Len before) (utf8Len (before ++ after)) = after := by
  have read := substring_append before after []
  simpa using read

theorem rdropWhile_line {before line : Text} (start : AtLineStart before) (plain : Unbroken line)
    : (before ++ line).rdropWhile (fun c => !isLineBreak c) = before := by
  rw [List.rdropWhile, List.reverse_append, List.dropWhile_append_of_pos]
  · cases back : before.reverse with
    | nil => simpa using (List.reverse_eq_nil_iff.mp back).symm
    | cons c rest =>
        have last : before.getLast? = some c := by
          rw [List.getLast?_eq_head?_reverse, back]
          rfl
        rw [List.dropWhile_cons_of_neg (by simp [start c last]), ← back, List.reverse_reverse]
  · intro c member
    simp [plain c (List.mem_reverse.mp member)]

theorem takeWhile_line {line after : Text} (plain : Unbroken line) (stop : AtLineEnd after)
    : (line ++ after).takeWhile (fun c => !isLineBreak c) = line := by
  rw [List.takeWhile_append_of_pos fun c member => by simp [plain c member]]
  cases after with
  | nil => simp
  | cons c rest => simp [stop c rfl]

theorem lineStart_eq {before front : Text} (after : Text) (start : AtLineStart before)
    (plain : Unbroken front)
    : lineStart (before ++ (front ++ after)) (utf8Len before + utf8Len front)
      = utf8Len before := by
  rw [lineStart, Nat.min_eq_left (by simp only [utf8Len_append]; omega), ← List.append_assoc,
    ← utf8Len_append, substring_front, rdropWhile_line start plain]

theorem lineEnd_eq (before : Text) {line after : Text} (plain : Unbroken line)
    (stop : AtLineEnd after)
    : lineEnd (before ++ (line ++ after)) (utf8Len before) = utf8Len before + utf8Len line := by
  rw [lineEnd, Nat.min_eq_left (by simp only [utf8Len_append]; omega), substring_back,
    takeWhile_line plain stop]
  cases after with
  | nil =>
      have whole : line.any isLineBreak = false := by
        rw [List.any_eq_false]
        intro c member
        simp [plain c member]
      simp [whole]
  | cons c rest =>
      have broken : (line ++ c :: rest).any isLineBreak = true := by
        rw [List.any_eq_true]
        exact ⟨c, by simp, stop c rfl⟩
      simp [broken]

theorem exists_line {source : Text} {offset : Nat} (boundary : Boundary source offset)
    : ∃ before front back after,
        source = before ++ (front ++ (back ++ after))
        ∧ AtLineStart before
        ∧ Unbroken front
        ∧ Unbroken back
        ∧ AtLineEnd after
        ∧ offset = utf8Len before + utf8Len front := by
  obtain ⟨left, right, rfl, rfl⟩ := boundary
  refine ⟨left.rdropWhile fun c => !isLineBreak c, left.rtakeWhile fun c => !isLineBreak c,
    right.takeWhile fun c => !isLineBreak c, right.dropWhile fun c => !isLineBreak c,
    ?_, ?_, ?_, ?_, ?_, ?_⟩
  · rw [List.takeWhile_append_dropWhile, ← List.append_assoc, List.rdropWhile_append_rtakeWhile]
  · intro c found
    have filled : left.rdropWhile (fun c => !isLineBreak c) ≠ [] := by
      intro none
      rw [none] at found
      cases found
    rw [List.getLast?_eq_getLast_of_ne_nil filled] at found
    obtain rfl := Option.some.inj found
    simpa using List.rdropWhile_last_not (fun c => !isLineBreak c) left filled
  · intro c member
    simpa using List.mem_rtakeWhile_imp member
  · intro c member
    simpa using List.mem_takeWhile_imp member
  · intro c found
    have last := List.head?_dropWhile_not (fun c => !isLineBreak c) right
    rw [found] at last
    simpa using last
  · rw [← utf8Len_append, List.rdropWhile_append_rtakeWhile]

-- Lines of a text

/-- A line ending and what follows it do not make one line ending together. -/
def Apart (ending rest : Text) : Prop := ending = ['\r'] → rest.head? ≠ some '\n'

/-- A line in front of a text is its first line, by induction on the content. -/
theorem splitLines_line {line : SourceLine} (wellFormed : line.WellFormed)
    (ended : line.ending ≠ []) {rest : Text} (apart : Apart line.ending rest)
    : splitLines (line.text ++ rest) = line :: splitLines rest := by
  obtain ⟨content, ending⟩ := line
  obtain ⟨plain, known⟩ := wellFormed
  simp only at plain known ended apart
  induction content with
  | nil =>
      rcases known with rfl | rfl | rfl | rfl
      · exact absurd rfl ended
      · rfl
      · rfl
      · exact splitLines_bareCr rest (apart rfl)
  | cons c content ih =>
      obtain ⟨here, plain⟩ := List.forall_mem_cons.mp plain
      obtain ⟨line, lines, split, joined⟩ :=
        splitLines_cons c (SourceLine.text ⟨content, ending⟩ ++ rest) here.1 here.2
      rw [ih plain] at split
      obtain ⟨rfl, rfl⟩ := List.cons.inj split
      exact joined

theorem exists_rest_of_splitLines {text : Text} {line : SourceLine} {lines : List SourceLine}
    (split : splitLines text = line :: lines) (several : lines ≠ [])
    : ∃ rest, text = line.text ++ rest
        ∧ splitLines rest = lines
        ∧ line.ending ≠ []
        ∧ Apart line.ending rest := by
  induction text using splitLines_induction generalizing line with
  | nil =>
      obtain ⟨-, rfl⟩ := List.cons.inj split
      exact absurd rfl several
  | crlf rest =>
      obtain ⟨rfl, rfl⟩ := List.cons.inj split
      exact ⟨rest, rfl, rfl, by simp, fun same => by simp at same⟩
  | cr rest bare =>
      rw [splitLines_bareCr rest bare] at split
      obtain ⟨rfl, rfl⟩ := List.cons.inj split
      exact ⟨rest, rfl, rfl, by simp, fun _ => bare⟩
  | lf rest =>
      obtain ⟨rfl, rfl⟩ := List.cons.inj split
      exact ⟨rest, rfl, rfl, by simp, fun same => by simp at same⟩
  | other c rest lf cr ih =>
      obtain ⟨first, later, cut, joined⟩ := splitLines_cons c rest lf cr
      rw [joined] at split
      obtain ⟨rfl, rfl⟩ := List.cons.inj split
      obtain ⟨behind, rfl, others, ended, apart⟩ := ih cut
      exact ⟨behind, rfl, others, ended, apart⟩

theorem unbroken_content {line : SourceLine} (wellFormed : line.WellFormed)
    : Unbroken line.content := by
  intro c member
  simp [isLineBreak, wellFormed.content c member]

theorem breaks_ending {line : SourceLine} (wellFormed : line.WellFormed)
    : ∀ c ∈ line.ending, isLineBreak c = true := by
  intro c member
  rcases wellFormed.ending with ends | ends | ends | ends <;> rw [ends] at member
  · cases member
  · obtain rfl := List.mem_singleton.mp member
    rfl
  · rcases List.mem_cons.mp member with rfl | member
    · rfl
    · obtain rfl := List.mem_singleton.mp member
      rfl
  · obtain rfl := List.mem_singleton.mp member
    rfl

theorem AtLineStart.line (before : Text) {line : SourceLine} (wellFormed : line.WellFormed)
    (ended : line.ending ≠ [])
    : AtLineStart (before ++ line.text) := by
  intro c last
  rw [SourceLine.text, ← List.append_assoc, List.getLast?_append_of_ne_nil _ ended] at last
  exact breaks_ending wellFormed c (List.mem_of_getLast? last)

theorem AtLineEnd.ending {line : SourceLine} (wellFormed : line.WellFormed) {rest : Text}
    (ended : line.ending ≠ [] ∨ rest = [])
    : AtLineEnd (line.ending ++ rest) := by
  intro c first
  cases ending : line.ending with
  | nil =>
      rw [ending] at ended first
      obtain rfl := ended.resolve_left (fun filled => filled rfl)
      cases first
  | cons d more =>
      rw [ending] at first
      obtain rfl := Option.some.inj first
      exact breaks_ending wellFormed d (by simp [ending])

theorem AtLineStart.of_append {front back : Text} (starts : AtLineStart (front ++ back))
    : AtLineStart back := by
  intro c last
  have filled : back ≠ [] := fun none => by simp [none] at last
  exact starts c (by rwa [List.getLast?_append_of_ne_nil _ filled])

/-- The lines in front of where a line starts, by induction on the text. -/
theorem exists_lines {before : Text} (starts : AtLineStart before)
    : ∃ earlier : List SourceLine, before = (earlier.map SourceLine.text).flatten
        ∧ (∀ line ∈ earlier, line.WellFormed ∧ line.ending ≠ [])
        ∧ ∀ rest, (before.getLast? = some '\r' → rest.head? ≠ some '\n')
          → splitLines (before ++ rest) = earlier ++ splitLines rest := by
  have ended (ending : Text) {before : Text} (line : SourceLine.WellFormed ⟨[], ending⟩)
      (filled : ending ≠ []) (apart : Apart ending before) (starts : AtLineStart (ending ++ before))
      (ih : AtLineStart before
        → ∃ earlier : List SourceLine, before = (earlier.map SourceLine.text).flatten
          ∧ (∀ line ∈ earlier, line.WellFormed ∧ line.ending ≠ [])
          ∧ ∀ rest, (before.getLast? = some '\r' → rest.head? ≠ some '\n')
            → splitLines (before ++ rest) = earlier ++ splitLines rest)
      : ∃ earlier : List SourceLine, ending ++ before = (earlier.map SourceLine.text).flatten
        ∧ (∀ line ∈ earlier, line.WellFormed ∧ line.ending ≠ [])
        ∧ ∀ rest, ((ending ++ before).getLast? = some '\r' → rest.head? ≠ some '\n')
          → splitLines (ending ++ before ++ rest) = earlier ++ splitLines rest := by
    obtain ⟨earlier, whole, wellFormed, splits⟩ := ih starts.of_append
    refine ⟨⟨[], ending⟩ :: earlier, by simp [SourceLine.text, whole], ?_, ?_⟩
    · exact List.forall_mem_cons.mpr ⟨⟨line, filled⟩, wellFormed⟩
    · intro rest free
      have behind : Apart ending (before ++ rest) := by
        intro same
        by_cases none : before = []
        · subst none
          exact free (by simp [same])
        · rw [List.head?_append_of_ne_nil _ none]
          exact apart same
      have later : before.getLast? = some '\r' → rest.head? ≠ some '\n' := by
        intro last
        have some : before ≠ [] := fun none => by simp [none] at last
        exact free (by rwa [List.getLast?_append_of_ne_nil _ some])
      rw [List.append_assoc, List.cons_append, ← splits rest later]
      exact splitLines_line line filled behind
  induction before using splitLines_induction with
  | nil => exact ⟨[], rfl, by simp, fun _ _ => rfl⟩
  | crlf before ih =>
      exact ended ['\r', '\n'] ⟨by simp, by simp⟩ (by simp) (fun same => by simp at same) starts ih
  | cr before bare ih =>
      exact ended ['\r'] ⟨by simp, by simp⟩ (by simp) (fun _ => bare) starts ih
  | lf before ih =>
      exact ended ['\n'] ⟨by simp, by simp⟩ (by simp) (fun same => by simp at same) starts ih
  | other c before lf cr ih =>
      have filled : before ≠ [] := by
        rintro rfl
        have breaks := starts c rfl
        simp [isLineBreak, lf, cr] at breaks
      have behind : AtLineStart ([c] ++ before) := starts
      obtain ⟨earlier, whole, wellFormed, splits⟩ := ih behind.of_append
      cases earlier with
      | nil => exact absurd whole filled
      | cons line earlier =>
          obtain ⟨⟨here, ends⟩, others⟩ := List.forall_mem_cons.mp wellFormed
          refine ⟨line.push c :: earlier, ?_, ?_, ?_⟩
          · simp [whole]
          · refine List.forall_mem_cons.mpr ⟨⟨⟨?_, here.ending⟩, ends⟩, others⟩
            exact List.forall_mem_cons.mpr ⟨⟨lf, cr⟩, here.content⟩
          · intro rest free
            have later : before.getLast? = some '\r' → rest.head? ≠ some '\n' := by
              intro last
              obtain ⟨d, more, rfl⟩ := List.exists_cons_of_ne_nil filled
              exact free (by rwa [List.getLast?_cons_cons])
            obtain ⟨first, lines, cut, joined⟩ := splitLines_cons c (before ++ rest) lf cr
            rw [splits rest later] at cut
            obtain ⟨rfl, rfl⟩ := List.cons.inj cut
            exact joined

theorem exists_ending {after : Text} (stops : AtLineEnd after) (filled : after ≠ [])
    : ∃ ending rest, after = ending ++ rest
        ∧ SourceLine.WellFormed ⟨[], ending⟩
        ∧ ending ≠ []
        ∧ Apart ending rest := by
  obtain ⟨c, rest, rfl⟩ := List.exists_cons_of_ne_nil filled
  have breaks := stops c rfl
  rw [isLineBreak, Bool.or_eq_true, beq_iff_eq, beq_iff_eq] at breaks
  rcases breaks with rfl | rfl
  · exact ⟨['\n'], rest, rfl, ⟨by simp, by simp⟩, by simp, fun same => by simp at same⟩
  · by_cases paired : rest.head? = some '\n'
    · obtain ⟨more, rfl⟩ : ∃ more, rest = '\n' :: more := by
        cases rest with
        | nil => cases paired
        | cons d more => exact ⟨more, by rw [Option.some.inj paired]⟩
      exact ⟨['\r', '\n'], more, rfl, ⟨by simp, by simp⟩, by simp, fun same => by simp at same⟩
    · exact ⟨['\r'], rest, rfl, ⟨by simp, by simp⟩, by simp, fun _ => paired⟩

theorem splitLines_unbroken {line : Text} (plain : Unbroken line)
    : splitLines line = [⟨line, []⟩] := by
  induction line with
  | nil => rfl
  | cons c line ih =>
      obtain ⟨here, plain⟩ := List.forall_mem_cons.mp plain
      rw [isLineBreak, Bool.or_eq_false_iff, beq_eq_false_iff_ne, beq_eq_false_iff_ne] at here
      obtain ⟨first, lines, split, joined⟩ := splitLines_cons c line here.1 here.2
      rw [ih plain] at split
      obtain ⟨rfl, rfl⟩ := List.cons.inj split
      exact joined

theorem wellFormed_unbroken {line ending : Text} (plain : Unbroken line)
    (known : SourceLine.WellFormed ⟨[], ending⟩)
    : SourceLine.WellFormed ⟨line, ending⟩ := by
  refine ⟨fun c member => ?_, known.ending⟩
  simpa [isLineBreak] using plain c member

theorem splitLines_first {after : Text} (stops : AtLineEnd after)
    : ∃ ending later, ∀ line, Unbroken line → splitLines (line ++ after) = ⟨line, ending⟩ :: later := by
  by_cases filled : after = []
  · subst filled
    exact ⟨[], [], fun line plain => by rw [List.append_nil, splitLines_unbroken plain]⟩
  · obtain ⟨ending, rest, rfl, known, ended, apart⟩ := exists_ending stops filled
    refine ⟨ending, splitLines rest, fun line plain => ?_⟩
    rw [← List.append_assoc]
    exact splitLines_line (wellFormed_unbroken plain known) ended apart

theorem exists_last_line {before : Text} (starts : AtLineStart before) (filled : before ≠ [])
    : ∃ front content ending, before = front ++ (content ++ ending)
        ∧ AtLineStart front
        ∧ SourceLine.WellFormed ⟨content, ending⟩
        ∧ ending ≠ []
        ∧ (['\r', '\n'] <:+ before ↔ ending = ['\r', '\n'])
        ∧ ∃ earlier : List SourceLine, front = (earlier.map SourceLine.text).flatten
          ∧ ∀ rest, Apart ending rest
            → splitLines (before ++ rest) = earlier ++ ⟨content, ending⟩ :: splitLines rest := by
  obtain ⟨body, ending, rfl, known, paired⟩ : ∃ body ending, before = body ++ ending
      ∧ (ending = ['\n'] ∨ ending = ['\r', '\n'] ∨ ending = ['\r'])
      ∧ (['\r', '\n'] <:+ before ↔ ending = ['\r', '\n']) := by
    by_cases paired : ['\r', '\n'] <:+ before
    · obtain ⟨body, rfl⟩ := paired
      exact ⟨body, ['\r', '\n'], rfl, .inr (.inl rfl), by simp⟩
    · obtain ⟨body, c, rfl⟩ : ∃ body c, before = body ++ [c] :=
        ⟨_, _, (List.dropLast_append_getLast filled).symm⟩
      have breaks := starts c (by simp)
      rw [isLineBreak, Bool.or_eq_true, beq_iff_eq, beq_iff_eq] at breaks
      refine ⟨body, [c], rfl, ?_, ⟨fun suffix => absurd suffix paired, fun same => by simp at same⟩⟩
      rcases breaks with rfl | rfl
      · exact .inl rfl
      · exact .inr (.inr rfl)
  have ended : ending ≠ [] := by rcases known with rfl | rfl | rfl <;> simp
  obtain ⟨front, content, back, after, split, atStart, plain, -, -, place⟩ :=
    exists_line (Boundary.utf8Len body)
  obtain ⟨rfl, -⟩ := append_inj_of_utf8Len
    (show body ++ [] = (front ++ content) ++ (back ++ after) by simpa using split)
    (by simpa using place)
  have line : SourceLine.WellFormed ⟨content, ending⟩ := by
    refine ⟨fun c member => ?_, .inr known⟩
    simpa [isLineBreak] using plain c member
  obtain ⟨earlier, whole, -, splits⟩ := exists_lines atStart
  refine ⟨front, content, ending, List.append_assoc _ _ _, atStart, line, ended, paired, earlier,
    whole, fun rest apart => ?_⟩
  have free : front.getLast? = some '\r' → (content ++ (ending ++ rest)).head? ≠ some '\n' := by
    intro last first
    cases content with
    | cons c content =>
        have breaks := plain c List.mem_cons_self
        rw [Option.some.inj first] at breaks
        cases breaks
    | nil =>
        rcases known with rfl | rfl | rfl
        · have suffix : ['\r', '\n'] <:+ front ++ [] ++ ['\n'] := by
            obtain ⟨body, rfl⟩ : ∃ body, front = body ++ ['\r'] :=
              ⟨_, (List.dropLast_append_getLast? _ last).symm⟩
            exact ⟨body, by simp⟩
          have same := paired.mp suffix
          simp at same
        · simp at first
        · simp at first
  rw [List.append_assoc, List.append_assoc, splits _ free, ← List.append_assoc content]
  rw [show content ++ ending = SourceLine.text ⟨content, ending⟩ from rfl,
    splitLines_line line ended apart]

end Hane.Markdown
