import Hane.Document.Text
import Mathlib.Tactic.Common

/-! The physical lines of a text: a line ends after LF, CRLF or a bare CR. -/

namespace Hane.Document

open Hane.Foundations

/-- One physical line: its content and the line ending that closes it, empty at the end of
the text.
-/
structure SourceLine where
  content : Text
  ending : Text
deriving DecidableEq

namespace SourceLine

def text (line : SourceLine) : Text := line.content ++ line.ending

def push (c : Char) (line : SourceLine) : SourceLine := { line with content := c :: line.content }

@[simp] theorem text_push (c : Char) (line : SourceLine)
    : (line.push c).text = c :: line.text := rfl

/-- Content never holds a line-ending character, and the ending is one of the three source
line endings or empty.
-/
@[mk_iff]
structure WellFormed (line : SourceLine) : Prop where
  content : ∀ c ∈ line.content, c ≠ '\n' ∧ c ≠ '\r'
  ending
    : line.ending = [] ∨ line.ending = ['\n'] ∨ line.ending = ['\r', '\n']
      ∨ line.ending = ['\r']

end SourceLine

/-- Extends the first line by one content character. -/
def pushFirst (c : Char) : List SourceLine → List SourceLine
  | [] => [⟨[c], []⟩]
  | line :: rest => line.push c :: rest

/-- The reference splitter: breaks after each LF, CRLF or bare CR. The last line is the one
without an ending, so a text that ends in a line ending has an empty last line.
-/
def splitLines : Text → List SourceLine
  | [] => [⟨[], []⟩]
  | '\r' :: '\n' :: rest => ⟨[], ['\r', '\n']⟩ :: splitLines rest
  | '\r' :: rest => ⟨[], ['\r']⟩ :: splitLines rest
  | '\n' :: rest => ⟨[], ['\n']⟩ :: splitLines rest
  | c :: rest => pushFirst c (splitLines rest)

theorem splitLines_ne_nil (text : Text) : splitLines text ≠ [] := by
  fun_cases splitLines text with
  | case5 c rest _ _ => cases splitLines rest <;> simp [pushFirst]
  | _ => simp

theorem splitLines_cons (c : Char) (rest : Text) (lf : c ≠ '\n') (cr : c ≠ '\r')
    : ∃ line lines,
        splitLines rest = line :: lines
        ∧ splitLines (c :: rest) = line.push c :: lines := by
  obtain ⟨line, lines, split⟩ := List.exists_cons_of_ne_nil (splitLines_ne_nil rest)
  refine ⟨line, lines, split, ?_⟩
  rw [splitLines, split, pushFirst]
  all_goals grind

theorem splitLines_bareCr (rest : Text) (bare : rest.head? ≠ some '\n')
    : splitLines ('\r' :: rest) = ⟨[], ['\r']⟩ :: splitLines rest := by
  rw [splitLines]
  rintro tail rfl
  exact bare rfl

/-- Case analysis on how a text starts, following the splitter's recursion. -/
theorem splitLines_induction {motive : Text → Prop}
    (nil : motive [])
    (crlf : ∀ rest, motive rest → motive ('\r' :: '\n' :: rest))
    (cr : ∀ rest, rest.head? ≠ some '\n' → motive rest → motive ('\r' :: rest))
    (lf : ∀ rest, motive rest → motive ('\n' :: rest))
    (other : ∀ c rest, c ≠ '\n' → c ≠ '\r' → motive rest → motive (c :: rest))
    (text : Text)
    : motive text := by
  induction text using splitLines.induct with
  | case1 => exact nil
  | case2 rest ih => exact crlf rest ih
  | case3 rest bare ih =>
      refine cr rest ?_ ih
      cases rest with
      | nil => simp
      | cons c tail =>
          rintro head
          exact bare tail (by simpa using head)
  | case4 rest ih => exact lf rest ih
  | case5 c rest _ notCr notLf ih => exact other c rest notLf notCr ih

theorem splitLines_flatten (text : Text)
    : ((splitLines text).map SourceLine.text).flatten = text := by
  induction text using splitLines_induction with
  | nil => rfl
  | crlf rest ih => simpa [splitLines, SourceLine.text] using ih
  | cr rest bare ih => simpa [splitLines_bareCr rest bare, SourceLine.text] using ih
  | lf rest ih => simpa [splitLines, SourceLine.text] using ih
  | other c rest lf cr ih =>
      obtain ⟨line, lines, split, joined⟩ := splitLines_cons c rest lf cr
      simp only [split, List.map_cons, List.flatten_cons] at ih
      simp [joined, ih]

/-- Every line is a content without line-ending characters and one source line ending. -/
theorem splitLines_wellFormed (text : Text)
    : ∀ line ∈ splitLines text, line.WellFormed := by
  induction text using splitLines_induction with
  | nil => simp [splitLines, SourceLine.wellFormed_iff]
  | crlf rest ih => simpa [splitLines, SourceLine.wellFormed_iff] using ih
  | cr rest bare ih =>
      simpa [splitLines_bareCr rest bare, SourceLine.wellFormed_iff] using ih
  | lf rest ih => simpa [splitLines, SourceLine.wellFormed_iff] using ih
  | other c rest lf cr ih =>
      obtain ⟨line, lines, split, joined⟩ := splitLines_cons c rest lf cr
      rw [split] at ih
      rw [joined]
      intro found member
      rcases List.mem_cons.mp member with rfl | later
      · have first := ih line (by simp)
        refine ⟨?_, first.ending⟩
        intro d inContent
        rcases List.mem_cons.mp inContent with rfl | deeper
        · exact ⟨lf, cr⟩
        · exact first.content d deeper
      · exact ih found (by simp [later])

end Hane.Document
