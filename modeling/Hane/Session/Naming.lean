import Hane.Document.Text
import Hane.Foundations.PlainText

/-! The title of a note: the first ATX level-1 heading outside fenced code, as the scanner finds it
and as CommonMark reads the document, whose lines also end at a bare CR and lie in list items,
block quotes and HTML blocks.
-/

namespace Hane.Session

open Hane.Document Hane.Foundations

-- The scanner

def backtickFence : Text := ['`', '`', '`']

def tildeFence : Text := ['~', '~', '~']

def fenceOpen (line : Text) : Option Text :=
  if backtickFence.isPrefixOf line then some backtickFence
  else if tildeFence.isPrefixOf line then some tildeFence
  else none

def isFenceClose (line fence : Text) : Bool := fence.isPrefixOf line

/-- `ends_with([' ', '\t'])`. -/
def endsBlank (text : Text) : Bool := text.getLast?.any fun c => c == ' ' || c == '\t'

/-- Strips a trailing run of `#`s set off by a space or a tab. -/
def stripTrailingAtxClose (content : Text) : Text :=
  let withoutHashes := content.rdropWhile (· == '#')
  if withoutHashes.length = content.length ∨ withoutHashes = [] then content
  else if endsBlank withoutHashes then trimEnd withoutHashes
  else content

/-- What stands behind the marker: nothing, or the content behind a space or a tab. -/
def atxContent : Text → Option Text
  | [] => some []
  | ' ' :: content => some content
  | '\t' :: content => some content
  | _ => none

/-- One line as an ATX level-1 heading: exactly one `#`, then white space or the end, then the
content without its closing run.
-/
def atxH1Text : Text → Option Text
  | '#' :: rest =>
      if rest.head? = some '#' then none
      else (atxContent rest).map fun content => trim (stripTrailingAtxClose (trim content))
  | _ => none

/-- The loop of `extract_h1_title` over the lines left, with the fence that is open. -/
def extractFrom : Option Text → List Text → Option Text
  | _, [] => none
  | some fence, line :: rest =>
      if isFenceClose (trimStart line) fence then extractFrom none rest
      else extractFrom (some fence) rest
  | none, line :: rest =>
      match fenceOpen (trimStart line) with
      | some fence => extractFrom (some fence) rest
      | none =>
          match atxH1Text (trimStart line) with
          | some title => if title ≠ [] then some title else extractFrom none rest
          | none => extractFrom none rest

/-- The line without its indentation. More than three spaces are no indentation of a fence or a
heading, and stay.
-/
def unindented (line : Text) : Text :=
  if (line.takeWhile (· == ' ')).length ≤ 3 then line.dropWhile (· == ' ') else line

/-- How many times `mark` stands at the front of a line. -/
def runOf (mark : Char) (line : Text) : Nat := (line.takeWhile (· == mark)).length

/-- An open fenced code block: the character of its fence and how many there are. -/
structure Fence where
  mark : Char
  length : Nat
  visible : isWhitespace mark = false
  long : 3 ≤ length
deriving DecidableEq

/-- The code block a line opens: at least three backticks without another backtick behind them, or
at least three tildes.
-/
def openingFence (line : Text) : Option Fence :=
  let line := unindented line
  if backticks : 3 ≤ runOf '`' line ∧ '`' ∉ line.drop (runOf '`' line) then
    some ⟨'`', runOf '`' line, by decide, backticks.1⟩
  else if tildes : 3 ≤ runOf '~' line then
    some ⟨'~', runOf '~' line, by decide, tildes⟩
  else
    none

/-- A block closes at a line with at least as many of its character and only spaces or tabs
behind them.
-/
def Fence.closedBy (fence : Fence) (line : Text) : Bool :=
  let line := unindented line
  fence.length ≤ runOf fence.mark line
  && (line.drop (runOf fence.mark line)).all fun c => c == ' ' || c == '\t'

/-- The text of a heading behind its marker: trimmed, without a closing run of `#`s that is the
whole of it or set off by a space or a tab.
-/
def headingText (content : Text) : Text :=
  let content := trim content
  let body := content.rdropWhile (· == '#')
  if body = [] ∨ endsBlank body then trim (trimEnd body) else trim content

/-- What an ATX level-1 heading has behind its marker. -/
def headingContent (line : Text) : Option Text :=
  match unindented line with
  | '#' :: rest => atxContent rest
  | _ => none

/-- The title a level-1 heading gives; one whose text is blank gives none. -/
def headingTitle (line : Text) : Option Text :=
  ((headingContent line).map headingText).filter (· ≠ [])

/-- The lines of a document. A line ends at `\n`, at `\r\n` or at a bare `\r`; those that only bare
CRs set apart are one group.
-/
def markdownLines : Text → List (List Text)
  | [] => []
  | '\n' :: rest => [[]] :: markdownLines rest
  | '\r' :: '\n' :: rest => [[]] :: markdownLines rest
  | '\r' :: rest =>
      match markdownLines rest with
      | [] => [[[]]]
      | group :: more => ([] :: group) :: more
  | c :: rest =>
      match markdownLines rest with
      | [] => [[[c]]]
      | [] :: more => [[c]] :: more
      | (line :: group) :: more => ((c :: line) :: group) :: more

/-- A line as CommonMark places it: the innermost list item or block quote it lies in, the text
behind the markers and the indentation of all it lies in, and whether an HTML block holds it.
-/
structure Placed where
  container : Nat
  content : Text
  html : Bool
deriving DecidableEq

/-- A line outside every list item, block quote and HTML block. -/
def Placed.flat (line : Text) : Placed := ⟨0, line, false⟩

/-- The open fenced code block, with the container it lies in. -/
abbrev Block := Option (Nat × Fence)

/-- The open block if a line lies in its container; it ends with its container. -/
def Block.at (block : Block) (line : Placed) : Option Fence :=
  (block.filter fun open_ => open_.1 = line.container).map (·.2)

def titleOf (block : Block) (line : Placed) : Option Text :=
  if (block.at line).isSome ∨ line.html then none else headingTitle line.content

def blockStep (block : Block) (line : Placed) : Block :=
  match block.at line with
  | some fence => if fence.closedBy line.content then none else block
  | none =>
      if line.html then none
      else (openingFence line.content).map fun fence => (line.container, fence)

/-- The block that is open behind the lines, from the one open before them. -/
def blockAfter (block : Block) (lines : List Placed) : Block := lines.foldl blockStep block

/-- Line `index` is a level-1 heading with the text `title`, outside every code block. -/
def TitleAt (block : Block) (lines : List Placed) (index : Nat) (title : Text) : Prop :=
  ∃ line, lines[index]? = some line
    ∧ titleOf (blockAfter block (lines.take index)) line = some title

/-- No line before `index` is a level-1 heading outside the code blocks. -/
def NoTitleBefore (block : Block) (lines : List Placed) (index : Nat) : Prop :=
  ∀ earlier < index, ∀ title, ¬TitleAt block lines earlier title

/-- `title` is the text of the first level-1 heading outside the code blocks; it is `none` if there
is no such heading.
-/
def IsTitle (block : Block) (lines : List Placed) : Option Text → Prop
  | some title => ∃ index, TitleAt block lines index title ∧ NoTitleBefore block lines index
  | none => ∀ index title, ¬TitleAt block lines index title

-- Where the two differ

def scanTitle (fence : Option Text) (line : Text) : Option Text :=
  if fence.isSome ∨ (fenceOpen (trimStart line)).isSome then none
  else (atxH1Text (trimStart line)).filter (· ≠ [])

/-- The fence the scanner holds behind a line. -/
def scanStep (fence : Option Text) (line : Text) : Option Text :=
  match fence with
  | some fence => if isFenceClose (trimStart line) fence then none else some fence
  | none => fenceOpen (trimStart line)

/-- The fence the scanner holds for a block. -/
def Block.held (block : Block) : Option Text :=
  block.map fun (_, fence) => List.replicate 3 fence.mark

/-- The scanner reads one of its lines as CommonMark reads the lines in it: the same title, and
else the same block behind it.
-/
def ReadAlike (block : Block) (line : Text) (group : List Placed) : Prop :=
  IsTitle block group (scanTitle block.held line)
  ∧ (scanTitle block.held line = none → scanStep block.held line = (blockAfter block group).held)

/-- Every line up to the first heading is read alike. -/
def Faithful : Block → List (Text × List Placed) → Prop
  | _, [] => True
  | block, (line, group) :: rest =>
      ReadAlike block line group
      ∧ (scanTitle block.held line = none → Faithful (blockAfter block group) rest)

/-- A line outside a block that is a fence or a heading to the scanner, behind more than three
spaces or behind other white space.
-/
def OverIndented (line : Text) : Prop :=
  ((fenceOpen (trimStart line)).isSome
    ∨ ∃ title ∈ atxH1Text (trimStart line), title ≠ [])
  ∧ trimStart line ≠ unindented line

/-- A line that starts with backticks and has another backtick behind them: no fence. -/
def InlineCode (line : Text) : Prop :=
  3 ≤ runOf '`' (unindented line) ∧ '`' ∈ (unindented line).drop (runOf '`' (unindented line))

/-- A heading that is nothing but its closing run of `#`s. -/
def OnlyClosing (line : Text) : Prop :=
  ∃ content ∈ headingContent line,
    trim content ≠ [] ∧ (trim content).rdropWhile (· == '#') = []

/-- A line in a block that starts like its fence and does not close it: too few characters, an
info string behind them, or too much white space before them.
-/
def InnerFence (fence : Fence) (line : Text) : Prop :=
  isFenceClose (trimStart line) (List.replicate 3 fence.mark) ∧ ¬fence.closedBy line

/-- A line that is something else to the scanner than to CommonMark. -/
def Deceptive : Option Fence → Text → Prop
  | none, line => OverIndented line ∨ InlineCode line ∨ OnlyClosing line
  | some fence, line => InnerFence fence line

instance (block : Option Fence) (line : Text) : Decidable (Deceptive block line) :=
  match block with
  | none => inferInstanceAs (Decidable ((_ ∧ _ ≠ _) ∨ (_ ∧ _ ∈ _) ∨ ∃ content ∈ _, _))
  | some _ => inferInstanceAs (Decidable (_ ∧ ¬_))

-- One line

/-- A line starts with `count` marks exactly when its run of them is as long, by induction on the
count.
-/
theorem replicate_isPrefixOf (mark : Char) (count : Nat) (line : Text)
    : (List.replicate count mark).isPrefixOf line = decide (count ≤ runOf mark line) := by
  induction count generalizing line with
  | zero => simp
  | succ count ih =>
      cases line with
      | nil => simp [List.replicate_succ, runOf]
      | cons c rest =>
          rw [List.replicate_succ, List.isPrefixOf_cons_cons, ih]
          by_cases same : c = mark
          · subst same
            rw [beq_self_eq_true, Bool.true_and]
            refine decide_eq_decide.mpr ?_
            simp [runOf]
          · simp [runOf, same, Ne.symm same]

theorem trimStart_unindented (line : Text) : trimStart (unindented line) = trimStart line := by
  unfold unindented
  split
  · refine trimStart_dropWhile (fun c space => ?_) line
    obtain rfl := eq_of_beq space
    decide
  · rfl

theorem fenceOpen_eq (line : Text)
    : fenceOpen line
      = if 3 ≤ runOf '`' line then some (List.replicate 3 '`')
        else if 3 ≤ runOf '~' line then some (List.replicate 3 '~') else none := by
  have backticks := replicate_isPrefixOf '`' 3 line
  have tildes := replicate_isPrefixOf '~' 3 line
  unfold fenceOpen backtickFence tildeFence
  simp only [List.replicate_succ, List.replicate_zero] at backticks tildes ⊢
  rw [backticks, tildes]
  simp only [decide_eq_true_eq]

theorem runOf_other {mark c : Char} {line rest : Text} (split : line = c :: rest)
    (different : c ≠ mark)
    : runOf mark line = 0 := by
  simp [runOf, split, different]

theorem eq_cons_of_runOf {mark : Char} {line : Text} (run : 0 < runOf mark line)
    : ∃ rest, line = mark :: rest := by
  cases line with
  | nil => cases run
  | cons c rest =>
      by_contra other
      have different : c ≠ mark := fun same => other ⟨rest, by rw [same]⟩
      rw [runOf_other rfl different] at run
      cases run

theorem trimStart_of_visible {line rest : Text} {c : Char} (split : unindented line = c :: rest)
    (visible : isWhitespace c = false)
    : trimStart line = unindented line := by
  rw [← trimStart_unindented, split]
  exact List.dropWhile_cons_of_neg (by rw [visible]; decide)

theorem runOf_white {mark c : Char} {line rest : Text} (split : line = c :: rest)
    (visible : isWhitespace mark = false) (white : isWhitespace c = true)
    : runOf mark line = 0 := by
  refine runOf_other split ?_
  rintro rfl
  rw [visible] at white
  cases white

theorem openingFence_none {line : Text} (backticks : runOf '`' (unindented line) = 0)
    (tildes : runOf '~' (unindented line) = 0)
    : openingFence line = none := by
  simp [openingFence, backticks, tildes]

theorem fenceOpen_openingFence {line : Text} (plain : ¬Deceptive none line)
    : fenceOpen (trimStart line)
      = (openingFence line).map fun fence => List.replicate 3 fence.mark := by
  simp only [Deceptive, not_or] at plain
  obtain ⟨indent, inline, _⟩ := plain
  rcases trimStart_eq_or (unindented line) with trimmed | ⟨c, rest, split, white⟩
  · rw [trimStart_unindented] at trimmed
    rw [trimmed, fenceOpen_eq]
    unfold openingFence
    by_cases backticks : 3 ≤ runOf '`' (unindented line)
    · have alone : '`' ∉ (unindented line).drop (runOf '`' (unindented line)) :=
        fun again => inline ⟨backticks, again⟩
      simp [backticks, alone]
    · by_cases tildes : 3 ≤ runOf '~' (unindented line)
      · simp [backticks, tildes]
      · simp [backticks, tildes]
  · rw [openingFence_none (runOf_white split (by decide) white)
      (runOf_white split (by decide) white), Option.map_none]
    by_contra opened
    refine indent ⟨.inl (Option.isSome_iff_ne_none.mpr opened), fun same => ?_⟩
    rw [same, split] at opened
    refine opened ?_
    rw [fenceOpen_eq, runOf_white rfl (by decide) white, runOf_white rfl (by decide) white]
    rfl

theorem atxH1Text_white {c : Char} {rest : Text} (white : isWhitespace c = true)
    : atxH1Text (c :: rest) = none := by
  have different : c ≠ '#' := by
    rintro rfl
    cases white
  unfold atxH1Text
  split
  · next same => exact absurd (List.cons.inj same).1 different
  · rfl

theorem headingContent_white {line : Text} {c : Char} {rest : Text}
    (split : unindented line = c :: rest) (white : isWhitespace c = true)
    : headingContent line = none := by
  have different : c ≠ '#' := by
    rintro rfl
    cases white
  unfold headingContent
  rw [split]
  split
  · next same => exact absurd (List.cons.inj same).1 different
  · rfl

/-- A heading's text behind its closing run, unless the run is all of it. -/
theorem headingText_eq {content : Text}
    (more : trim content ≠ [] → (trim content).rdropWhile (· == '#') ≠ [])
    : trim (stripTrailingAtxClose (trim content)) = headingText content := by
  unfold stripTrailingAtxClose headingText
  simp only
  by_cases all : (trim content).rdropWhile (· == '#') = []
  · have blank : trim content = [] := by_contra fun some_ => more some_ all
    rw [blank]
    rfl
  · by_cases whole : ((trim content).rdropWhile (· == '#')).length = (trim content).length
    · have same := (List.rdropWhile_prefix (· == '#') (trim content)).eq_of_length whole
      have trimmed : trimEnd (trim content) = trim content := List.rdropWhile_idempotent _ _
      rw [if_pos (.inl whole), same, trimmed, ite_self]
    · rw [if_neg (not_or.mpr ⟨whole, all⟩)]
      simp only [all, false_or]
      split <;> rfl

/-- The scanner finds the title of a heading outside a block where CommonMark does, at any line
that is not deceptive.
-/
theorem atxH1Text_headingTitle {line : Text} (plain : ¬Deceptive none line)
    : (atxH1Text (trimStart line)).filter (· ≠ []) = headingTitle line := by
  simp only [Deceptive, not_or] at plain
  obtain ⟨indent, _, closing⟩ := plain
  rcases trimStart_eq_or (unindented line) with trimmed | ⟨c, rest, split, white⟩
  · rw [trimStart_unindented] at trimmed
    rw [trimmed, headingTitle]
    congr 1
    cases marker : unindented line with
    | nil => simp [atxH1Text, headingContent, marker]
    | cons c rest =>
        by_cases hash : c = '#'
        · subst hash
          have content : headingContent line = atxContent rest := by simp [headingContent, marker]
          rw [content]
          by_cases deeper : rest.head? = some '#'
          · obtain ⟨more, rfl⟩ := List.head?_eq_some_iff.mp deeper
            rfl
          · rw [atxH1Text, if_neg deeper]
            refine Option.map_congr fun text found => headingText_eq fun some_ all => ?_
            exact closing ⟨text, content.trans found, some_, all⟩
        · simp [atxH1Text, headingContent, marker, hash]
  · rw [headingTitle, headingContent_white split white, Option.map_none, Option.filter_none]
    by_contra titled
    obtain ⟨title, found⟩ := Option.ne_none_iff_exists'.mp titled
    obtain ⟨found, some_⟩ := Option.filter_eq_some_iff.mp found
    refine indent ⟨.inr ⟨title, found, of_decide_eq_true some_⟩, fun same => ?_⟩
    rw [same, split, atxH1Text_white white] at found
    cases found

theorem isFenceClose_closedBy {fence : Fence} {line : Text}
    (plain : ¬Deceptive (some fence) line)
    : isFenceClose (trimStart line) (List.replicate 3 fence.mark) = fence.closedBy line := by
  by_cases closed : fence.closedBy line = true
  · rw [closed]
    have run : fence.length ≤ runOf fence.mark (unindented line) := by
      simp only [Fence.closedBy, Bool.and_eq_true, decide_eq_true_eq] at closed
      exact closed.1
    rcases trimStart_eq_or (unindented line) with trimmed | ⟨c, rest, split, white⟩
    · rw [trimStart_unindented] at trimmed
      rw [isFenceClose, replicate_isPrefixOf, trimmed, decide_eq_true_eq]
      exact fence.long.trans run
    · rw [runOf_white split fence.visible white] at run
      exact absurd (fence.long.trans run) (by decide)
  · by_contra differ
    rw [Bool.not_eq_true] at closed
    rw [closed, Bool.not_eq_false] at differ
    exact plain ⟨differ, by rw [closed]; decide⟩

-- The lines of a document

section Lines

variable {block : Block} {line : Placed} {lines rest : List Placed} {title : Text}

theorem titleAt_zero : TitleAt block (line :: rest) 0 title ↔ titleOf block line = some title := by
  simp [TitleAt, blockAfter]

theorem titleAt_succ {index : Nat}
    : TitleAt block (line :: rest) (index + 1) title
      ↔ TitleAt (blockStep block line) rest index title := by
  simp [TitleAt, blockAfter]

theorem isTitle_nil {found : Option Text} : IsTitle block [] found ↔ found = none := by
  have never : ∀ index title, ¬TitleAt block [] index title := by
    rintro index title ⟨line, at_, _⟩
    cases at_
  cases found with
  | none => exact iff_of_true never rfl
  | some title => exact iff_of_false (fun ⟨index, found, _⟩ => never index title found) nofun

/-- Before the first heading a line only moves the block. -/
theorem isTitle_cons (untitled : titleOf block line = none) (rest : List Placed)
    (found : Option Text)
    : IsTitle block (line :: rest) found ↔ IsTitle (blockStep block line) rest found := by
  have first : ∀ title, ¬TitleAt block (line :: rest) 0 title := by
    intro title found
    rw [titleAt_zero, untitled] at found
    cases found
  cases found with
  | none =>
      constructor
      · exact fun none_ index title found => none_ (index + 1) title (titleAt_succ.mpr found)
      · intro none_ index title found
        cases index with
        | zero => exact first title found
        | succ index => exact none_ index title (titleAt_succ.mp found)
  | some title =>
      constructor
      · rintro ⟨index, found, before⟩
        cases index with
        | zero => exact absurd found (first title)
        | succ index =>
            exact ⟨index, titleAt_succ.mp found, fun earlier below other early =>
              before (earlier + 1) (by omega) other (titleAt_succ.mpr early)⟩
      · rintro ⟨index, found, before⟩
        refine ⟨index + 1, titleAt_succ.mpr found, fun earlier below other early => ?_⟩
        cases earlier with
        | zero => exact first other early
        | succ earlier => exact before earlier (by omega) other (titleAt_succ.mp early)

theorem isTitle_head (titled : titleOf block line = some title) (rest : List Placed)
    (found : Option Text)
    : IsTitle block (line :: rest) found ↔ found = some title := by
  have first : TitleAt block (line :: rest) 0 title := titleAt_zero.mpr titled
  cases found with
  | none => exact ⟨fun none_ => absurd first (none_ 0 title), fun wrong => nomatch wrong⟩
  | some other =>
      constructor
      · rintro ⟨index, at_, before⟩
        cases index with
        | zero => exact (titleAt_zero.mp at_).symm.trans titled
        | succ index => exact absurd first (before 0 (by omega) title)
      · rintro ⟨rfl⟩
        exact ⟨0, first, fun earlier before => absurd before (by omega)⟩

instance decidableIsTitle : (block : Block) → (lines : List Placed)
    → (found : Option Text) → Decidable (IsTitle block lines found)
  | _, [], _ => decidable_of_iff _ isTitle_nil.symm
  | block, line :: rest, found =>
      match titled : titleOf block line with
      | some title => decidable_of_iff (found = some title) (isTitle_head titled rest found).symm
      | none =>
          have := decidableIsTitle (blockStep block line) rest found
          decidable_of_iff _ (isTitle_cons titled rest found).symm

end Lines

/-- The lines of a document without containers and bare CRs. -/
def flatLines (lines : List Text) : List (Text × List Placed) :=
  lines.map fun line => (line, [.flat line])

/-- The block behind a line that no container holds. -/
def flatStep : Option Fence → Text → Option Fence
  | none, line => openingFence line
  | some fence, line => if fence.closedBy line then none else some fence

/-- A block of such a document. -/
def flatBlock (fence : Option Fence) : Block := fence.map fun fence => (0, fence)

/-- No line up to the first heading is deceptive. -/
def Plain : Option Fence → List Text → Prop
  | _, [] => True
  | fence, line :: rest =>
      ¬Deceptive fence line
      ∧ (titleOf (flatBlock fence) (.flat line) = none → Plain (flatStep fence line) rest)

instance decidablePlain : (fence : Option Fence) → (lines : List Text)
    → Decidable (Plain fence lines)
  | _, [] => .isTrue trivial
  | fence, line :: rest =>
      have := decidablePlain (flatStep fence line) rest
      inferInstanceAs (Decidable (_ ∧ (_ → _)))

/-- A heading that shows which block a scan is in. -/
def probe : Text := ['#', ' ', 'x']

/-- The document ends behind these lines, or goes on with one heading, and the scanner does not
return its title.
-/
def Misread (fence : Option Fence) (lines : List Text) : Prop :=
  ∃ more, (more = [] ∨ more = [probe])
    ∧ ¬IsTitle (flatBlock fence) ((lines ++ more).map .flat)
      (extractFrom (flatBlock fence).held (lines ++ more))

section Flat

variable {fence : Option Fence} {line : Text}

theorem at_flat : (flatBlock fence).at (.flat line) = fence := by
  cases fence <;> simp [flatBlock, Block.at, Placed.flat, Option.filter]

theorem titleOf_flat
    : titleOf (flatBlock fence) (.flat line)
      = if fence.isSome then none else headingTitle line := by
  rw [titleOf, at_flat]
  simp [Placed.flat]

theorem blockStep_flat
    : blockStep (flatBlock fence) (.flat line) = flatBlock (flatStep fence line) := by
  unfold blockStep
  rw [at_flat]
  cases fence with
  | some fence =>
      by_cases closed : fence.closedBy line <;>
        simp [flatStep, Placed.flat, closed, flatBlock]
  | none => rfl

theorem headingContent_some {content : Text} (heading : headingContent line = some content)
    : ∃ rest, unindented line = '#' :: rest ∧ atxContent rest = some content := by
  cases marker : unindented line with
  | nil => simp [headingContent, marker] at heading
  | cons c rest =>
      by_cases hash : c = '#'
      · subst hash
        exact ⟨rest, rfl, by simpa [headingContent, marker] using heading⟩
      · simp [headingContent, marker, hash] at heading

theorem openingFence_heading {content : Text} (heading : headingContent line = some content)
    : openingFence line = none := by
  obtain ⟨rest, marker, _⟩ := headingContent_some heading
  exact openingFence_none (runOf_other marker (by decide)) (runOf_other marker (by decide))

theorem scanTitle_flat (plain : ¬Deceptive fence line)
    : scanTitle (flatBlock fence).held line = titleOf (flatBlock fence) (.flat line) := by
  rw [titleOf_flat]
  cases fence with
  | some fence => rfl
  | none =>
      have opens := fenceOpen_openingFence plain
      have titles := atxH1Text_headingTitle plain
      simp only [flatBlock, Block.held, Option.map_none, scanTitle, Option.isSome_none,
        Bool.false_eq_true, false_or, opens, Option.isSome_map, titles, if_false]
      cases heading : headingContent line with
      | none => simp [headingTitle, heading]
      | some content => simp [openingFence_heading heading]

theorem scanStep_flat (plain : ¬Deceptive fence line)
    : scanStep (flatBlock fence).held line = (flatBlock (flatStep fence line)).held := by
  cases fence with
  | some fence =>
      have closes := isFenceClose_closedBy plain
      simp only [flatBlock, Block.held, Option.map_some, scanStep, closes, flatStep]
      split <;> rfl
  | none =>
      have opens := fenceOpen_openingFence plain
      simp only [flatBlock, Block.held, Option.map_none, scanStep, opens, flatStep,
        Option.map_map]
      rfl

theorem readAlike_flat (plain : ¬Deceptive fence line)
    : ReadAlike (flatBlock fence) line [.flat line] := by
  refine ⟨?_, fun _ => ?_⟩
  · rw [scanTitle_flat plain]
    cases titled : titleOf (flatBlock fence) (.flat line) with
    | none => exact (isTitle_cons titled _ _).mpr (isTitle_nil.mpr rfl)
    | some title => exact (isTitle_head titled _ _).mpr rfl
  · rw [scanStep_flat plain, ← blockStep_flat]
    rfl

/-- At a deceptive line the scanner returns what is no title, or is in another block than
CommonMark behind it.
-/
theorem Deceptive.misread (deceptive : Deceptive fence line) : Misread fence [line] := by
  have shown : ∀ block : Block, block.at (.flat probe) = none
      → titleOf block (.flat probe) = some ['x'] := by
    intro block outside
    rw [titleOf, outside]
    decide
  cases fence with
  | some fence =>
      obtain ⟨closes, stays⟩ := deceptive
      have inside : titleOf (flatBlock (some fence)) (.flat line) = none := titleOf_flat
      have inside' : titleOf (flatBlock (some fence)) (.flat probe) = none := titleOf_flat
      refine ⟨[probe], .inr rfl, fun found => ?_⟩
      have step : flatStep (some fence) line = some fence := if_neg stays
      rw [List.singleton_append, List.map_cons, List.map_singleton, isTitle_cons inside,
        blockStep_flat, step, isTitle_cons inside', isTitle_nil] at found
      simp only [flatBlock, Block.held, Option.map_some, extractFrom, if_pos closes] at found
      exact absurd found (by decide)
  | none =>
      -- Where CommonMark sees neither a fence nor a heading, either is misread.
      have passed : openingFence line = none → headingTitle line = none →
          (fenceOpen (trimStart line)).isSome
            ∨ (∃ title ∈ atxH1Text (trimStart line), title ≠ []) →
          Misread none [line] := by
        intro unopened untitled looks
        have untitled : titleOf (flatBlock none) (.flat line) = none :=
          titleOf_flat.trans untitled
        have step : flatStep none line = none := unopened
        cases opens : fenceOpen (trimStart line) with
        | some fence =>
            refine ⟨[probe], .inr rfl, fun found => ?_⟩
            rw [List.singleton_append, List.map_cons, List.map_singleton,
              isTitle_cons untitled, blockStep_flat, step,
              isTitle_head (shown _ at_flat)] at found
            simp only [flatBlock, Block.held, Option.map_none, extractFrom, opens] at found
            split at found
            all_goals cases found
        | none =>
            obtain ⟨title, read, some_⟩ := looks.resolve_left (by simp [opens])
            refine ⟨[], .inl rfl, fun found => ?_⟩
            rw [List.append_nil, List.map_singleton, isTitle_cons untitled, isTitle_nil] at found
            simp only [flatBlock, Block.held, Option.map_none, extractFrom, opens,
              Option.mem_def.mp read, some_, ne_eq, not_false_eq_true, if_true] at found
            cases found
      rcases deceptive with ⟨looks, further⟩ | ⟨long, again⟩ | ⟨content, heading, some_, all⟩
      · obtain trimmed | ⟨c, rest, split, white⟩ := trimStart_eq_or (unindented line)
        · rw [trimStart_unindented] at trimmed
          exact absurd trimmed further
        · refine passed (openingFence_none (runOf_white split (by decide) white)
            (runOf_white split (by decide) white)) ?_ looks
          rw [headingTitle, headingContent_white split white]
          rfl
      · obtain ⟨rest, split⟩ := eq_cons_of_runOf (show 0 < runOf '`' (unindented line) by omega)
        have tildes : runOf '~' (unindented line) = 0 := runOf_other split (by decide)
        refine passed (by simp [openingFence, again, tildes]) ?_ (.inl ?_)
        · simp [headingTitle, headingContent, split]
        · rw [trimStart_of_visible split (by decide), fenceOpen_eq, if_pos long]
          rfl
      · refine passed (openingFence_heading heading) ?_ (.inr ?_)
        · simp [headingTitle, Option.mem_def.mp heading, headingText, all]
          decide
        · obtain ⟨rest, split, rest_⟩ := headingContent_some heading
          rw [trimStart_of_visible split (by decide), split]
          refine ⟨trim content, ?_, some_⟩
          have single : rest.head? ≠ some '#' := by
            intro deeper
            obtain ⟨more, rfl⟩ := List.head?_eq_some_iff.mp deeper
            cases rest_
          rw [Option.mem_def, atxH1Text, if_neg single, rest_, Option.map_some,
            stripTrailingAtxClose, if_pos (.inr all), trim_trim]

/-- Lines without a deceptive one are read alike, by induction on them. -/
theorem Plain.faithful {lines : List Text} (plain : Plain fence lines)
    : Faithful (flatBlock fence) (flatLines lines) := by
  induction lines generalizing fence with
  | nil => trivial
  | cons line rest ih =>
      obtain ⟨here, later⟩ := plain
      refine ⟨readAlike_flat here, fun untitled => ?_⟩
      rw [scanTitle_flat here] at untitled
      have behind := ih (later untitled)
      rwa [← blockStep_flat] at behind

end Flat

instance decidableFaithful : (block : Block) → (document : List (Text × List Placed))
    → Decidable (Faithful block document)
  | _, [] => .isTrue trivial
  | block, (_, group) :: rest =>
      have := decidableFaithful (blockAfter block group) rest
      inferInstanceAs (Decidable ((_ ∧ (_ → _)) ∧ (_ → _)))

end Hane.Session
