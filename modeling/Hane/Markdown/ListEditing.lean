import Hane.Markdown.ListProjection

/-! Planning a list edit at the caret as one replacement of source text. -/

namespace Hane.Markdown

open Hane.Document Hane.Foundations

inductive ListEditIntent where
  | enter
  | shiftEnter
  | indent
  | outdent
  | backspace
deriving DecidableEq

structure SourceSelection where
  anchor : Nat
  active : Nat
deriving DecidableEq

namespace SourceSelection

def caret (offset : Nat) : SourceSelection := ⟨offset, offset⟩

def isCaret (selection : SourceSelection) : Bool := selection.anchor == selection.active

end SourceSelection

inductive MarkdownEditPlan where
  | replace (range : SourceRange) (replacement : Text) (selectionAfter : SourceSelection)
  | noOp (selectionAfter : SourceSelection)
deriving DecidableEq

inductive ListEditPlanResult where
  | handled (plan : MarkdownEditPlan)
  | notApplicable
deriving DecidableEq

-- Shifting a subtree

/-- The lines of a text; nothing follows the last line ending. -/
def splitPhysicalLines (text : Text) : List SourceLine :=
  (splitLines text).filter fun line => !line.text.isEmpty

def removeColumnsFrom (columnsToRemove removed : Nat) : Text → Text
  | [] => []
  | c :: rest =>
      if c = ' ' ∧ removed < columnsToRemove then
        removeColumnsFrom columnsToRemove (removed + 1) rest
      else if c = '\t' ∧ removed < columnsToRemove then
        removeColumnsFrom columnsToRemove (removed + 4) rest
      else
        c :: rest

/-- A line without white space at its start, where a tab counts four. -/
def removeColumns (line : Text) (columnsToRemove : Nat) : Text :=
  removeColumnsFrom columnsToRemove 0 line

def transformLine (delta : Int) (line : SourceLine) : SourceLine :=
  if 0 ≤ delta then
    { line with content := List.replicate delta.toNat ' ' ++ line.content }
  else
    { line with content := removeColumns line.content (-delta).toNat }

def transformSubtree (source : Text) (item : ListEditItem) (delta : Int) (caret : Nat)
    : MarkdownEditPlan :=
  let range := item.subtreeRange
  let original := (slice? source range.start range.stop).getD []
  let replacement := ((splitPhysicalLines original).map fun line =>
    (transformLine delta line).text).flatten
  let mapped :=
    if 0 ≤ delta then
      caret + delta.toNat
    else
      max (caret - (-delta).toNat) (lineStart source caret)
  .replace range replacement (.caret mapped)

-- Leaving a list

def exitIsTrustworthy (item : ListEditItem) : Bool :=
  if item.depth ≤ 1 then
    item.isParserItem
  else
    item.isParserItem || item.parentItem.isSome || item.previousSibling.isSome

def exitIsSafeToCollapse (source : Text) (item : ListEditItem) : Bool :=
  if item.inQuote then
    false
  else if item.depth > 1 then
    true
  else
    item.subtreeRange.stop ≤ lineEndInclusive source item.prefixRange.start

/-- Where the line ending in front of a line starts. -/
def terminatorStart (source : Text) (start : Nat) : Nat :=
  if ['\r', '\n'] <:+ substring source 0 start then start - 2 else start - 1

def lineTerminatorBefore (source : Text) (start : Nat) : Text :=
  substring source (terminatorStart source start) start

def previousLineIsBlank (source : Text) (itemLineStart : Nat) : Bool :=
  let contentEnd := terminatorStart source itemLineStart
  isAsciiBlank (substring source (lineStart source contentEnd) contentEnd)

def followingLineIsBlank (source : Text) (followingLineStart : Nat) : Bool :=
  isAsciiBlank (substring source followingLineStart (lineEnd source followingLineStart))

def exitTopLevelItem (source : Text) (item : ListEditItem) : MarkdownEditPlan :=
  let start := item.prefixRange.start
  let lineTextEnd := item.prefixRange.stop
  let afterLine := lineEndInclusive source start
  let leftSeparator :=
    if start > 0 && !previousLineIsBlank source start then lineTerminatorBefore source start else []
  let rightSeparator :=
    if afterLine < utf8Len source && !followingLineIsBlank source afterLine then
      substring source lineTextEnd afterLine
    else
      []
  .replace item.prefixRange (leftSeparator ++ rightSeparator)
    (.caret (start + utf8Len leftSeparator))

-- Plans

/-- Replaces a range of a document, which the buffer refuses unless it lies between characters. -/
def replaceRange (document : Text) (range : SourceRange) (replacement : Text) : Option Text :=
  if range.start ≤ range.stop ∧ Boundary document range.start ∧ Boundary document range.stop then
    some (substring document 0 range.start ++ replacement
      ++ substring document range.stop (utf8Len document))
  else
    none

/-- A document before and after one of its ranges became another text. -/
def Replaces (document : Text) (range : SourceRange) (replacement edited : Text) : Prop :=
  ∃ front middle back, document = front ++ (middle ++ back)
    ∧ range = ⟨utf8Len front, utf8Len front + utf8Len middle⟩
    ∧ edited = front ++ replacement ++ back

theorem replaceRange_eq (before middle after text : Text)
    : replaceRange (before ++ (middle ++ after))
        ⟨utf8Len before, utf8Len before + utf8Len middle⟩ text
      = some (before ++ text ++ after) := by
  have first := Boundary.of_append before (middle ++ after)
  have last := Boundary.of_append (before ++ middle) after
  rw [utf8Len_append, List.append_assoc] at last
  have back := substring_back (before ++ middle) after
  rw [utf8Len_append before, List.append_assoc] at back
  rw [replaceRange, if_pos ⟨Nat.le_add_right _ _, first, last⟩, substring_front, back]

theorem replaceRange_eq_some_iff {document : Text} {range : SourceRange}
    {replacement edited : Text}
    : replaceRange document range replacement = some edited
      ↔ Replaces document range replacement edited := by
  constructor
  · intro replaced
    have inside : range.start ≤ range.stop ∧ Boundary document range.start
        ∧ Boundary document range.stop := by
      by_contra outside
      rw [replaceRange, if_neg outside] at replaced
      cases replaced
    obtain ⟨front, middle, back, split, first, last⟩ := inside.2.1.split inside.2.2 inside.1
    rw [List.append_assoc] at split
    have place : range = ⟨utf8Len front, utf8Len front + utf8Len middle⟩ := by
      rw [last, first]
    rw [split, place, replaceRange_eq] at replaced
    exact ⟨front, middle, back, split, place, (Option.some.inj replaced).symm⟩
  · rintro ⟨front, middle, back, rfl, rfl, rfl⟩
    exact replaceRange_eq front middle back replacement

def u64Max : Nat := 2 ^ 64 - 1

/-- `u64::saturating_add`. -/
def saturatingAdd (left right : Nat) : Nat := min (left + right) u64Max

def nextNumber (item : ListEditItem) : Nat :=
  saturatingAdd (saturatingAdd (item.listStart.getD 1) item.ordinal) 1

/-- What opens the item behind an item: its indentation, marker and separator. -/
def itemPrefix (source : Text) (item : ListEditItem) : Text :=
  let indent := (slice? source item.prefixRange.start item.markerRange.start).getD []
  let marker :=
    match item.marker with
    | .unordered bullet => [bullet]
    | .ordered delimiter => Nat.toDigits 10 (nextNumber item) ++ [delimiter]
  let separator := if item.task.isSome then [' ', '[', ' ', ']', ' '] else [' ']
  indent ++ marker ++ separator

def insertAt (caret : Nat) (text : Text) : MarkdownEditPlan :=
  .replace (.empty caret) text (.caret (caret + utf8Len text))

/-- The columns an item moves by in front of what comes before it. -/
def indentBy (projection : ListEditProjection) (item : ListEditItem) : Option Nat :=
  (item.previousSibling.bind fun index => projection.items[index]?).map fun previous =>
    previous.bodyIndentColumns - item.markerIndentColumns

/-- The columns from an item back to the item around it. -/
def outdentBy (projection : ListEditProjection) (item : ListEditItem) : Option Nat :=
  (item.parentItem.bind fun index => projection.items[index]?).map fun parent =>
    item.markerIndentColumns - parent.markerIndentColumns

/-- Enter or Backspace behind the marker of an item without content. -/
def planExit (source : Text) (projection : ListEditProjection) (item : ListEditItem)
    (selection : SourceSelection) : ListEditPlanResult :=
  let caret := selection.active
  if caret ≠ item.bodyRange.start then
    .notApplicable
  else if !exitIsTrustworthy item then
    .notApplicable
  else if !exitIsSafeToCollapse source item then
    .handled (.noOp selection)
  else if item.depth ≤ 1 then
    .handled (exitTopLevelItem source item)
  else
    match outdentBy projection item with
    | none => .notApplicable
    | some delta => .handled (transformSubtree source item (-delta) caret)

/-- Plans a list edit in the full text of a document. -/
def planListEdit (source : Text) (projection : ListEditProjection) (selection : SourceSelection)
    (intent : ListEditIntent) : ListEditPlanResult :=
  if !selection.isCaret then
    .notApplicable
  else
    let caret := selection.active
    match projection.itemAt caret with
    | none => .notApplicable
    | some item =>
        let openingLineStart := lineStart source item.prefixRange.start
        let onOpeningLine :=
          item.prefixRange.start ≤ caret && caret ≤ item.bodyRange.stop
            && lineStart source caret == openingLineStart
        let empty := slice? source item.bodyRange.start item.bodyRange.stop == some []
        match intent with
        | .indent =>
            if !onOpeningLine then
              .notApplicable
            else
              match indentBy projection item with
              | none | some 0 => .handled (.noOp selection)
              | some delta => .handled (transformSubtree source item delta caret)
        | .outdent =>
            if !onOpeningLine || item.depth ≤ 1 then
              .handled (.noOp selection)
            else
              match outdentBy projection item with
              | none | some 0 => .handled (.noOp selection)
              | some delta => .handled (transformSubtree source item (-delta) caret)
        | .shiftEnter =>
            if !onOpeningLine then
              .notApplicable
            else
              .handled (insertAt caret ('\n' :: List.replicate item.bodyIndentColumns ' '))
        | .enter =>
            if empty && onOpeningLine then
              planExit source projection item selection
            else if !onOpeningLine then
              .notApplicable
            else
              .handled (insertAt caret ('\n' :: itemPrefix source item))
        | .backspace =>
            if empty && onOpeningLine then
              planExit source projection item selection
            else
              .notApplicable

theorem planExit_of_empty {source : Text} {projection : ListEditProjection}
    {selection : SourceSelection} {item : ListEditItem} {intent : ListEditIntent}
    {plan : MarkdownEditPlan} (found : projection.itemAt selection.active = some item)
    (empty : slice? source item.bodyRange.start item.bodyRange.stop = some [])
    (key : intent = .enter ∨ intent = .backspace)
    (planned : planListEdit source projection selection intent = .handled plan)
    : planExit source projection item selection = .handled plan := by
  rw [planListEdit] at planned
  split at planned
  · cases planned
  · rcases key with rfl | rfl
    · simp only [found, empty, beq_self_eq_true, Bool.true_and] at planned
      split at planned
      · exact planned
      · rename_i away
        rw [Bool.not_eq_true] at away
        simp [away] at planned
    · simp only [found, empty, beq_self_eq_true, Bool.true_and] at planned
      split at planned
      · exact planned
      · cases planned

/-- What leaving a list does: nothing, the removal of a marker or a move to the level above. -/
theorem planExit_cases {source : Text} {projection : ListEditProjection} {item : ListEditItem}
    {selection : SourceSelection} {plan : MarkdownEditPlan}
    (planned : planExit source projection item selection = .handled plan)
    : plan = .noOp selection
      ∨ item.inQuote = false ∧ item.depth ≤ 1 ∧ plan = exitTopLevelItem source item
      ∨ item.inQuote = false ∧ 1 < item.depth ∧ ∃ delta, outdentBy projection item = some delta
        ∧ plan = transformSubtree source item (-delta) selection.active := by
  rw [planExit] at planned
  split at planned
  · cases planned
  split at planned
  · cases planned
  split at planned
  · exact .inl (ListEditPlanResult.handled.inj planned).symm
  · rename_i safe
    have free : item.inQuote = false := by
      by_contra quoted
      simp [exitIsSafeToCollapse, quoted] at safe
    split at planned
    · rename_i top
      exact .inr (.inl ⟨free, top, (ListEditPlanResult.handled.inj planned).symm⟩)
    · rename_i nested
      cases amount : outdentBy projection item with
      | none => simp [amount] at planned
      | some delta =>
          simp only [amount] at planned
          exact .inr (.inr ⟨free, Nat.lt_of_not_le nested, delta, rfl,
            (ListEditPlanResult.handled.inj planned).symm⟩)

theorem onOpeningLine_of_replace {source : Text} {projection : ListEditProjection}
    {selection : SourceSelection} {item : ListEditItem} {intent : ListEditIntent}
    {range : SourceRange} {replacement : Text} {selectionAfter : SourceSelection}
    (found : projection.itemAt selection.active = some item)
    (planned
      : planListEdit source projection selection intent
        = .handled (.replace range replacement selectionAfter))
    : item.prefixRange.start ≤ selection.active ∧ selection.active ≤ item.bodyRange.stop := by
  by_contra outside
  have away : (item.prefixRange.start ≤ selection.active
      && selection.active ≤ item.bodyRange.stop) = false := by
    simpa using outside
  rw [planListEdit] at planned
  split at planned
  · cases planned
  · cases intent <;> simp [found, away] at planned

def columnsMoved (projection : ListEditProjection) (item : ListEditItem)
    : ListEditIntent → Option Int
  | .indent => (indentBy projection item).map fun (delta : Nat) => (delta : Int)
  | .outdent | .enter | .backspace =>
      (outdentBy projection item).map fun (delta : Nat) => -(delta : Int)
  | .shiftEnter => none

theorem transformSubtree_of_planned {source : Text} {projection : ListEditProjection}
    {selection : SourceSelection} {item : ListEditItem} {intent : ListEditIntent} {delta : Int}
    {range : SourceRange} {replacement : Text} {selectionAfter : SourceSelection}
    (found : projection.itemAt selection.active = some item)
    (moves : columnsMoved projection item intent = some delta)
    (exits
      : intent = .enter ∨ intent = .backspace
        → slice? source item.bodyRange.start item.bodyRange.stop = some [] ∧ 1 < item.depth)
    (planned
      : planListEdit source projection selection intent
        = .handled (.replace range replacement selectionAfter))
    : transformSubtree source item delta selection.active
      = .replace range replacement selectionAfter := by
  by_cases key : intent = .enter ∨ intent = .backspace
  · obtain ⟨empty, nested⟩ := exits key
    have amount : (outdentBy projection item).map (fun (delta : Nat) => -(delta : Int))
        = some delta := by
      rcases key with rfl | rfl
      · exact moves
      · exact moves
    rcases planExit_cases (planExit_of_empty found empty key planned) with
      same | ⟨-, top, -⟩ | ⟨-, -, columns, back, same⟩
    · cases same
    · omega
    · rw [back, Option.map_some] at amount
      rw [← Option.some.inj amount, same]
  · rw [planListEdit] at planned
    split at planned
    · cases planned
    · cases intent with
      | enter => exact absurd (.inl rfl) key
      | backspace => exact absurd (.inr rfl) key
      | shiftEnter => cases moves
      | indent =>
          obtain ⟨amount, forward, rfl⟩ := Option.map_eq_some_iff.mp moves
          simp only [found, forward] at planned
          split at planned
          · cases planned
          · cases amount with
            | zero => cases planned
            | succ amount => exact ListEditPlanResult.handled.inj planned
      | outdent =>
          obtain ⟨amount, back, rfl⟩ := Option.map_eq_some_iff.mp moves
          simp only [found, back] at planned
          split at planned
          · cases planned
          · cases amount with
            | zero => cases planned
            | succ amount => exact ListEditPlanResult.handled.inj planned

theorem exists_columnsMoved {source : Text} {projection : ListEditProjection}
    {selection : SourceSelection} {item : ListEditItem} {intent : ListEditIntent}
    {range : SourceRange} {replacement : Text} {selectionAfter : SourceSelection}
    (found : projection.itemAt selection.active = some item)
    (key : intent = .indent ∨ intent = .outdent)
    (planned
      : planListEdit source projection selection intent
        = .handled (.replace range replacement selectionAfter))
    : ∃ delta, columnsMoved projection item intent = some delta
        ∧ delta ≠ 0
        ∧ (delta < 0 → 0 < item.markerIndentColumns) := by
  rw [planListEdit] at planned
  split at planned
  · cases planned
  · rcases key with rfl | rfl
    · simp only [found] at planned
      split at planned
      · cases planned
      · cases forward : indentBy projection item with
        | none => simp [forward] at planned
        | some amount =>
            cases amount with
            | zero => simp [forward] at planned
            | succ amount =>
                have moves : columnsMoved projection item .indent = some ((amount + 1 : Nat) : Int) :=
                  congrArg (Option.map fun (delta : Nat) => (delta : Int)) forward
                exact ⟨_, moves, by omega, by omega⟩
    · simp only [found] at planned
      split at planned
      · cases planned
      · cases back : outdentBy projection item with
        | none => simp [back] at planned
        | some amount =>
            cases amount with
            | zero => simp [back] at planned
            | succ amount =>
                obtain ⟨parent, -, size⟩ := Option.map_eq_some_iff.mp back
                have moves : columnsMoved projection item .outdent
                    = some (-((amount + 1 : Nat) : Int)) :=
                  congrArg (Option.map fun (delta : Nat) => -(delta : Int)) back
                exact ⟨_, moves, by omega, fun _ => by omega⟩

theorem insertAt_of_planned {source : Text} {projection : ListEditProjection}
    {selection : SourceSelection} {item : ListEditItem} {plan : MarkdownEditPlan}
    (found : projection.itemAt selection.active = some item)
    (filled : slice? source item.bodyRange.start item.bodyRange.stop ≠ some [])
    (planned : planListEdit source projection selection .enter = .handled plan)
    : plan = insertAt selection.active ('\n' :: itemPrefix source item) := by
  rw [planListEdit] at planned
  split at planned
  · cases planned
  · simp only [found, beq_eq_false_iff_ne.mpr filled, Bool.false_and, Bool.false_eq_true,
      if_false] at planned
    split at planned
    · cases planned
    · exact (ListEditPlanResult.handled.inj planned).symm

end Hane.Markdown
