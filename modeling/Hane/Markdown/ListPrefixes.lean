import Hane.Markdown.ListEditing
import Hane.Markdown.ListExits
import Hane.Markdown.ListShifts

/-! The prefix Enter puts in front of the next item, and the quote markers in front of an item. -/

namespace Hane.Markdown

open Hane.Document Hane.Foundations

-- The inserted prefix

/-- What is in front of the marker of an item on its line. -/
def itemLead (document : Text) (item : ListEditItem) : Text :=
  (slice? document item.prefixRange.start item.markerRange.start).getD []

def leadingNumber (text : Text) : Nat := Nat.ofDigitChars 10 (text.takeWhile Char.isDigit) 0

/-- The number of an item: its place in its list, or what its line says where the parser knows of
no list.
-/
def itemNumber (document : Text) (item : ListEditItem) : Nat :=
  if item.isParserItem then
    item.listStart.getD 1 + item.ordinal
  else
    leadingNumber (substring document item.markerRange.start (utf8Len document))

/-- A text reads back as the marker behind the one of an item, at the place of that one. -/
def ReadsBack (document : Text) (item : ListEditItem) (text : Text) : Prop :=
  (∃ stop, rawListMarker text = some ((itemLead document item).length, stop, item.marker))
    ∧ text.take (itemLead document item).length = itemLead document item
    ∧ ∀ delimiter, item.marker = .ordered delimiter
      → leadingNumber (text.drop (itemLead document item).length) = itemNumber document item + 1

/-- Only white space is in front of the marker of an item, and its number has a next one of up to
nine digits that the item's list knows.
-/
def HasNext (document : Text) (item : ListEditItem) : Prop :=
  (∀ c ∈ itemLead document item, isIndent c = true)
    ∧ ∀ delimiter, item.marker = .ordered delimiter
      → itemNumber document item + 1 ≤ 999999999
        ∧ item.listStart.getD 1 + item.ordinal = itemNumber document item

def nextSymbol (item : ListEditItem) : Text :=
  match item.marker with
  | .unordered bullet => [bullet]
  | .ordered delimiter => Nat.toDigits 10 (nextNumber item) ++ [delimiter]

theorem itemPrefix_eq (document : Text) (item : ListEditItem)
    : ∃ rest, itemPrefix document item
        = itemLead document item ++ (nextSymbol item ++ ' ' :: rest) := by
  cases tasked : item.task.isSome with
  | true =>
      refine ⟨['[', ' ', ']', ' '], ?_⟩
      cases kind : item.marker <;> simp [itemPrefix, itemLead, nextSymbol, tasked, kind]
  | false =>
      refine ⟨[], ?_⟩
      cases kind : item.marker <;> simp [itemPrefix, itemLead, nextSymbol, tasked, kind]

theorem isDigit_of_mem_toDigits {n : Nat} : ∀ c ∈ Nat.toDigits 10 n, c.isDigit = true :=
  fun _ member => Nat.isDigit_of_mem_toDigits (by decide) (by decide) member

theorem length_toDigits_le_nine {n : Nat} : (Nat.toDigits 10 n).length ≤ 9 ↔ n ≤ 999999999 := by
  rw [Nat.length_toDigits_le_iff (by decide) (by decide)]
  omega

theorem takeWhile_digits {digits rest : Text} {c : Char}
    (numeric : ∀ c ∈ digits, c.isDigit = true) (other : c.isDigit = false)
    : (digits ++ c :: rest).takeWhile Char.isDigit = digits := by
  rw [List.takeWhile_append_of_pos numeric]
  simp [other]

theorem isDigit_delimiter {symbol : Text} {delimiter : Char}
    (valid : IsSymbol symbol (.ordered delimiter))
    : delimiter.isDigit = false ∧ (delimiter = '.' ∨ delimiter = ')') := by
  cases valid with
  | number filled few numeric closes =>
      rcases closes with rfl | rfl
      · exact ⟨rfl, .inl rfl⟩
      · exact ⟨rfl, .inr rfl⟩

theorem nextSymbol_isSymbol {item : ListEditItem} {symbol : Text}
    (valid : IsSymbol symbol item.marker)
    (few : ∀ delimiter, item.marker = .ordered delimiter → nextNumber item ≤ 999999999)
    : IsSymbol (nextSymbol item) item.marker := by
  rw [nextSymbol]
  cases known : item.marker with
  | unordered bullet =>
      rw [known] at valid
      cases valid with
      | bullet shown => exact .bullet shown
  | ordered delimiter =>
      rw [known] at valid
      exact .number Nat.toDigits_ne_nil (length_toDigits_le_nine.mpr (few delimiter known))
        isDigit_of_mem_toDigits (isDigit_delimiter valid).2

theorem nextNumber_le_of_read {item : ListEditItem} {delimiter : Char} {symbol rest behind : Text}
    (known : item.marker = .ordered delimiter) (valid : IsSymbol symbol (.ordered delimiter))
    (same : nextSymbol item ++ rest = symbol ++ behind)
    : nextNumber item ≤ 999999999 := by
  obtain ⟨other, -⟩ := isDigit_delimiter valid
  rw [nextSymbol, known] at same
  cases valid with
  | number filled few numeric closes =>
      simp only [List.append_assoc, List.singleton_append] at same
      have digits := congrArg (List.takeWhile Char.isDigit) same
      rw [takeWhile_digits isDigit_of_mem_toDigits other, takeWhile_digits numeric other] at digits
      exact length_toDigits_le_nine.mp (digits ▸ few)

theorem nextNumber_le_iff (item : ListEditItem)
    : nextNumber item ≤ 999999999
      ↔ item.listStart.getD 1 + item.ordinal + 1 ≤ 999999999 := by
  have limit : u64Max = 18446744073709551615 := rfl
  rw [nextNumber, saturatingAdd, saturatingAdd, limit]
  omega

theorem nextNumber_eq {item : ListEditItem} (few : nextNumber item ≤ 999999999)
    : nextNumber item = item.listStart.getD 1 + item.ordinal + 1 := by
  have limit : u64Max = 18446744073709551615 := rfl
  rw [nextNumber, saturatingAdd, saturatingAdd, limit] at few ⊢
  omega

theorem Opening.Opens.lead {opening : Opening} {item : ListEditItem}
    (opens : opening.Opens 0 item)
    : itemLead opening.text item = opening.lead := by
  have split : opening.text
      = opening.before ++ (opening.lead ++ (opening.symbol ++ opening.rest ++ opening.after)) := by
    simp [Opening.text, Opening.line]
  rw [itemLead, opens.prefixStart, opens.markerStart, Nat.zero_add, Nat.zero_add, split,
    slice?_append, Option.getD_some]

theorem itemPrefix_readsBack_iff {opening : Opening} {item : ListEditItem}
    (opens : opening.Opens 0 item)
    : ReadsBack opening.text item (itemPrefix opening.text item) ↔ HasNext opening.text item := by
  obtain ⟨rest, inserted⟩ := itemPrefix_eq opening.text item
  have number {delimiter : Char} (known : item.marker = .ordered delimiter)
      : leadingNumber ((itemPrefix opening.text item).drop (itemLead opening.text item).length)
        = nextNumber item := by
    have valid := opens.marked
    rw [known] at valid
    rw [inserted, List.drop_left, leadingNumber, nextSymbol, known]
    simp only [List.append_assoc, List.singleton_append]
    rw [takeWhile_digits isDigit_of_mem_toDigits (isDigit_delimiter valid).1,
      Nat.ofDigitChars_ten_toDigits]
  constructor
  · rintro ⟨⟨stop, read⟩, -, counts⟩
    obtain ⟨lead, symbol, behind, split, blank, valid, -, size, -⟩ :=
      rawListMarker_eq_some_iff.mp read
    simp only at size valid
    rw [inserted] at split
    obtain ⟨same, others⟩ := List.append_inj split size
    rw [← same] at blank
    refine ⟨blank, fun delimiter known => ?_⟩
    rw [known] at valid
    have few := nextNumber_le_of_read known valid others
    have next := counts delimiter known
    rw [number known, nextNumber_eq few] at next
    have small := (nextNumber_le_iff item).mp few
    omega
  · rintro ⟨blank, counts⟩
    have few (delimiter : Char) (known : item.marker = .ordered delimiter)
        : nextNumber item ≤ 999999999 := by
      obtain ⟨small, own⟩ := counts delimiter known
      rw [nextNumber_le_iff]
      omega
    have valid := nextSymbol_isSymbol opens.marked few
    refine ⟨⟨(itemLead opening.text item).length + (nextSymbol item).length + 1, ?_⟩,
      by rw [inserted, List.take_left], fun delimiter known => ?_⟩
    · rw [inserted, rawListMarker_symbol blank valid]
      rfl
    · rw [number known, nextNumber_eq (few delimiter known), (counts delimiter known).2]

-- Quote markers

/-- The line of an item up to the last quote marker in front of the item. -/
def quotedLead (document : Text) (item : ListEditItem) : Text :=
  (itemLead document item).rdropWhile fun c => c != '>'

/-- An edit of a document keeps everything up to the quote marker in front of an item. -/
def KeepsQuote (document : Text) (item : ListEditItem) (range : SourceRange) (replacement : Text)
    : Prop :=
  ∃ edited, replaceRange document range replacement = some edited
    ∧ substring document 0 item.prefixRange.start ++ quotedLead document item <+: edited

theorem quotedLead_start (document : Text) (item : ListEditItem)
    : quotedLead document item <+: itemLead document item :=
  List.rdropWhile_prefix _ _

theorem quote_mem_quotedLead {document : Text} {item : ListEditItem}
    (filled : quotedLead document item ≠ [])
    : '>' ∈ quotedLead document item := by
  have last : ¬((quotedLead document item).getLast filled != '>') = true :=
    List.rdropWhile_last_not _ _ filled
  have same : (quotedLead document item).getLast filled = '>' := by simpa using last
  exact same ▸ List.getLast_mem filled

theorem takeWhile_of_prefix (stops : Char → Bool) {start text : Text} (first : start <+: text)
    {c : Char} (member : c ∈ start) (found : stops c = false)
    : text.takeWhile stops = start.takeWhile stops := by
  obtain ⟨rest, rfl⟩ := first
  rw [List.takeWhile_append, if_neg]
  intro whole
  have all := List.takeWhile_eq_self_iff.mp
    ((List.takeWhile_prefix stops).eq_of_length whole) c member
  rw [found] at all
  cases all

/-- A line that keeps a quote marker keeps the white space it starts with. -/
theorem shiftedIndent_eq_of_quote {delta : Int} {quoted content more : Text}
    (first : quoted <+: content ++ more) (quote : '>' ∈ quoted)
    (kept
      : quoted <+: shiftedIndent delta (content.takeWhile isIndent)
        ++ (content.dropWhile isIndent ++ more))
    : shiftedIndent delta (content.takeWhile isIndent) = content.takeWhile isIndent := by
  have blank : ∀ c ∈ content.takeWhile isIndent, isIndent c = true := fun c member =>
    List.mem_takeWhile_imp member
  have other {text : Text} (white : ∀ c ∈ text, isIndent c = true)
      : ∀ c ∈ text, (c != '>') = true := by
    intro c member
    have shown := white c member
    rw [isIndent, Bool.or_eq_true, beq_iff_eq, beq_iff_eq] at shown
    rcases shown with rfl | rfl <;> rfl
  have split : content ++ more
      = content.takeWhile isIndent ++ (content.dropWhile isIndent ++ more) := by
    rw [← List.append_assoc, List.takeWhile_append_dropWhile]
  rw [split] at first
  have before := takeWhile_of_prefix (fun c => c != '>') first quote rfl
  have after := takeWhile_of_prefix (fun c => c != '>') kept quote rfl
  rw [List.takeWhile_append_of_pos (other blank)] at before
  rw [List.takeWhile_append_of_pos (other (shiftedIndent_blank delta blank))] at after
  exact List.append_cancel_right (after.trans before.symm)

/-- A move changes the white space in front of a text, unless there is none to remove. -/
theorem shiftedIndent_ne {delta : Int} {indentation : Text} (moves : delta ≠ 0)
    (indented : delta < 0 → indentation ≠ [])
    : shiftedIndent delta indentation ≠ indentation := by
  intro same
  have size := congrArg List.length same
  rw [shiftedIndent] at size
  split at size
  · rw [List.length_append, List.length_replicate] at size
    omega
  · have whole := congrArg List.length (TabStops.cut_append_left 4 (-delta).toNat indentation)
    have removed : 0 < (TabStops.cut 4 (-delta).toNat indentation).length :=
      List.length_pos_iff.mpr (TabStops.cut_ne_nil (by omega) (indented (by omega)))
    rw [List.length_append] at whole
    omega

theorem Opening.Opens.subtree_split {opening : Opening} {item : ListEditItem}
    (opens : opening.Opens 0 item) (listed : item.isParserItem = true)
    : ∃ tail back ending others, opening.after = tail ++ back
        ∧ item.subtreeRange
          = ⟨utf8Len opening.before, utf8Len opening.before + utf8Len (opening.line ++ tail)⟩
        ∧ splitPhysicalLines (opening.line ++ tail) = ⟨opening.line, ending⟩ :: others := by
  obtain ⟨stop, last, boundary, inside⟩ := opens.parsed listed
  have starts := Boundary.of_append opening.before (opening.line ++ opening.after)
  obtain ⟨before, original, back, split, first, size⟩ :=
    starts.split boundary (Nat.le_trans (Nat.le_add_right _ _) inside)
  rw [List.append_assoc] at split
  obtain ⟨rfl, behind⟩ := append_inj_of_utf8Len split first.symm
  have whole : opening.line ++ opening.after = original ++ back := behind
  obtain ⟨tail, rfl, rest⟩ : ∃ tail, original = opening.line ++ tail ∧ opening.after = tail ++ back := by
    rcases List.append_eq_append_iff.mp whole with ⟨tail, rfl, rest⟩ | ⟨beyond, line, rest⟩
    · exact ⟨tail, rfl, rest⟩
    · have sizes := congrArg utf8Len line
      rw [utf8Len_append] at sizes
      have none : beyond = [] := (utf8Len_eq_zero_iff beyond).mp (by omega)
      subst none
      exact ⟨[], by simpa using line.symm, by simpa using rest.symm⟩
  have ends : AtLineEnd tail := by
    intro c found
    refine opens.stops c ?_
    have filled : tail ≠ [] := by
      rintro rfl
      cases found
    rw [rest, List.head?_append_of_ne_nil _ filled, found]
  obtain ⟨ending, later, lines⟩ := splitLines_first ends
  have filled : opening.line ≠ [] := fun none =>
    opens.marked.ne_nil (List.append_eq_nil_iff.mp (List.append_eq_nil_iff.mp none).2).1
  refine ⟨tail, back, ending, later.filter fun line => !line.text.isEmpty, rest, ?_, ?_⟩
  · have start := opens.subtree
    rw [Nat.zero_add] at start last
    rw [size, ← last, ← start]
  · rw [splitPhysicalLines, lines _ opens.unbroken, List.filter_cons_of_pos]
    simp [SourceLine.text, filled]

theorem keepsQuote_transformSubtree_iff {opening : Opening} {item : ListEditItem}
    (opens : opening.Opens 0 item) (quoted : item.inQuote = true) {delta : Int} {caret : Nat}
    {range : SourceRange} {replacement : Text} {selectionAfter : SourceSelection}
    (moves : delta ≠ 0) (indented : delta < 0 → 0 < item.markerIndentColumns)
    (planned
      : transformSubtree opening.text item delta caret = .replace range replacement selectionAfter)
    : KeepsQuote opening.text item range replacement ↔ quotedLead opening.text item = [] := by
  have listed : item.isParserItem = true := by
    by_contra recovered
    have free := (opens.recovered (by simpa using recovered)).2
    rw [free] at quoted
    cases quoted
  obtain ⟨tail, back, ending, others, rest, subtree, lines⟩ := opens.subtree_split listed
  have split : opening.text = opening.before ++ ((opening.line ++ tail) ++ back) := by
    rw [Opening.text, rest, List.append_assoc]
  have sliced : slice? opening.text item.subtreeRange.start item.subtreeRange.stop
      = some (opening.line ++ tail) := by
    rw [split, subtree, slice?_append]
  have whole : (opening.line ++ tail) ++ back = opening.line ++ opening.after := by
    rw [rest, List.append_assoc]
  obtain ⟨more, after, same, -, edited⟩ := exists_firstLine whole opens.unbroken opens.stops lines
    (transformLine delta) (transformLine_ending delta)
  obtain rfl : more = [] := by simpa using same
  rw [transformSubtree, sliced] at planned
  obtain ⟨rfl, rfl, -⟩ := MarkdownEditPlan.replace.inj planned
  have prefixed : substring opening.text 0 item.prefixRange.start = opening.before := by
    rw [opens.prefixStart, Nat.zero_add]
    exact substring_front _ _
  have replaced := replaceRange_eq opening.before (opening.line ++ tail) back
    (((splitPhysicalLines (opening.line ++ tail)).map fun line =>
      (transformLine delta line).text).flatten)
  rw [← split, ← subtree] at replaced
  have kept : KeepsQuote opening.text item item.subtreeRange
        (((splitPhysicalLines (opening.line ++ tail)).map fun line =>
          (transformLine delta line).text).flatten)
      ↔ quotedLead opening.text item
        <+: shiftedIndent delta (opening.line.takeWhile isIndent)
          ++ (opening.line.dropWhile isIndent ++ after) := by
    rw [KeepsQuote, replaced, prefixed]
    simp only [Option.some.injEq, exists_eq_left', List.append_assoc, edited,
      List.prefix_append_right_inj, transformLine_content, List.nil_append]
  refine kept.trans ⟨fun keeps => ?_, fun none => by rw [none]; exact List.nil_prefix⟩
  by_contra filled
  have lead : opening.lead <+: opening.line ++ after :=
    (List.prefix_append _ _).trans (List.prefix_append _ _)
  have first := (quotedLead_start opening.text item).trans (opens.lead ▸ lead)
  refine shiftedIndent_ne moves (fun backward none => ?_)
    (shiftedIndent_eq_of_quote first (quote_mem_quotedLead filled) keeps)
  have wide := indented backward
  rw [opens.indent, columns] at wide
  cases front : opening.lead with
  | nil => simp [front, TabStops.advance] at wide
  | cons c more =>
      rw [Opening.line, front, List.cons_append] at none
      by_cases white : isIndent c = true
      · rw [List.takeWhile_cons_of_pos white] at none
        cases none
      · rw [front, List.takeWhile_cons_of_neg white] at wide
        simp [TabStops.advance] at wide

theorem keepsQuote_insertAt_iff {opening : Opening} {item : ListEditItem}
    (opens : opening.Opens 0 item) {caret : Nat} {front rest inserted : Text}
    (cut : opening.line = front ++ rest) (place : caret = utf8Len opening.before + utf8Len front)
    : KeepsQuote opening.text item (.empty caret) ('\n' :: inserted)
      ↔ item.prefixRange.start + utf8Len (quotedLead opening.text item) ≤ caret := by
  have start : item.prefixRange.start = utf8Len opening.before := by
    rw [opens.prefixStart, Nat.zero_add]
  have split : opening.text = (opening.before ++ front) ++ ([] ++ (rest ++ opening.after)) := by
    simp [Opening.text, cut]
  have replaced := replaceRange_eq (opening.before ++ front) [] (rest ++ opening.after)
    ('\n' :: inserted)
  rw [← split, utf8Len_append, ← place] at replaced
  have kept : KeepsQuote opening.text item (.empty caret) ('\n' :: inserted)
      ↔ quotedLead opening.text item <+: front ++ '\n' :: (inserted ++ (rest ++ opening.after)) := by
    have prefixed : substring opening.text 0 item.prefixRange.start = opening.before := by
      rw [start]
      exact substring_front _ _
    have range : replaceRange opening.text (.empty caret) ('\n' :: inserted)
        = some (opening.before ++ front ++ '\n' :: inserted ++ (rest ++ opening.after)) :=
      replaced
    rw [KeepsQuote, range, prefixed]
    simp only [Option.some.injEq, exists_eq_left', List.append_assoc, List.cons_append,
      List.prefix_append_right_inj]
  have first : quotedLead opening.text item <+: front ++ rest := by
    rw [← cut]
    exact (quotedLead_start _ _).trans (opens.lead ▸ List.prefix_append _ _)
  rw [kept, start, place, Nat.add_le_add_iff_left]
  constructor
  · intro keeps
    rcases List.prefix_or_prefix_of_prefix first (List.prefix_append front rest) with
      ⟨more, rfl⟩ | ⟨more, behind⟩
    · rw [utf8Len_append]
      exact Nat.le_add_right _ _
    · rw [← behind, List.prefix_append_right_inj] at keeps
      rw [← behind, List.prefix_append_right_inj] at first
      cases more with
      | nil => rw [← behind, List.append_nil]
      | cons c more =>
          -- The line feed of the new line would be on the line.
          obtain ⟨rfl, -⟩ := List.cons_prefix_cons.mp keeps
          obtain ⟨last, rfl⟩ := first
          have plain := opens.unbroken '\n' (by rw [cut]; simp)
          cases plain
  · intro inside
    refine List.IsPrefix.trans ?_ (List.prefix_append front _)
    rcases List.prefix_or_prefix_of_prefix first (List.prefix_append front rest) with
      early | ⟨more, behind⟩
    · exact early
    · rw [← behind, utf8Len_append] at inside
      have none : more = [] := (utf8Len_eq_zero_iff more).mp (by omega)
      exact ⟨[], by rw [← behind, none, List.append_nil, List.append_nil]⟩

-- Plans

/-- What Enter inserts in the content of an item reads back as the next marker, and no indent,
outdent or Enter in a quote changes what is in front of the quote marker.
-/
def Continues (document : Text) (item : ListEditItem) (intent : ListEditIntent)
    (range : SourceRange) (replacement : Text) : Prop :=
  (intent = .enter
    → slice? document item.bodyRange.start item.bodyRange.stop ≠ some []
    → ∃ text, replacement = '\n' :: text ∧ ReadsBack document item text)
  ∧ (item.inQuote = true
    → intent = .indent ∨ intent = .outdent ∨ intent = .enter
    → KeepsQuote document item range replacement)

/-- Where these hold. -/
def CanContinue (document : Text) (item : ListEditItem) (intent : ListEditIntent) (caret : Nat)
    : Prop :=
  (intent = .enter
    → slice? document item.bodyRange.start item.bodyRange.stop ≠ some []
    → HasNext document item)
  ∧ (item.inQuote = true
    → intent = .indent ∨ intent = .outdent ∨ intent = .enter
    → quotedLead document item = []
      ∨ intent = .enter
        ∧ item.prefixRange.start + utf8Len (quotedLead document item) ≤ caret)

/-- When the prefix of a new item is read back as the next marker, and when a quote marker is kept.
Witness: `enter_next_number`.
-/
theorem planListEdit_continues_iff {parsed : ListParse} {source document before after : Text}
    (sound : parsed.Sound source) (block : parsed.Within source document before after)
    {selection : SourceSelection} {item : ListEditItem} {intent : ListEditIntent}
    {range : SourceRange} {replacement : Text} {selectionAfter : SourceSelection}
    (boundary : Boundary document selection.active)
    (found : (buildListEditProjection parsed source).itemAt selection.active = some item)
    (planned
      : planListEdit document (buildListEditProjection parsed source) selection intent
        = .handled (.replace range replacement selectionAfter))
    : Continues document item intent range replacement
      ↔ CanContinue document item intent selection.active := by
  obtain ⟨opening, rfl, opens⟩ := itemAt_opens sound block found
  obtain ⟨first, last⟩ := onOpeningLine_of_replace found planned
  rw [Continues, CanContinue]
  refine and_congr ?_ ?_
  · refine imp_congr_right fun enter => imp_congr_right fun filled => ?_
    subst enter
    obtain ⟨rfl, rfl, -⟩ := MarkdownEditPlan.replace.inj (insertAt_of_planned found filled planned)
    rw [← itemPrefix_readsBack_iff opens]
    constructor
    · rintro ⟨text, same, reads⟩
      obtain rfl := (List.cons.inj same).2
      exact reads
    · intro reads
      exact ⟨_, rfl, reads⟩
  · refine imp_congr_right fun quoted => imp_congr_right fun key => ?_
    by_cases enter : intent = .enter
    · subst enter
      have filled : slice? opening.text item.bodyRange.start item.bodyRange.stop ≠ some [] := by
        intro empty
        rcases planExit_cases (planExit_of_empty found empty (.inl rfl) planned) with
          same | ⟨free, -⟩ | ⟨free, -⟩
        · cases same
        · rw [quoted] at free
          cases free
        · rw [quoted] at free
          cases free
      obtain ⟨rfl, rfl, -⟩ :=
        MarkdownEditPlan.replace.inj (insertAt_of_planned found filled planned)
      have low : utf8Len opening.before ≤ selection.active := by
        rwa [opens.prefixStart, Nat.zero_add] at first
      rw [opens.bodyStop, Nat.zero_add] at last
      obtain ⟨front, rest, cut, place⟩ := opening.exists_place boundary low last
      rw [keepsQuote_insertAt_iff opens cut place]
      constructor
      · exact fun inside => .inr ⟨rfl, inside⟩
      · rintro (none | ⟨-, inside⟩)
        · rw [none]
          exact first
        · exact inside
    · have shift : intent = .indent ∨ intent = .outdent := by
        rcases key with indent | outdent | same
        · exact .inl indent
        · exact .inr outdent
        · exact absurd same enter
      obtain ⟨delta, moves, nonzero, indented⟩ := exists_columnsMoved found shift planned
      have transformed := transformSubtree_of_planned found moves
        (fun exits => by rcases shift with rfl | rfl <;> simp at exits) planned
      rw [keepsQuote_transformSubtree_iff opens quoted nonzero indented transformed]
      simp [enter]

/-- Two items of a list that starts at 3. -/
def numberedItems : Text := "3. A\n4. B".toList

def numberedParse : ListParse where
  revision := 1
  sourceRange := ⟨0, 9⟩
  tree.nodes := [
    ⟨.document, ⟨0, 9⟩, [1]⟩,
    ⟨.list (some 3), ⟨0, 9⟩, [2, 4]⟩,
    ⟨.listItem none, ⟨0, 5⟩, [3]⟩,
    ⟨.text, ⟨3, 4⟩, []⟩,
    ⟨.listItem none, ⟨5, 9⟩, [5]⟩,
    ⟨.text, ⟨8, 9⟩, []⟩]
  details.parents := [none, some 0, some 1, some 2, some 1, some 4]

theorem enter_next_number
    : ∃ item, (buildListEditProjection numberedParse numberedItems).itemAt 4 = some item
        ∧ (Continues numberedItems item .enter ⟨4, 4⟩ "\n4. ".toList
          ↔ CanContinue numberedItems item .enter 4) := by
  have sound : numberedParse.Sound numberedItems := by
    intro node member
    refine ⟨node.sourceRange.start, node.sourceRange.stop, ?_⟩
    revert node
    decide +kernel
  have block : numberedParse.Within numberedItems numberedItems [] [] :=
    ⟨by simp, by decide +kernel, .nil, .inl .nil⟩
  have shown : ((buildListEditProjection numberedParse numberedItems).itemAt 4).isSome = true := by
    decide +kernel
  obtain ⟨item, found⟩ := Option.isSome_iff_exists.mp shown
  have planned : planListEdit numberedItems (buildListEditProjection numberedParse numberedItems)
      (.caret 4) .enter
      = .handled (.replace ⟨4, 4⟩ "\n4. ".toList (.caret 8)) := by
    decide +kernel
  exact ⟨item, found, planListEdit_continues_iff sound block (by decide +kernel) found planned⟩

/-- Two items of a list in a quote. -/
def quotedItems : Text := "> - a\n> - b".toList

def quotedParse : ListParse where
  revision := 1
  sourceRange := ⟨0, 11⟩
  tree.nodes := [
    ⟨.document, ⟨0, 11⟩, [1]⟩,
    ⟨.quote, ⟨0, 11⟩, [2]⟩,
    ⟨.list none, ⟨2, 11⟩, [3, 5]⟩,
    ⟨.listItem none, ⟨2, 6⟩, [4]⟩,
    ⟨.text, ⟨4, 5⟩, []⟩,
    ⟨.listItem none, ⟨8, 11⟩, [6]⟩,
    ⟨.text, ⟨10, 11⟩, []⟩]
  details.parents := [none, some 0, some 1, some 2, some 3, some 2, some 5]

/-- An indent in a quote puts spaces in front of the quote marker. -/
theorem indent_quoted_breaks
    : ∃ item, (buildListEditProjection quotedParse quotedItems).itemAt 10 = some item
        ∧ item.inQuote = true
        ∧ planListEdit quotedItems (buildListEditProjection quotedParse quotedItems) (.caret 10)
            .indent
          = .handled (.replace ⟨6, 11⟩ "    > - b".toList (.caret 14))
        ∧ ¬Continues quotedItems item .indent ⟨6, 11⟩ "    > - b".toList := by
  have facts : ((buildListEditProjection quotedParse quotedItems).itemAt 10).any
      (fun item => item.inQuote
        && substring quotedItems 0 item.prefixRange.start ++ quotedLead quotedItems item
          == "> - a\n>".toList) = true := by
    decide +kernel
  obtain ⟨item, found, facts⟩ := (Option.any_eq_true _ _).mp facts
  simp only [Bool.and_eq_true, beq_iff_eq] at facts
  obtain ⟨quoted, kept⟩ := facts
  have replaced : replaceRange quotedItems ⟨6, 11⟩ "    > - b".toList
      = some "> - a\n    > - b".toList := by
    decide +kernel
  refine ⟨item, found, quoted, by decide +kernel, fun continues => ?_⟩
  obtain ⟨edited, same, keeps⟩ := continues.2 quoted (.inl rfl)
  rw [replaced] at same
  rw [← Option.some.inj same, kept] at keeps
  exact absurd keeps (by decide)

end Hane.Markdown
