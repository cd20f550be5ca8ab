import Hane.Markdown.ListMarkers

/-! Every item of the editing projection opens on a line of the source, with its marker there. -/

namespace Hane.Markdown

open Hane.Document Hane.Foundations

/-- The ranges of the nodes of a parse lie in its source, between characters. -/
def ListParse.Sound (parsed : ListParse) (source : Text) : Prop :=
  ∀ node ∈ parsed.tree.nodes, ∃ start stop,
    node.sourceRange = ⟨parsed.sourceRange.start + start, parsed.sourceRange.start + stop⟩
    ∧ start ≤ stop
    ∧ Boundary source start
    ∧ Boundary source stop

/-- A line of a text, cut around a bullet or a number in it. -/
structure Opening where
  before : Text
  lead : Text
  symbol : Text
  rest : Text
  after : Text

namespace Opening

def line (opening : Opening) : Text := opening.lead ++ (opening.symbol ++ opening.rest)

def text (opening : Opening) : Text := opening.before ++ (opening.line ++ opening.after)

/-- An item opens on a line; `base` is where the text starts in its document. -/
structure Opens (opening : Opening) (base : Nat) (item : ListEditItem) : Prop where
  starts : AtLineStart opening.before
  unbroken : Unbroken opening.line
  stops : AtLineEnd opening.after
  marked : IsSymbol opening.symbol item.marker
  subtree : item.subtreeRange.start = base + utf8Len opening.before
  prefixStart : item.prefixRange.start = base + utf8Len opening.before
  prefixStop : item.prefixRange.stop = item.bodyRange.start
  bodyStop : item.bodyRange.stop = base + (utf8Len opening.before + utf8Len opening.line)
  markerStart : item.markerRange.start = base + (utf8Len opening.before + utf8Len opening.lead)
  indent : item.markerIndentColumns = columns opening.lead
  recovered
    : item.isParserItem = false
      → (∀ c ∈ opening.lead, isIndent c = true) ∧ item.inQuote = false
  parsed
    : item.isParserItem = true
      → ∃ stop, item.subtreeRange.stop = base + stop
          ∧ Boundary opening.text stop
          ∧ utf8Len opening.before + utf8Len opening.line ≤ stop

end Opening

-- Markers of the parser

/-- White space that a cursor passes is indentation, by induction on the limit. -/
theorem indent_passes {text : Text} {cursor : PrefixCursor} (limit : Nat)
    (blank : ∀ c ∈ text.take cursor.byte, isIndent c = true)
    : ∀ c ∈ text.take (cursor.indent text limit).byte, isIndent c = true := by
  induction limit generalizing cursor with
  | zero => exact blank
  | succ limit ih =>
      rw [PrefixCursor.indent]
      cases moved : cursor.space text with
      | none => exact blank
      | some next =>
          refine ih ?_
          rw [PrefixCursor.space] at moved
          split at moved
          · obtain rfl := Option.some.inj moved
            exact blank
          · have one {c : Char} (here : text[cursor.byte]? = some c) (white : isIndent c = true)
                : ∀ d ∈ text.take (cursor.byte + 1), isIndent d = true := by
              rw [List.take_add_one, here]
              intro d member
              rcases List.mem_append.mp member with member | member
              · exact blank d member
              · obtain rfl := List.mem_singleton.mp member
                exact white
            split at moved
            · rename_i here
              obtain rfl := Option.some.inj moved
              exact one here rfl
            · rename_i here
              obtain rfl := Option.some.inj moved
              exact one here rfl
            · cases moved

theorem listItem_symbol {line : Text} {start : PrefixCursor} {found : ListItemPrefix}
    (read : PrefixCursor.listItem line start = some found)
    : ∃ stop, PrefixCursor.symbolEnd line (start.indent line 3).byte = some stop
        ∧ found.symbol = ⟨(start.indent line 3).byte, stop⟩ := by
  rw [PrefixCursor.listItem] at read
  by_cases pending : (start.indent line 3).pendingSpaces ≠ 0
  · simp [pending] at read
  · cases ends : PrefixCursor.symbolEnd line (start.indent line 3).byte with
    | none => simp [pending, ends] at read
    | some stop =>
        refine ⟨stop, rfl, ?_⟩
        simp only [pending, ends, if_false, Option.bind_eq_bind,
          Option.bind_some] at read
        split_ifs at read <;> exact (Option.some.inj read) ▸ rfl

theorem listItem_sound {line : Text} {found : ListItemPrefix}
    (read : PrefixCursor.listItem line ⟨0, 0, 0⟩ = some found)
    : ∃ lead symbol rest marker, line = lead ++ (symbol ++ rest)
        ∧ (∀ c ∈ lead, isIndent c = true)
        ∧ IsSymbol symbol marker
        ∧ found.symbol = ⟨lead.length, lead.length + symbol.length⟩ := by
  obtain ⟨stop, ends, place⟩ := listItem_symbol read
  obtain ⟨symbol, marker, rest, behind, rfl, valid⟩ := symbolEnd_sound ends
  have blank : ∀ c ∈ line.take (PrefixCursor.indent line 3 ⟨0, 0, 0⟩).byte, isIndent c = true :=
    indent_passes 3 (by simp)
  generalize (PrefixCursor.indent line 3 ⟨0, 0, 0⟩).byte = byte at ends behind place blank
  have inside : byte ≤ line.length := by
    by_contra outside
    rw [List.drop_eq_nil_of_le (by omega)] at behind
    exact valid.ne_nil (List.append_eq_nil_iff.mp behind.symm).1
  refine ⟨line.take byte, symbol, rest, marker, ?_, blank, valid, ?_⟩
  · rw [← behind, List.take_append_drop]
  · rw [place, List.length_take, Nat.min_eq_left inside]

/-- Only a text without characters starts with an empty last line. -/
theorem splitLines_head_filled {text : Text} {line : SourceLine} {lines : List SourceLine}
    (filled : text ≠ []) (split : splitLines text = line :: lines)
    : line.text ≠ [] := by
  cases text using splitLines_induction with
  | nil => exact absurd rfl filled
  | crlf rest =>
      obtain ⟨rfl, rfl⟩ := List.cons.inj split
      simp [SourceLine.text]
  | cr rest bare =>
      rw [splitLines_bareCr rest bare] at split
      obtain ⟨rfl, rfl⟩ := List.cons.inj split
      simp [SourceLine.text]
  | lf rest =>
      obtain ⟨rfl, rfl⟩ := List.cons.inj split
      simp [SourceLine.text]
  | other c rest lf cr =>
      obtain ⟨first, later, -, joined⟩ := splitLines_cons c rest lf cr
      rw [joined] at split
      obtain ⟨rfl, rfl⟩ := List.cons.inj split
      simp

/-- The first line of a text is the start of it. -/
theorem markdownLines_head_prefix (text : Text) : (markdownLines text).headD [] <+: text := by
  obtain ⟨line, lines, split⟩ := List.exists_cons_of_ne_nil (splitLines_ne_nil text)
  have whole := splitLines_flatten text
  rw [split, List.map_cons, List.flatten_cons] at whole
  rw [markdownLines, split, List.map_cons]
  by_cases blank : line.text = []
  · have none : text = [] := by
      by_contra filled
      exact splitLines_head_filled filled split blank
    subst none
    obtain ⟨rfl, rfl⟩ := List.cons.inj split
    exact List.nil_prefix
  · rw [List.filter_cons_of_pos (by simpa using blank)]
    exact ⟨_, whole⟩

/-- A marker the parser reports is a symbol behind white space from where its item starts, with
one space or tab.
-/
theorem itemMarker_sound {range : SourceRange} {source : Text} {start : Nat} {marker : SourceRange}
    (read : itemMarker range source (range.start + start) = some marker)
    : ∃ before lead symbol rest kind, source = before ++ (lead ++ (symbol ++ rest))
        ∧ (∀ c ∈ lead, isIndent c = true)
        ∧ IsSymbol symbol kind
        ∧ marker.start = range.start + (utf8Len before + utf8Len lead)
        ∧ (marker.stop = marker.start + utf8Len symbol
          ∨ marker.stop = marker.start + utf8Len symbol + 1
            ∧ ∃ c more, rest = c :: more ∧ isIndent c = true) := by
  rw [itemMarker, Nat.add_sub_cancel_left] at read
  obtain ⟨found, seen, shown⟩ := Option.map_eq_some_iff.mp read
  obtain ⟨lead, symbol, rest, kind, first, blank, valid, place⟩ := listItem_sound seen
  obtain ⟨more, tail⟩ := markdownLines_head_prefix
    ((slice? source start (utf8Len source)).getD [])
  by_cases cut : start ≤ utf8Len source ∧ Boundary source start
      ∧ Boundary source (utf8Len source)
  · obtain ⟨before, after, rfl, rfl⟩ := cut.2.1
    have sliced : slice? (before ++ after) (utf8Len before) (utf8Len (before ++ after))
        = some after := by
      rw [slice?_eq cut.1 cut.2.1 cut.2.2, substring_back]
    rw [sliced, Option.getD_some] at first tail shown
    rw [first] at tail shown
    have white : utf8Len lead = lead.length := by
      refine utf8Len_ascii fun c member => ?_
      have indent := blank c member
      rw [isIndent, Bool.or_eq_true, beq_iff_eq, beq_iff_eq] at indent
      rcases indent with rfl | rfl <;> rfl
    have behind : (lead ++ (symbol ++ rest))[lead.length + symbol.length]? = rest.head? := by
      rw [← List.append_assoc, ← List.length_append, List.getElem?_append_right (Nat.le_refl _),
        Nat.sub_self, List.head?_eq_getElem?]
    subst shown
    refine ⟨before, lead, symbol, rest ++ more, kind, by simp [← tail], blank, valid, ?_, ?_⟩
    · simp only [place, white]
      omega
    · simp only [place, behind, valid.utf8Len]
      cases rest with
      | nil =>
          refine .inl ?_
          simp
          omega
      | cons c rest =>
          by_cases indent : isIndent c = true
          · refine .inr ⟨?_, c, rest ++ more, rfl, indent⟩
            simp [indent]
            omega
          · refine .inl ?_
            simp [indent]
            omega
  · rw [slice?, if_neg cut] at first
    have none := List.append_eq_nil_iff.mp (show [] = _ from first).symm
    exact absurd (List.append_eq_nil_iff.mp none.2).1 valid.ne_nil

-- Items of the parser

theorem exists_opening (before lead : Text) {symbol : Text} (rest : Text) {kind : ListMarker}
    (valid : IsSymbol symbol kind)
    : ∃ opening : Opening, opening.text = before ++ (lead ++ (symbol ++ rest))
        ∧ AtLineStart opening.before
        ∧ Unbroken opening.line
        ∧ AtLineEnd opening.after
        ∧ opening.symbol = symbol
        ∧ opening.before ++ opening.lead = before ++ lead
        ∧ opening.rest ++ opening.after = rest := by
  have boundary := Boundary.of_append (before ++ lead) (symbol ++ rest)
  obtain ⟨start, front, back, after, split, starts, plain, whole, stops, place⟩ :=
    exists_line boundary
  rw [← List.append_assoc start, ← utf8Len_append] at *
  obtain ⟨same, behind⟩ := append_inj_of_utf8Len split place
  have opens (more : Text) (back_eq : back = symbol ++ more) (rest_eq : more ++ after = rest)
      : ∃ opening : Opening, opening.text = before ++ (lead ++ (symbol ++ rest))
          ∧ AtLineStart opening.before
          ∧ Unbroken opening.line
          ∧ AtLineEnd opening.after
          ∧ opening.symbol = symbol
          ∧ opening.before ++ opening.lead = before ++ lead
          ∧ opening.rest ++ opening.after = rest := by
    subst back_eq rest_eq
    refine ⟨⟨start, front, symbol, more, after⟩, ?_, starts, plain.append whole, stops, rfl,
      same.symm, rfl⟩
    calc start ++ ((front ++ (symbol ++ more)) ++ after)
        = (start ++ front) ++ (symbol ++ (more ++ after)) := by simp
      _ = before ++ (lead ++ (symbol ++ (more ++ after))) := by rw [← same, List.append_assoc]
  rcases List.append_eq_append_iff.mp behind with ⟨more, back_eq, rest_eq⟩ | ⟨beyond, cut, broken⟩
  · exact opens more back_eq rest_eq.symm
  · cases beyond with
    | nil =>
        rw [List.append_nil] at cut
        exact opens [] (by rw [List.append_nil, cut]) (by simpa using broken)
    | cons c beyond =>
        -- The line would end inside the symbol.
        have breaks := stops c (by rw [broken]; rfl)
        have plain := valid.unbroken c (by rw [cut]; simp)
        rw [breaks] at plain
        cases plain

theorem ListParse.mem_listItemMarkers {parsed : ListParse} {source : Text}
    {marker : SourceRange × Nat} (member : marker ∈ parsed.listItemMarkers source)
    : ∃ node ∈ parsed.tree.nodes,
        itemMarker parsed.sourceRange source node.sourceRange.start = some marker.1 := by
  obtain ⟨⟨node, id⟩, numbered, read⟩ := List.mem_filterMap.mp member
  have present : node ∈ parsed.tree.nodes :=
    List.fst_mem_of_mem_zipIdx (List.mem_of_mem_drop numbered)
  cases kind : node.kind with
  | listItem task =>
      simp only [kind] at read
      obtain ⟨found, seen, rfl⟩ := Option.map_eq_some_iff.mp read
      exact ⟨node, present, seen⟩
  | _ => simp [kind] at read

theorem itemSubtreeEnd_sound {parsed : ListParse} {source : Text} (sound : parsed.Sound source)
    (id : Nat) {opening : Nat} (boundary : Boundary source opening)
    : ∃ stop, parsed.itemSubtreeEnd id (parsed.sourceRange.start + opening)
          = parsed.sourceRange.start + stop
        ∧ Boundary source stop
        ∧ opening ≤ stop := by
  rw [ListParse.itemSubtreeEnd]
  have children : ∀ node ∈ (parsed.tree.children id).filterMap parsed.tree.node,
      node ∈ parsed.tree.nodes := by
    intro node member
    obtain ⟨child, -, found⟩ := List.mem_filterMap.mp member
    exact List.mem_of_getElem? found
  generalize (parsed.tree.children id).filterMap parsed.tree.node = nodes at children ⊢
  induction nodes generalizing opening with
  | nil => exact ⟨opening, rfl, boundary, Nat.le_refl _⟩
  | cons node rest ih =>
      obtain ⟨start, stop, range, -, -, ends⟩ := sound node (children node List.mem_cons_self)
      have others := fun other member => children other (List.mem_cons_of_mem node member)
      simp only [List.foldl_cons, range]
      rcases Nat.le_total opening stop with later | earlier
      · rw [Nat.max_eq_right (by omega)]
        obtain ⟨last, same, boundary, after⟩ := ih ends others
        exact ⟨last, same, boundary, by omega⟩
      · rw [Nat.max_eq_left (by omega)]
        exact ih boundary others

namespace Opening

variable {opening : Opening}

theorem lineStart_marker (starts : AtLineStart opening.before) (unbroken : Unbroken opening.line)
    : lineStart opening.text (utf8Len opening.before + utf8Len opening.lead)
      = utf8Len opening.before := by
  have split : opening.text
      = opening.before ++ (opening.lead ++ (opening.symbol ++ opening.rest ++ opening.after)) := by
    simp [text, line]
  rw [split, lineStart_eq _ starts (unbroken_append_iff.mp unbroken).1]

theorem lineEnd_line (unbroken : Unbroken opening.line) (stops : AtLineEnd opening.after)
    : lineEnd opening.text (utf8Len opening.before)
      = utf8Len opening.before + utf8Len opening.line :=
  lineEnd_eq opening.before unbroken stops

theorem substring_lead
    : substring opening.text (utf8Len opening.before)
        (utf8Len opening.before + utf8Len opening.lead)
      = opening.lead := by
  have split : opening.text
      = opening.before ++ (opening.lead ++ (opening.symbol ++ opening.rest ++ opening.after)) := by
    simp [text, line]
  rw [split, substring_append]

theorem exists_place {offset : Nat} (boundary : Boundary opening.text offset)
    (first : utf8Len opening.before ≤ offset)
    (last : offset ≤ utf8Len opening.before + utf8Len opening.line)
    : ∃ front rest, opening.line = front ++ rest
        ∧ offset = utf8Len opening.before + utf8Len front := by
  have starts := Boundary.of_append opening.before (opening.line ++ opening.after)
  obtain ⟨before, front, back, split, same, place⟩ := starts.split boundary first
  rw [List.append_assoc] at split
  obtain ⟨rfl, behind⟩ := append_inj_of_utf8Len split same.symm
  have size : utf8Len front ≤ utf8Len opening.line := by omega
  rcases List.append_eq_append_iff.mp behind with ⟨more, rfl, -⟩ | ⟨rest, line, -⟩
  · rw [utf8Len_append] at size
    have none : more = [] := (utf8Len_eq_zero_iff more).mp (by omega)
    exact ⟨opening.line, [], by simp, by rw [← place, none, List.append_nil]⟩
  · exact ⟨front, rest, line, place.symm⟩

/-- What is read of a symbol with the space or tab behind it. -/
theorem slice_symbol {marker : ListMarker} (valid : IsSymbol opening.symbol marker)
    (stops : AtLineEnd opening.after) {stop : Nat}
    (ends : stop = utf8Len opening.before + utf8Len opening.lead + utf8Len opening.symbol
      ∨ stop = utf8Len opening.before + utf8Len opening.lead + utf8Len opening.symbol + 1
        ∧ ∃ c more, opening.rest ++ opening.after = c :: more ∧ isIndent c = true)
    : ((slice? opening.text (utf8Len opening.before + utf8Len opening.lead)
          (min stop (utf8Len opening.before + utf8Len opening.line))).getD []).rdropWhile isIndent
      = opening.symbol := by
  have keeps : opening.symbol.rdropWhile isIndent = opening.symbol := by
    rw [List.rdropWhile_eq_self_iff]
    intro filled
    simp [(valid.plain _ (List.getLast_mem filled)).1]
  have split : opening.text
      = (opening.before ++ opening.lead)
        ++ (opening.symbol ++ (opening.rest ++ opening.after)) := by
    simp [text, line]
  have size : utf8Len opening.line
      = utf8Len opening.lead + (utf8Len opening.symbol + utf8Len opening.rest) := by
    simp [line]
  rw [split, ← utf8Len_append]
  rcases ends with rfl | ⟨rfl, c, more, padded, white⟩
  · rw [Nat.min_eq_left (by omega), ← utf8Len_append, slice?_append, Option.getD_some, keeps]
  · have inside : ∃ rest, opening.rest = c :: rest := by
      cases rest_eq : opening.rest with
      | nil =>
          rw [rest_eq, List.nil_append] at padded
          have breaks := stops c (by rw [padded]; rfl)
          rw [isIndent, Bool.or_eq_true, beq_iff_eq, beq_iff_eq] at white
          rcases white with rfl | rfl <;> cases breaks
      | cons d rest =>
          rw [rest_eq] at padded
          exact ⟨rest, by rw [(List.cons.inj padded).1]⟩
    obtain ⟨rest, rest_eq⟩ := inside
    have one : c.utf8Size = 1 := by
      rw [isIndent, Bool.or_eq_true, beq_iff_eq, beq_iff_eq] at white
      rcases white with rfl | rfl <;> rfl
    rw [rest_eq, utf8Len_cons, one] at size
    have sliced := slice?_append (opening.before ++ opening.lead) (opening.symbol ++ [c])
      (rest ++ opening.after)
    have padding : utf8Len (opening.symbol ++ [c]) = utf8Len opening.symbol + 1 := by
      simp [one]
    rw [padding, List.append_assoc opening.symbol] at sliced
    rw [utf8Len_append] at sliced ⊢
    rw [Nat.min_eq_left (by omega), rest_eq]
    exact (congrArg (fun found : Option Text => (found.getD []).rdropWhile isIndent) sliced).trans
      (by rw [Option.getD_some, List.rdropWhile_concat_pos _ _ _ white, keeps])

end Opening

theorem parserItem_opens {parsed : ListParse} {source : Text} (sound : parsed.Sound source)
    {marker : SourceRange × Nat} {item : ListEditItem}
    (member : marker ∈ parsed.listItemMarkers source)
    (read : parserItem parsed source marker = some item)
    : ∃ opening : Opening, opening.text = source
        ∧ opening.Opens parsed.sourceRange.start item := by
  obtain ⟨markerRange, id⟩ := marker
  obtain ⟨node, present, marked⟩ := ListParse.mem_listItemMarkers member
  obtain ⟨start, stop, range, -, -, -⟩ := sound node present
  rw [range] at marked
  obtain ⟨before, lead, symbol, rest, kind, rfl, -, valid, starts, stops⟩ :=
    itemMarker_sound marked
  obtain ⟨opening, whole, atStart, unbroken, atEnd, rfl, front, back⟩ :=
    exists_opening before lead rest valid
  have place : utf8Len before + utf8Len lead
      = utf8Len opening.before + utf8Len opening.lead := by
    rw [← utf8Len_append, ← front, utf8Len_append]
  subst back
  rw [← whole] at sound read ⊢
  simp only at starts stops
  have relative : markerRange.start - parsed.sourceRange.start
      = utf8Len opening.before + utf8Len opening.lead := by
    omega
  have ends : markerRange.stop - parsed.sourceRange.start
        = utf8Len opening.before + utf8Len opening.lead + utf8Len opening.symbol
      ∨ markerRange.stop - parsed.sourceRange.start
          = utf8Len opening.before + utf8Len opening.lead + utf8Len opening.symbol + 1
        ∧ ∃ c more, opening.rest ++ opening.after = c :: more ∧ isIndent c = true :=
    stops.imp (fun _ => by omega) fun padded => ⟨by omega, padded.2⟩
  simp only [parserItem, Option.bind_eq_bind, Option.bind_eq_some_iff] at read
  obtain ⟨itemNode, -, ⟨listId, ordinal⟩, -, list, -, read⟩ := read
  split at read
  · have symbolText := Opening.slice_symbol valid atEnd ends
    simp only [relative, Opening.lineStart_marker atStart unbroken,
      Opening.lineEnd_line unbroken atEnd, symbolText, valid.kind, Opening.substring_lead] at read
    obtain rfl := Option.some.inj read
    have boundary := Boundary.of_append (opening.before ++ opening.line) opening.after
    rw [utf8Len_append, List.append_assoc] at boundary
    refine ⟨opening, rfl, atStart, unbroken, atEnd, valid, rfl, rfl, rfl, rfl, ?_, rfl,
      (nomatch ·), fun _ => itemSubtreeEnd_sound sound id boundary⟩
    simp only [starts, place]
  · cases read

-- Items of lines

/-- A span of a text is one of its lines, by induction on the lines. -/
theorem lineSpansFrom_sound {before text : Text} (starts : AtLineStart before)
    {lines : List SourceLine} (split : splitLines text = lines) {span : Nat × Nat}
    (member
      : span ∈ lineSpansFrom (utf8Len before) (lines.filter fun line => !line.text.isEmpty))
    : ∃ front line after, before ++ text = front ++ (line ++ after)
        ∧ span = (utf8Len front, utf8Len front + utf8Len line)
        ∧ AtLineStart front
        ∧ Unbroken line
        ∧ AtLineEnd after := by
  have wellFormed : ∀ line ∈ lines, line.WellFormed := split ▸ splitLines_wellFormed text
  induction lines generalizing before text with
  | nil => exact absurd split (splitLines_ne_nil text)
  | cons line lines ih =>
      have here := wellFormed line List.mem_cons_self
      have whole := splitLines_flatten text
      rw [split, List.map_cons, List.flatten_cons] at whole
      by_cases several : lines = []
      · subst several
        rw [List.map_nil, List.flatten_nil, List.append_nil] at whole
        by_cases filled : line.text = []
        · simp [filled, lineSpansFrom] at member
        · rw [List.filter_cons_of_pos (by simpa using filled)] at member
          obtain rfl := List.mem_singleton.mp member
          refine ⟨before, line.content, line.ending, by rw [← whole]; rfl, rfl, starts,
            unbroken_content here, ?_⟩
          simpa using AtLineEnd.ending here (.inr rfl)
      · obtain ⟨rest, rfl, later, ended, -⟩ := exists_rest_of_splitLines split several
        have filled : line.text ≠ [] := fun none => ended (List.append_eq_nil_iff.mp none).2
        rw [List.filter_cons_of_pos (by simpa using filled), lineSpansFrom] at member
        rcases List.mem_cons.mp member with rfl | member
        · exact ⟨before, line.content, line.ending ++ rest, by simp [SourceLine.text], rfl, starts,
            unbroken_content here, AtLineEnd.ending here (.inl ended)⟩
        · rw [← utf8Len_append] at member
          rw [← List.append_assoc]
          exact ih (.line before here ended) later member fun other inside =>
            wellFormed other (List.mem_cons_of_mem line inside)

theorem utf8Len_indent {text : Text} (blank : ∀ c ∈ text, isIndent c = true)
    : utf8Len text = text.length := by
  refine utf8Len_ascii fun c member => ?_
  have white := blank c member
  rw [isIndent, Bool.or_eq_true, beq_iff_eq, beq_iff_eq] at white
  rcases white with rfl | rfl <;> rfl

theorem recoveredItem_opens {parsed : ListParse} {source : Text} {items : List ListEditItem}
    {span : Nat × Nat} {item : ListEditItem} (member : span ∈ lineSpans source)
    (read : recoveredItem parsed source items span = some item)
    : ∃ opening : Opening, opening.text = source
        ∧ opening.Opens parsed.sourceRange.start item := by
  obtain ⟨front, line, after, split, rfl, starts, unbroken, stops⟩ :=
    lineSpansFrom_sound AtLineStart.nil rfl member
  rw [List.nil_append] at split
  have content : substring source (utf8Len front) (utf8Len front + utf8Len line) = line := by
    rw [split, substring_append]
  simp only [recoveredItem, content, Option.bind_eq_bind, Option.bind_eq_some_iff] at read
  obtain ⟨⟨indentEnd, markerEnd, marker⟩, marked, read⟩ := read
  obtain ⟨lead, symbol, rest, rfl, blank, valid, -, rfl, -⟩ := rawListMarker_eq_some_iff.mp marked
  split at read
  · simp at read
  · obtain rfl := Option.some.inj read
    refine ⟨⟨front, lead, symbol, rest, after⟩, split.symm, starts, unbroken, stops, valid, rfl,
      rfl, rfl, rfl, ?_, congrArg columns List.take_left, fun _ => ⟨blank, rfl⟩, (nomatch ·)⟩
    exact (Nat.add_assoc _ _ _).trans (by rw [utf8Len_indent blank])

-- The items of the projection

theorem Opening.Opens.linkItem {opening : Opening} {base : Nat} {item : ListEditItem}
    (opens : opening.Opens base item) (items : List ListEditItem)
    : opening.Opens base (linkItem items item) :=
  { opens with }

/-- Every item opens on a line of the source. -/
theorem buildListEditProjection_opens {parsed : ListParse} {source : Text}
    (sound : parsed.Sound source) {item : ListEditItem}
    (member : item ∈ (buildListEditProjection parsed source).items)
    : ∃ opening : Opening, opening.text = source
        ∧ opening.Opens parsed.sourceRange.start item := by
  have parserItems : ∀ item ∈ (parsed.listItemMarkers source).filterMap (parserItem parsed source),
      ∃ opening : Opening, opening.text = source
        ∧ opening.Opens parsed.sourceRange.start item := by
    intro item member
    obtain ⟨marker, marked, read⟩ := List.mem_filterMap.mp member
    exact parserItem_opens sound marked read
  have every (items : List ListEditItem) (spans : List (Nat × Nat))
      (inside : ∀ span ∈ spans, span ∈ lineSpans source)
      (opens : ∀ item ∈ items, ∃ opening : Opening, opening.text = source
        ∧ opening.Opens parsed.sourceRange.start item)
      : ∀ item ∈ spans.foldl
            (fun items span => items ++ (recoveredItem parsed source items span).toList) items,
          ∃ opening : Opening, opening.text = source
            ∧ opening.Opens parsed.sourceRange.start item := by
    induction spans generalizing items with
    | nil => exact opens
    | cons span spans ih =>
        obtain ⟨here, inside⟩ := List.forall_mem_cons.mp inside
        refine ih _ inside fun item member => ?_
        rcases List.mem_append.mp member with known | recovered
        · exact opens item known
        · exact recoveredItem_opens here (Option.mem_toList.mp recovered)
  obtain ⟨unlinked, sorted, rfl⟩ := List.mem_map.mp member
  obtain ⟨opening, whole, opens⟩ := every _ _ (fun _ inside => inside) parserItems unlinked
    ((List.mem_insertionSort _).mp sorted)
  exact ⟨opening, whole, opens.linkItem _⟩

-- Blocks of a document

/-- A parsed slice of a document that starts where a line does, and ends where a line does or
within the white space a line starts with.
-/
structure ListParse.Within (parsed : ListParse) (source : Text) (document : Text)
    (before after : Text) : Prop where
  document : document = before ++ (source ++ after)
  range : parsed.sourceRange = ⟨utf8Len before, utf8Len before + utf8Len source⟩
  starts : AtLineStart before
  stops
    : AtLineEnd after
      ∨ ∀ c ∈ source.rtakeWhile (fun c => !isLineBreak c), isIndent c = true

theorem AtLineStart.append {before front : Text} (first : AtLineStart before)
    (second : AtLineStart front)
    : AtLineStart (before ++ front) := by
  intro c last
  by_cases none : front = []
  · subst none
    exact first c (by simpa using last)
  · rw [List.getLast?_append_of_ne_nil _ none] at last
    exact second c last

theorem Opening.Opens.within {parsed : ListParse} {source document before after : Text}
    (block : parsed.Within source document before after) {opening : Opening}
    (whole : opening.text = source) {item : ListEditItem}
    (opens : opening.Opens parsed.sourceRange.start item)
    : ∃ outer : Opening, outer.text = document ∧ outer.Opens 0 item := by
  obtain ⟨rfl, range, starts, stops⟩ := block
  have place (offset : Nat)
      : parsed.sourceRange.start + offset = 0 + (utf8Len before + offset) := by
    rw [range, Nat.zero_add]
  subst whole
  have ends : AtLineEnd (opening.after ++ after) := by
    cases behind : opening.after with
    | cons c rest =>
        intro d first
        have breaks := opens.stops
        rw [behind] at breaks
        exact breaks d first
    | nil =>
        refine stops.resolve_right fun blank => ?_
        have cut : opening.text.rtakeWhile (fun c => !isLineBreak c) = opening.line := by
          have parts : opening.text.rdropWhile (fun c => !isLineBreak c)
              ++ opening.text.rtakeWhile (fun c => !isLineBreak c) = opening.text :=
            List.rdropWhile_append_rtakeWhile
          rw [Opening.text, behind, List.append_nil, rdropWhile_line opens.starts opens.unbroken]
            at parts
          rw [Opening.text, behind, List.append_nil]
          exact List.append_cancel_left parts
        obtain ⟨c, symbol, split⟩ := List.exists_cons_of_ne_nil opens.marked.ne_nil
        have shown := (opens.marked.plain c (by simp [split])).1
        rw [blank c (by simp [cut, Opening.line, split])] at shown
        cases shown
  refine ⟨⟨before ++ opening.before, opening.lead, opening.symbol, opening.rest,
    opening.after ++ after⟩, ?_, starts.append opens.starts, opens.unbroken, ends, opens.marked,
    ?_, ?_, opens.prefixStop, ?_, ?_, opens.indent, opens.recovered, ?_⟩
  · simp [Opening.text, Opening.line]
  · rw [opens.subtree, place, utf8Len_append]
  · rw [opens.prefixStart, place, utf8Len_append]
  · rw [opens.bodyStop, place, utf8Len_append, Nat.add_assoc]
    rfl
  · rw [opens.markerStart, place, utf8Len_append, Nat.add_assoc]
  · intro listed
    obtain ⟨stop, same, boundary, inside⟩ := opens.parsed listed
    refine ⟨utf8Len before + stop, same.trans (place stop), ?_, ?_⟩
    · obtain ⟨front, back, split, rfl⟩ := boundary
      refine ⟨before ++ front, back ++ after, ?_, utf8Len_append _ _⟩
      calc (before ++ opening.before) ++ (opening.line ++ (opening.after ++ after))
          = before ++ (opening.text ++ after) := by simp [Opening.text]
        _ = before ++ front ++ (back ++ after) := by simp [split]
    · rw [utf8Len_append, Nat.add_assoc]
      exact Nat.add_le_add_left inside (utf8Len before)

/-- The item at an offset is one of the projection, by induction on the items there. -/
theorem ListEditProjection.mem_of_itemAt {projection : ListEditProjection} {offset : Nat}
    {item : ListEditItem} (found : projection.itemAt offset = some item)
    : item ∈ projection.items := by
  rw [itemAt] at found
  refine List.mem_of_mem_filter (p := fun item : ListEditItem =>
    item.prefixRange.start ≤ offset
      && (offset < item.itemRange.stop
        || (offset == item.itemRange.stop && item.bodyRange.stop == item.itemRange.stop))) ?_
  generalize projection.items.filter _ = here at found ⊢
  suffices chosen : ∀ best, here.foldl _ best = some item → item ∈ here ∨ best = some item from
    (chosen none found).resolve_right (nomatch ·)
  clear found
  intro best found
  induction here generalizing best with
  | nil => exact .inr found
  | cons other here ih =>
      rcases ih _ found with later | kept
      · exact .inl (List.mem_cons_of_mem other later)
      · simp only at kept
        split at kept
        · exact .inl (Option.some.inj kept ▸ List.mem_cons_self)
        · split at kept
          · exact .inl (Option.some.inj kept ▸ List.mem_cons_self)
          · exact .inr kept

theorem itemAt_opens {parsed : ListParse} {source document before after : Text}
    (sound : parsed.Sound source) (block : parsed.Within source document before after)
    {offset : Nat} {item : ListEditItem}
    (found : (buildListEditProjection parsed source).itemAt offset = some item)
    : ∃ opening : Opening, opening.text = document ∧ opening.Opens 0 item := by
  obtain ⟨inner, whole, opens⟩ :=
    buildListEditProjection_opens sound (ListEditProjection.mem_of_itemAt found)
  exact opens.within block whole

end Hane.Markdown
