import Hane.Markdown.ListProjection

/-! What the two marker recognizers accept: the bullets and numbers of list items. -/

namespace Hane.Markdown

open Hane.Document Hane.Foundations

/-- A bullet, or a number of up to nine digits and its delimiter. -/
inductive IsSymbol : Text → ListMarker → Prop where
  | bullet {c : Char} (known : c = '-' ∨ c = '+' ∨ c = '*') : IsSymbol [c] (.unordered c)
  | number {digits : Text} {delimiter : Char} (filled : digits ≠ []) (few : digits.length ≤ 9)
      (numeric : ∀ c ∈ digits, c.isDigit = true) (closes : delimiter = '.' ∨ delimiter = ')')
      : IsSymbol (digits ++ [delimiter]) (.ordered delimiter)

theorem utf8Len_ascii {text : Text} (ascii : ∀ c ∈ text, c.utf8Size = 1)
    : utf8Len text = text.length := by
  induction text with
  | nil => rfl
  | cons c rest ih =>
      obtain ⟨first, others⟩ := List.forall_mem_cons.mp ascii
      rw [utf8Len_cons, first, ih others, List.length_cons, Nat.add_comm]

theorem plain_of_isDigit {c : Char} (numeric : c.isDigit = true)
    : isIndent c = false ∧ isLineBreak c = false ∧ c.utf8Size = 1 := by
  have bounds : 48 ≤ c.toNat ∧ c.toNat ≤ 57 := by
    simpa [Char.isDigit, UInt32.le_iff_toNat_le] using numeric
  have other {d : Char} (outside : d.toNat < 48) : c ≠ d := by
    rintro rfl
    omega
  refine ⟨?_, ?_, ?_⟩
  · simp [isIndent, other (d := ' ') (by decide), other (d := '\t') (by decide)]
  · simp [isLineBreak, other (d := '\n') (by decide), other (d := '\r') (by decide)]
  · rw [Char.utf8Size_eq_one_iff, UInt32.le_iff_toNat_le]
    exact Nat.le_trans bounds.2 (by decide)

namespace IsSymbol

variable {symbol : Text} {marker : ListMarker}

theorem plain (valid : IsSymbol symbol marker)
    : ∀ c ∈ symbol, isIndent c = false ∧ isLineBreak c = false ∧ c.utf8Size = 1 := by
  intro c member
  cases valid with
  | bullet known =>
      obtain rfl := List.mem_singleton.mp member
      rcases known with rfl | rfl | rfl <;> decide
  | number filled few numeric closes =>
      rcases List.mem_append.mp member with member | member
      · exact plain_of_isDigit (numeric c member)
      · obtain rfl := List.mem_singleton.mp member
        rcases closes with rfl | rfl <;> decide

theorem ne_nil (valid : IsSymbol symbol marker) : symbol ≠ [] := by
  cases valid <;> simp

theorem unbroken (valid : IsSymbol symbol marker) : Unbroken symbol := fun c member =>
  (valid.plain c member).2.1

theorem utf8Len (valid : IsSymbol symbol marker) : Document.utf8Len symbol = symbol.length :=
  utf8Len_ascii fun c member => (valid.plain c member).2.2

theorem takeWhile (valid : IsSymbol symbol marker) {lead : Text}
    (blank : ∀ c ∈ lead, isIndent c = true) (rest : Text)
    : (lead ++ (symbol ++ rest)).takeWhile isIndent = lead := by
  rw [List.takeWhile_append_of_pos blank]
  cases symbol with
  | nil => exact absurd rfl valid.ne_nil
  | cons c more =>
      have visible := (valid.plain c List.mem_cons_self).1
      simp [visible]

/-- The kind of a symbol is read off its ends. -/
theorem kind (valid : IsSymbol symbol marker)
    : (if symbol.head?.any Char.isDigit then
        ListMarker.ordered (symbol.getLast?.getD '.')
      else
        ListMarker.unordered (symbol.head?.getD '-'))
      = marker := by
  cases valid with
  | bullet known => rcases known with rfl | rfl | rfl <;> rfl
  | number filled few numeric closes =>
      rename_i digits delimiter
      cases digits with
      | nil => exact absurd rfl filled
      | cons c rest =>
          have last : (c :: rest ++ [delimiter]).getLast? = some delimiter :=
            List.getLast?_concat
          rw [last]
          simp [numeric c List.mem_cons_self]

end IsSymbol

theorem symbolEnd_sound {text : Text} {place stop : Nat}
    (found : PrefixCursor.symbolEnd text place = some stop)
    : ∃ symbol marker rest, text.drop place = symbol ++ rest
        ∧ stop = place + symbol.length
        ∧ IsSymbol symbol marker := by
  have here (index : Nat) : text[place + index]? = (text.drop place)[index]? :=
    List.getElem?_drop.symm
  have first := here 0
  rw [PrefixCursor.symbolEnd] at found
  obtain ⟨behind, shown⟩ : ∃ behind, text.drop place = behind := ⟨_, rfl⟩
  rw [Nat.add_zero] at first
  rw [shown] at found here first ⊢
  cases behind with
  | nil =>
      rw [List.getElem?_nil] at first
      simp [first] at found
  | cons c rest =>
      rw [List.getElem?_cons_zero] at first
      simp only [first] at found
      by_cases known : c = '-' ∨ c = '+' ∨ c = '*'
      · rw [if_pos known] at found
        exact ⟨[c], _, rest, rfl, (Option.some.inj found).symm, .bullet known⟩
      · rw [if_neg known] at found
        by_cases numeric : c.isDigit = true
        · rw [if_pos numeric] at found
          obtain ⟨digits, read⟩ : ∃ digits, ((c :: rest).take 9).takeWhile Char.isDigit = digits :=
            ⟨_, rfl⟩
          obtain ⟨more, split⟩ : digits <+: c :: rest :=
            read ▸ (List.takeWhile_prefix _).trans (List.take_prefix 9 _)
          have few : digits.length ≤ 9 := by
            have shorter := (List.takeWhile_prefix Char.isDigit (l := (c :: rest).take 9)).length_le
            rw [read, List.length_take] at shorter
            omega
          have filled : digits ≠ [] := by
            rintro rfl
            simp [numeric] at read
          have closes := here digits.length
          rw [← split, List.getElem?_append_right (Nat.le_refl _), Nat.sub_self] at closes
          simp only [read, closes] at found
          cases more with
          | nil => simp at found
          | cons delimiter behind =>
              simp only [List.getElem?_cons_zero, Option.some.injEq] at found
              by_cases known : delimiter = '.' ∨ delimiter = ')'
              · rw [if_pos known] at found
                refine ⟨digits ++ [delimiter], _, behind, by simp [← split], ?_,
                  .number filled few ?_ known⟩
                · rw [List.length_append, List.length_singleton]
                  exact (Option.some.inj found).symm
                · intro c member
                  exact List.mem_takeWhile_imp (read ▸ member)
              · rw [if_neg known] at found
                cases found
        · rw [if_neg numeric] at found
          cases found

theorem symbolEnd_complete {text symbol rest : Text} {marker : ListMarker} {place : Nat}
    (valid : IsSymbol symbol marker) (behind : text.drop place = symbol ++ rest)
    : PrefixCursor.symbolEnd text place = some (place + symbol.length) := by
  have here (index : Nat) : text[place + index]? = (symbol ++ rest)[index]? := by
    rw [← behind, List.getElem?_drop]
  have first := here 0
  rw [Nat.add_zero] at first
  cases valid with
  | bullet known => simp [PrefixCursor.symbolEnd, first, known]
  | number filled few numeric closes =>
      rename_i digits delimiter
      have other : delimiter.isDigit = false := by rcases closes with rfl | rfl <;> rfl
      have read : ((text.drop place).take 9).takeWhile Char.isDigit = digits := by
        rw [behind, List.append_assoc, List.take_append, List.take_of_length_le few,
          List.takeWhile_append_of_pos numeric]
        cases 9 - digits.length <;> simp [other]
      have closed := here digits.length
      rw [List.append_assoc, List.getElem?_append_right (Nat.le_refl _), Nat.sub_self] at closed
      cases digits with
      | nil => exact absurd rfl filled
      | cons c more =>
          have numeral := numeric c List.mem_cons_self
          have noBullet : ¬(c = '-' ∨ c = '+' ∨ c = '*') := by
            rintro (rfl | rfl | rfl) <;> cases numeral
          have ends : delimiter = '.' ∨ delimiter = ')' := closes
          rw [PrefixCursor.symbolEnd, first]
          simp only [List.cons_append, List.getElem?_cons_zero, if_neg noBullet, if_pos numeral,
            read, closed]
          simp [ends]
          omega

/-- What is read of a line whose indentation a symbol follows. -/
theorem rawListMarker_symbol {lead symbol rest : Text} {marker : ListMarker}
    (blank : ∀ c ∈ lead, isIndent c = true) (valid : IsSymbol symbol marker)
    : rawListMarker (lead ++ (symbol ++ rest))
      = if rest.head?.any fun c => !isIndent c then
          none
        else
          some (lead.length, lead.length + symbol.length + (rest.take 1).length, marker) := by
  have place : ((lead ++ (symbol ++ rest)).takeWhile isIndent).length = lead.length :=
    congrArg List.length (valid.takeWhile blank rest)
  have ends := symbolEnd_complete valid (List.drop_left : (lead ++ (symbol ++ rest)).drop _ = _)
  have filled := List.length_pos_iff.mpr valid.ne_nil
  have behind : (lead ++ (symbol ++ rest))[lead.length + symbol.length]? = rest.head? := by
    rw [← List.append_assoc, ← List.length_append, List.getElem?_append_right (Nat.le_refl _),
      Nat.sub_self, List.head?_eq_getElem?]
  have head : (lead ++ (symbol ++ rest))[lead.length]? = symbol.head? := by
    rw [List.getElem?_append_right (Nat.le_refl _), Nat.sub_self,
      List.getElem?_append_left filled, List.head?_eq_getElem?]
  have last : (lead ++ (symbol ++ rest))[lead.length + symbol.length - 1]? = symbol.getLast? := by
    rw [List.getElem?_append_right (by omega), List.getElem?_append_left (by omega),
      List.getLast?_eq_getElem?]
    congr 1
    omega
  have size : (if lead.length + symbol.length < (lead ++ (symbol ++ rest)).length then
        lead.length + symbol.length + 1
      else
        lead.length + symbol.length)
      = lead.length + symbol.length + (rest.take 1).length := by
    cases rest with
    | nil => simp
    | cons c more =>
        rw [if_pos (by simp only [List.length_append, List.length_cons]; omega)]
        rfl
  rw [rawListMarker]
  simp only [place, ends, behind, head, last, size, valid.kind, Option.bind_eq_bind,
    Option.bind_some]
  split <;> rfl

theorem rawListMarker_eq_some_iff {line : Text} {found : Nat × Nat × ListMarker}
    : rawListMarker line = some found
      ↔ ∃ lead symbol rest, line = lead ++ (symbol ++ rest)
          ∧ (∀ c ∈ lead, isIndent c = true)
          ∧ IsSymbol symbol found.2.2
          ∧ (∀ c, rest.head? = some c → isIndent c = true)
          ∧ found.1 = lead.length
          ∧ found.2.1 = lead.length + symbol.length + (rest.take 1).length := by
  have separated {rest : Text}
      : (rest.head?.any fun c => !isIndent c) = false
        ↔ ∀ c, rest.head? = some c → isIndent c = true := by
    cases rest <;> simp
  constructor
  · intro read
    obtain ⟨stop, ends⟩ : ∃ stop, PrefixCursor.symbolEnd line (line.takeWhile isIndent).length
        = some stop := by
      rw [rawListMarker] at read
      cases ends : PrefixCursor.symbolEnd line (line.takeWhile isIndent).length with
      | none => simp [ends] at read
      | some stop => exact ⟨stop, rfl⟩
    obtain ⟨symbol, marker, rest, behind, -, valid⟩ := symbolEnd_sound ends
    have whole : line = line.takeWhile isIndent ++ (symbol ++ rest) :=
      calc line = line.take (line.takeWhile isIndent).length
              ++ line.drop (line.takeWhile isIndent).length := (List.take_append_drop _ _).symm
        _ = line.takeWhile isIndent ++ (symbol ++ rest) := by
          rw [← List.prefix_iff_eq_take.mp (List.takeWhile_prefix isIndent), behind]
    have blank : ∀ c ∈ line.takeWhile isIndent, isIndent c = true := fun c member =>
      List.mem_takeWhile_imp member
    rw [whole, rawListMarker_symbol blank valid] at read
    split at read
    · cases read
    · rename_i free
      obtain rfl := Option.some.inj read
      exact ⟨_, symbol, rest, whole, blank, valid, separated.mp (by simpa using free), rfl, rfl⟩
  · rintro ⟨lead, symbol, rest, rfl, blank, valid, free, starts, stops⟩
    rw [rawListMarker_symbol blank valid, separated.mpr free]
    simp only [Bool.false_eq_true, if_false, ← starts]
    rw [starts, ← stops, ← starts]

end Hane.Markdown
