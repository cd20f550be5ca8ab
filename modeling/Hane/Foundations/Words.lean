import Hane.Foundations.PlainText
import Mathlib.Data.List.Chain

/-! The words of a text, and texts whose words are one space apart. -/

namespace Hane.Foundations

/-- The stretches of a text without white space. -/
def splitWhitespace : List Char → List (List Char)
  | [] => []
  | c :: rest =>
    if isWhitespace c then splitWhitespace rest
    else if rest.head?.all isWhitespace then [c] :: splitWhitespace rest
    else (splitWhitespace rest).modifyHead (c :: ·)

def joinWords (words : List (List Char)) : List Char := [' '].intercalate words

/-- White space is single spaces. -/
structure Tidy (text : List Char) : Prop where
  spaced : text.IsChain fun c d => isWhitespace c = false ∨ isWhitespace d = false
  spaces : ∀ c ∈ text, isWhitespace c = true → c = ' '

/-- A text that does not begin with white space. -/
def StartsVisible (text : List Char) : Prop := text.head?.all (!isWhitespace ·) = true

theorem StartsVisible.trimStart {text : List Char} (visible : StartsVisible text)
    : trimStart text = text := by
  cases text with
  | nil => rfl
  | cons c rest =>
      have white : isWhitespace c = false := by simpa [StartsVisible] using visible
      exact List.dropWhile_cons_of_neg (by simp [white])

theorem StartsVisible.beginning {text first : List Char} (visible : StartsVisible text)
    (start : first <+: text)
    : StartsVisible first := by
  cases first with
  | nil => rfl
  | cons c rest =>
      obtain ⟨more, rfl⟩ := start
      exact visible

theorem StartsVisible.trim {text : List Char} (visible : StartsVisible text)
    : trim text <+: text
      ∧ ∀ c, (Hane.Foundations.trim text).getLast? = some c → isWhitespace c = false := by
  rw [Hane.Foundations.trim, visible.trimStart, trimEnd]
  refine ⟨List.rdropWhile_prefix isWhitespace text, fun c last => ?_⟩
  have filled : text.rdropWhile isWhitespace ≠ [] := by
    intro none
    rw [none] at last
    cases last
  have visible := List.rdropWhile_last_not isWhitespace text filled
  rw [List.getLast?_eq_some_getLast filled, Option.some.injEq] at last
  simpa [last] using visible

theorem StartsVisible.trim_eq {text : List Char} (visible : StartsVisible text)
    (ends : ∀ c, text.getLast? = some c → isWhitespace c = false)
    : Hane.Foundations.trim text = text := by
  rw [Hane.Foundations.trim, visible.trimStart, trimEnd]
  refine List.rdropWhile_eq_self_iff.mpr fun filled white => ?_
  have last := ends _ (List.getLast?_eq_some_getLast filled)
  rw [white] at last
  cases last

-- The words of a text

/-- Words are filled, visible and made of the text's characters, by induction over the text. -/
theorem mem_splitWhitespace {text word : List Char} (member : word ∈ splitWhitespace text)
    : word ≠ [] ∧ ∀ c ∈ word, isWhitespace c = false ∧ c ∈ text := by
  induction text generalizing word with
  | nil => cases member
  | cons c rest ih =>
      rw [splitWhitespace] at member
      split at member
      next =>
        obtain ⟨filled, visible⟩ := ih member
        exact ⟨filled, fun d inside => ⟨(visible d inside).1, .tail c (visible d inside).2⟩⟩
      next visible =>
        have here : isWhitespace c = false := by simpa using visible
        split at member
        next =>
          rcases List.mem_cons.mp member with rfl | later
          · refine ⟨List.cons_ne_nil c [], fun d inside => ?_⟩
            rw [List.mem_singleton.mp inside]
            exact ⟨here, List.mem_cons_self⟩
          · obtain ⟨filled, others⟩ := ih later
            exact ⟨filled, fun d inside => ⟨(others d inside).1, .tail c (others d inside).2⟩⟩
        next =>
          cases words : splitWhitespace rest with
          | nil =>
              rw [words] at member
              cases member
          | cons first more =>
              rw [words, List.modifyHead_cons] at member
              rcases List.mem_cons.mp member with rfl | later
              · refine ⟨List.cons_ne_nil c first, fun d inside => ?_⟩
                rcases List.mem_cons.mp inside with rfl | behind
                · exact ⟨here, List.mem_cons_self⟩
                · have held := (ih (words ▸ List.mem_cons_self)).2 d behind
                  exact ⟨held.1, .tail c held.2⟩
              · obtain ⟨filled, others⟩ := ih (words ▸ List.mem_cons_of_mem first later)
                exact ⟨filled, fun d inside => ⟨(others d inside).1, .tail c (others d inside).2⟩⟩

/-- A visible character begins a word. -/
theorem splitWhitespace_filled {c : Char} {rest : List Char} (visible : isWhitespace c = false)
    : splitWhitespace (c :: rest) ≠ [] := by
  induction rest generalizing c with
  | nil => simp [splitWhitespace, visible]
  | cons d rest ih =>
      rw [splitWhitespace, if_neg (by simp [visible])]
      split
      next => exact List.cons_ne_nil _ _
      next inner =>
        have next : isWhitespace d = false := by simpa using inner
        intro none
        exact ih next (by simpa using none)

theorem joinWords_cons {word : List Char} {others : List (List Char)} (more : others ≠ [])
    : joinWords (word :: others) = word ++ ' ' :: joinWords others := by
  obtain ⟨next, rest, rfl⟩ := List.exists_cons_of_ne_nil more
  simp [joinWords, List.intercalate]

theorem joinWords_singleton (word : List Char) : joinWords [word] = word := by
  simp [joinWords, List.intercalate]

/-- The characters of joined words, by induction over the words. -/
theorem mem_joinWords {words : List (List Char)} {c : Char} (member : c ∈ joinWords words)
    : c = ' ' ∨ ∃ word ∈ words, c ∈ word := by
  induction words with
  | nil => cases member
  | cons word rest ih =>
      cases rest with
      | nil =>
          rw [joinWords_singleton] at member
          exact .inr ⟨word, List.mem_cons_self, member⟩
      | cons next more =>
          rw [joinWords_cons (List.cons_ne_nil next more)] at member
          rcases List.mem_append.mp member with here | member
          · exact .inr ⟨word, List.mem_cons_self, here⟩
          · rcases List.mem_cons.mp member with space | later
            · exact .inl space
            · obtain found | ⟨held, inside, has⟩ := ih later
              · exact .inl found
              · exact .inr ⟨held, List.mem_cons_of_mem word inside, has⟩

theorem joinWords_modifyHead {words : List (List Char)} (filled : words ≠ []) (c : Char)
    : joinWords (words.modifyHead (c :: ·)) = c :: joinWords words := by
  obtain ⟨first, rest, rfl⟩ := List.exists_cons_of_ne_nil filled
  cases rest with
  | nil => rw [List.modifyHead_cons, joinWords_singleton, joinWords_singleton]
  | cons next more =>
      rw [List.modifyHead_cons, joinWords_cons (List.cons_ne_nil next more),
        joinWords_cons (List.cons_ne_nil next more), List.cons_append]

-- Tidy texts

theorem Tidy.tail {c : Char} {rest : List Char} (tidy : Tidy (c :: rest)) : Tidy rest :=
  ⟨tidy.spaced.tail, fun d member => tidy.spaces d (.tail c member)⟩

theorem Tidy.beginning {text start : List Char} (tidy : Tidy text) (first : start <+: text)
    : Tidy start := by
  obtain ⟨rest, rfl⟩ := first
  exact ⟨tidy.spaced.left_of_append, fun c member => tidy.spaces c (List.mem_append_left rest member)⟩

/-- A tidy text without white space at its end joins from its words, after a space if it begins
with one, by induction over the text.
-/
theorem joinWords_splitWhitespace {text : List Char} (tidy : Tidy text)
    (ends : ∀ c, text.getLast? = some c → isWhitespace c = false)
    : text = [] ∨ (StartsVisible text ∧ joinWords (splitWhitespace text) = text)
      ∨ ∃ rest, text = ' ' :: rest ∧ rest ≠ [] ∧ StartsVisible rest
          ∧ splitWhitespace text = splitWhitespace rest
          ∧ joinWords (splitWhitespace rest) = rest := by
  induction text with
  | nil => exact .inl rfl
  | cons c rest ih =>
      refine .inr ?_
      cases rest with
      | nil =>
          have visible := ends c rfl
          refine .inl ⟨by simp [StartsVisible, visible], ?_⟩
          simp [splitWhitespace, visible, joinWords_singleton]
      | cons d more =>
          have inner := ih tidy.tail (fun last same => ends last (by simpa using same))
          have apart := (List.isChain_cons_cons.mp tidy.spaced).1
          cases white : isWhitespace c with
          | true =>
              have visible : isWhitespace d = false := by simpa [white] using apart
              have space := tidy.spaces c List.mem_cons_self white
              rcases inner with none | ⟨starts, joins⟩ | ⟨others, same, -⟩
              · cases none
              · refine .inr ⟨d :: more, by rw [space], List.cons_ne_nil d more, starts, ?_, joins⟩
                rw [splitWhitespace, if_pos white]
              · obtain ⟨rfl, -⟩ := List.cons.inj same
                exact absurd visible (by decide)
          | false =>
              refine .inl ⟨by simp [StartsVisible, white], ?_⟩
              rw [splitWhitespace, if_neg (by simp [white])]
              rcases inner with none | ⟨starts, joins⟩ | ⟨others, same, filled, starts, words, joins⟩
              · cases none
              · have visible : isWhitespace d = false := by simpa [StartsVisible] using starts
                rw [if_neg (by simp [visible]),
                  joinWords_modifyHead (splitWhitespace_filled visible), joins]
              · obtain ⟨rfl, rfl⟩ := List.cons.inj same
                obtain ⟨e, last, rfl⟩ := List.exists_cons_of_ne_nil filled
                have visible : isWhitespace e = false := by simpa [StartsVisible] using starts
                have space : ((' ' :: e :: last).head?.all isWhitespace) = true := by
                  simp only [List.head?_cons, Option.all_some]
                  decide
                rw [if_pos space, words, joinWords_cons (splitWhitespace_filled visible), joins]
                rfl

/-- Filled words without white space join to a tidy text that begins visibly, by induction over
the words.
-/
theorem tidy_joinWords {words : List (List Char)}
    (plain : ∀ word ∈ words, word ≠ [] ∧ ∀ c ∈ word, isWhitespace c = false)
    : Tidy (joinWords words) ∧ StartsVisible (joinWords words) := by
  have alone : ∀ {word : List Char}, (∀ c ∈ word, isWhitespace c = false)
      → word.IsChain fun c d => isWhitespace c = false ∨ isWhitespace d = false := by
    intro word visible
    induction word with
    | nil => exact .nil
    | cons c rest ih =>
        obtain ⟨first, others⟩ := List.forall_mem_cons.mp visible
        exact (ih others).cons fun d _ => .inl first
  induction words with
  | nil => exact ⟨⟨.nil, fun c member => absurd member List.not_mem_nil⟩, rfl⟩
  | cons word rest ih =>
      obtain ⟨⟨filled, visible⟩, others⟩ := List.forall_mem_cons.mp plain
      obtain ⟨c, more, rfl⟩ := List.exists_cons_of_ne_nil filled
      have first : isWhitespace c = false := visible c List.mem_cons_self
      cases rest with
      | nil =>
          rw [joinWords_singleton]
          refine ⟨⟨alone visible, fun d member white => ?_⟩, by simp [StartsVisible, first]⟩
          rw [visible d member] at white
          cases white
      | cons next last =>
          obtain ⟨tidy, starts⟩ := ih others
          rw [joinWords_cons (List.cons_ne_nil next last)]
          refine ⟨⟨?_, ?_⟩, by simp [StartsVisible, first]⟩
          · refine (alone visible).append ?_ ?_
            · refine tidy.spaced.cons fun d head => .inr ?_
              simpa [StartsVisible, Option.mem_def.mp head] using starts
            · intro d lastOf e head
              exact .inl (visible d (List.mem_of_getLast? lastOf))
          · intro d member white
            rcases List.mem_append.mp member with inWord | later
            · rw [visible d inWord] at white
              cases white
            · rcases List.mem_cons.mp later with rfl | inner
              · rfl
              · exact tidy.spaces d inner white

end Hane.Foundations
