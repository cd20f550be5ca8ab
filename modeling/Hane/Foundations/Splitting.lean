import Mathlib.Data.List.Infix

/-! Cutting a list at the first place of a separator, or at the last place of one item. -/

namespace Hane.Foundations.Splitting

variable {α : Type} [DecidableEq α]

-- The first separator

def splitFirst (separator : List α) : List α → Option (List α × List α)
  | [] => if separator = [] then some ([], []) else none
  | item :: rest =>
    if separator <+: item :: rest then some ([], (item :: rest).drop separator.length)
    else (splitFirst separator rest).map fun parts => (item :: parts.1, parts.2)

theorem splitFirst_prefix (separator rest : List α)
    : splitFirst separator (separator ++ rest) = some ([], rest) := by
  cases whole : separator ++ rest with
  | nil =>
      obtain ⟨empty, none⟩ := List.append_eq_nil_iff.mp whole
      simp [splitFirst, empty, none]
  | cons item others =>
      have starts : separator <+: item :: others := ⟨rest, whole⟩
      rw [splitFirst, if_pos starts, ← whole, List.drop_left]

/-- The parts and the separator make up the text, by induction over it. -/
theorem splitFirst_sound {separator text before after : List α}
    (split : splitFirst separator text = some (before, after))
    : text = before ++ separator ++ after := by
  induction text generalizing before with
  | nil =>
      by_cases empty : separator = []
      · simp only [splitFirst, if_pos empty, Option.some.injEq, Prod.mk.injEq] at split
        simp [empty, ← split.1, ← split.2]
      · simp [splitFirst, if_neg empty] at split
  | cons item rest ih =>
      by_cases starts : separator <+: item :: rest
      · simp only [splitFirst, if_pos starts, Option.some.injEq, Prod.mk.injEq] at split
        obtain ⟨others, whole⟩ := starts
        rw [← split.1, ← split.2, ← whole, List.drop_left, List.nil_append]
      · simp only [splitFirst, if_neg starts, Option.map_eq_some_iff, Prod.mk.injEq] at split
        obtain ⟨parts, found, rfl, rfl⟩ := split
        rw [ih found]
        rfl

/-- No split means no separator anywhere, by induction over the text. -/
theorem splitFirst_eq_none_iff {separator text : List α}
    : splitFirst separator text = none ↔ ¬separator <:+: text := by
  induction text with
  | nil => by_cases empty : separator = [] <;> simp [splitFirst, empty]
  | cons item rest ih =>
      by_cases starts : separator <+: item :: rest
      · simp [splitFirst, starts, List.infix_cons_iff]
      · simp [splitFirst, starts, List.infix_cons_iff, ih]

/-- What follows the first separator does not matter to where it lies, by induction over the
text.
-/
theorem splitFirst_replace {separator text before after : List α} (other : List α)
    (split : splitFirst separator text = some (before, after))
    : splitFirst separator (before ++ separator ++ other) = some (before, other) := by
  induction text generalizing before with
  | nil =>
      by_cases empty : separator = []
      · simp only [splitFirst, if_pos empty, Option.some.injEq, Prod.mk.injEq] at split
        rw [← split.1, List.nil_append]
        exact splitFirst_prefix separator other
      · simp [splitFirst, if_neg empty] at split
  | cons item rest ih =>
      by_cases starts : separator <+: item :: rest
      · simp only [splitFirst, if_pos starts, Option.some.injEq, Prod.mk.injEq] at split
        rw [← split.1, List.nil_append]
        exact splitFirst_prefix separator other
      · simp only [splitFirst, if_neg starts, Option.map_eq_some_iff, Prod.mk.injEq] at split
        obtain ⟨parts, found, rfl, rfl⟩ := split
        have late : ¬separator <+: item :: (parts.1 ++ separator ++ other) := by
          intro early
          have whole : item :: (parts.1 ++ separator) <+: item :: rest := by
            rw [splitFirst_sound found]
            exact ⟨parts.2, by simp⟩
          have within : separator <+: item :: (parts.1 ++ separator) :=
            List.prefix_of_prefix_length_le early ⟨other, by simp⟩ (by simp; omega)
          exact starts (within.trans whole)
        simp only [List.cons_append, splitFirst, if_neg late, ih found, Option.map_some]

/-- A separator whose first item is not in the text before it, by induction over that text. -/
theorem splitFirst_fresh {item : α} {separator before : List α} (after : List α)
    (fresh : item ∉ before)
    : splitFirst (item :: separator) (before ++ item :: separator ++ after)
        = some (before, after) := by
  induction before with
  | nil => exact splitFirst_prefix (item :: separator) after
  | cons head rest ih =>
      simp only [List.mem_cons, not_or] at fresh
      have late : ¬item :: separator <+: head :: (rest ++ item :: separator ++ after) :=
        fun early => fresh.1 (List.cons_prefix_cons.mp early).1
      simp only [List.cons_append, splitFirst, if_neg late, ih fresh.2, Option.map_some]

-- The last item

def splitLast (item : α) : List α → Option (List α × List α)
  | [] => none
  | head :: rest =>
    match splitLast item rest with
    | some (before, after) => some (head :: before, after)
    | none => if head = item then some ([], rest) else none

/-- No split means no such item, by induction over the text. -/
theorem splitLast_eq_none_iff {item : α} {text : List α}
    : splitLast item text = none ↔ item ∉ text := by
  induction text with
  | nil => simp [splitLast]
  | cons head rest ih =>
      cases found : splitLast item rest with
      | some parts =>
          have present : item ∈ rest := by simpa [found] using ih
          simp [splitLast, found, present]
      | none =>
          have absent : item ∉ rest := ih.mp found
          by_cases same : head = item
          · simp [splitLast, found, same]
          · simp [splitLast, found, same, absent, Ne.symm same]

/-- The parts make up the text and no such item follows, by induction over the text. -/
theorem splitLast_sound {item : α} {text before after : List α}
    (split : splitLast item text = some (before, after))
    : text = before ++ item :: after ∧ item ∉ after := by
  induction text generalizing before with
  | nil => cases split
  | cons head rest ih =>
      cases found : splitLast item rest with
      | some parts =>
          simp only [splitLast, found, Option.some.injEq, Prod.mk.injEq] at split
          obtain ⟨rfl, rfl⟩ := split
          obtain ⟨whole, absent⟩ := ih found
          exact ⟨by rw [whole]; rfl, absent⟩
      | none =>
          by_cases same : head = item
          · simp only [splitLast, found, if_pos same, Option.some.injEq, Prod.mk.injEq] at split
            obtain ⟨rfl, rfl⟩ := split
            exact ⟨by rw [same]; rfl, splitLast_eq_none_iff.mp found⟩
          · simp [splitLast, found, if_neg same] at split

/-- An item that does not follow is the last one, by induction over what lies before it. -/
theorem splitLast_fresh {item : α} {after : List α} (before : List α) (fresh : item ∉ after)
    : splitLast item (before ++ item :: after) = some (before, after) := by
  induction before with
  | nil => simp [splitLast, splitLast_eq_none_iff.mpr fresh]
  | cons head rest ih => rw [List.cons_append, splitLast, ih]

-- The first stretch

omit [DecidableEq α] in
/-- Nothing more is taken where dropping stopped. -/
theorem takeWhile_dropWhile (kind : α → Bool) (text : List α)
    : (text.dropWhile kind).takeWhile kind = [] := by
  induction text with
  | nil => rfl
  | cons item rest ih =>
      cases holds : kind item with
      | true => rw [List.dropWhile_cons_of_pos holds, ih]
      | false => simp [holds]

end Hane.Foundations.Splitting
