import Mathlib.Tactic.Common

/-! Indentations of spaces and tabs. A space takes one column, a tab goes on to the next tab stop. -/

namespace Hane.Foundations.TabStops

/-- The column behind an indentation, from the column in front of it. -/
def advance (width column : Nat) : List Char → Nat
  | [] => column
  | c :: rest =>
      advance width (column + if c = '\t' then width - column % width else 1) rest

/-- The spaces in front of the first tab. -/
def lead (text : List Char) : Nat := (text.takeWhile fun c => c != '\t').length

/-- The shortest start of an indentation that counts some amount, where a tab counts `width`; all
of it if it counts less.
-/
def cut (width : Nat) : (amount : Nat) → List Char → List Char
  | _, [] => []
  | amount, c :: rest =>
      if amount = 0 then
        []
      else
        c :: cut width (amount - if c = '\t' then width else 1) rest

def left (width amount : Nat) (text : List Char) : List Char :=
  text.drop (cut width amount text).length

variable {width : Nat}

theorem advance_append (column : Nat) (front back : List Char)
    : advance width column (front ++ back) = advance width (advance width column front) back := by
  induction front generalizing column with
  | nil => rfl
  | cons c front ih => exact ih _

theorem advance_plain {text : List Char} (plain : '\t' ∉ text) (column : Nat)
    : advance width column text = column + text.length := by
  induction text generalizing column with
  | nil => rfl
  | cons c rest ih =>
      obtain ⟨other, plain⟩ := not_or.mp (List.mem_cons.not.mp plain)
      rw [advance, if_neg (Ne.symm other), ih plain, List.length_cons]
      omega

/-- A move by whole tab stops moves what follows, by induction on the indentation. -/
theorem advance_add {amount : Nat} (whole : width ∣ amount) (column : Nat) (text : List Char)
    : advance width (column + amount) text = advance width column text + amount := by
  induction text generalizing column with
  | nil => rfl
  | cons c rest ih =>
      obtain ⟨times, rfl⟩ := whole
      rw [advance, advance, Nat.add_mul_mod_self_left, Nat.add_right_comm]
      exact ih _

theorem le_advance (column : Nat) (text : List Char) : column ≤ advance width column text := by
  induction text generalizing column with
  | nil => exact Nat.le_refl column
  | cons c rest ih => exact Nat.le_trans (Nat.le_add_right _ _) (ih _)

theorem lt_advance (positive : 0 < width) (column : Nat) {text : List Char} (filled : text ≠ [])
    : column < advance width column text := by
  cases text with
  | nil => exact absurd rfl filled
  | cons c rest =>
      have moved : column + (if c = '\t' then width - column % width else 1)
          ≤ advance width (column + if c = '\t' then width - column % width else 1) rest :=
        le_advance _ rest
      have short := Nat.mod_lt column positive
      rw [advance]
      split_ifs at moved ⊢ <;> omega

theorem advance_tab (positive : 0 < width) (column : Nat) (rest : List Char)
    : advance width column ('\t' :: rest)
      = advance width 0 rest + (width * (column / width) + width) := by
  have stop : column + (width - column % width) = 0 + (width * (column / width) + width) := by
    have parts := Nat.div_add_mod column width
    have short := Nat.mod_lt column positive
    omega
  rw [advance, if_pos rfl, stop]
  exact advance_add ⟨column / width + 1, by rw [Nat.mul_add, Nat.mul_one]⟩ 0 rest

theorem exists_first_tab {text : List Char} (tab : '\t' ∈ text)
    : ∃ front rest, text = front ++ '\t' :: rest ∧ '\t' ∉ front ∧ lead text = front.length := by
  induction text with
  | nil => cases tab
  | cons c text ih =>
      by_cases here : c = '\t'
      · subst here
        exact ⟨[], text, rfl, List.not_mem_nil, rfl⟩
      · have later : '\t' ∈ text := (List.mem_cons.mp tab).resolve_left (Ne.symm here)
        obtain ⟨front, rest, rfl, plain, size⟩ := ih later
        refine ⟨c :: front, rest, rfl, by simp [Ne.symm here, plain], ?_⟩
        rw [lead, List.takeWhile_cons_of_pos (by simpa using here), List.length_cons]
        exact congrArg Nat.succ size

theorem advance_shift (positive : 0 < width) {text : List Char} (tab : '\t' ∈ text) (column : Nat)
    : advance width column text + width * (lead text / width)
      = advance width 0 text + width * ((column + lead text) / width) := by
  obtain ⟨front, rest, rfl, plain, size⟩ := exists_first_tab tab
  rw [size, advance_append, advance_append, advance_plain plain, advance_plain plain,
    advance_tab positive, advance_tab positive, Nat.zero_add]
  omega

/-- Spaces in front of an indentation move what follows by their number unless there is a tab,
which only whole tab stops move.
-/
theorem advance_spaces_iff (positive : 0 < width) {amount : Nat} {text : List Char}
    : advance width amount text = advance width 0 text + amount
      ↔ ('\t' ∈ text → width ∣ amount) := by
  by_cases tab : '\t' ∈ text
  · have moved := advance_shift positive tab amount
    constructor
    · intro same _
      have stops : width * ((amount + lead text) / width) = width * (lead text / width) + amount := by
        omega
      have whole : width ∣ width * (lead text / width) + amount := ⟨_, stops.symm⟩
      exact (Nat.dvd_add_right (Nat.dvd_mul_right _ _)).mp whole
    · intro whole
      simpa using advance_add (whole tab) 0 text
  · rw [advance_plain tab, advance_plain tab]
    constructor
    · intro _ found
      exact absurd found tab
    · intro _
      omega

theorem left_cons (amount : Nat) (c : Char) (rest : List Char)
    : left width amount (c :: rest)
      = if amount = 0 then c :: rest else left width (amount - if c = '\t' then width else 1) rest := by
  rw [left, cut]
  by_cases none : amount = 0
  · simp [none]
  · simp [none, left]

theorem cut_append_left (width amount : Nat) (text : List Char)
    : cut width amount text ++ left width amount text = text := by
  rw [left]
  induction text generalizing amount with
  | nil => rfl
  | cons c rest ih =>
      rw [cut]
      split
      · rfl
      · exact congrArg (c :: ·) (ih _)

theorem length_cut_le (positive : 0 < width) (amount : Nat) (text : List Char)
    : (cut width amount text).length ≤ amount := by
  induction text generalizing amount with
  | nil => exact Nat.zero_le amount
  | cons c rest ih =>
      rw [cut]
      split
      · exact Nat.zero_le amount
      · have shorter := ih (amount - if c = '\t' then width else 1)
        rw [List.length_cons]
        split_ifs at shorter ⊢ <;> omega

theorem cut_ne_nil {amount : Nat} {text : List Char} (some : 0 < amount) (filled : text ≠ [])
    : cut width amount text ≠ [] := by
  cases text with
  | nil => exact absurd rfl filled
  | cons c rest =>
      rw [cut, if_neg (by omega)]
      exact List.cons_ne_nil _ _

/-- A cut takes exactly its amount of columns away: with no tab left the cut is that wide, or takes
everything and is no wider; a tab left is measured from a tab stop that moves that far.
-/
def Lands (width amount : Nat) (text : List Char) : Prop :=
  let column := advance width 0 (cut width amount text)
  let rest := left width amount text
  if '\t' ∈ rest then
    width * ((column + lead rest) / width) = amount + width * (lead rest / width)
  else if rest = [] then
    column ≤ amount
  else
    column = amount

instance (width amount : Nat) (text : List Char) : Decidable (Lands width amount text) := by
  unfold Lands
  infer_instance

theorem lands_iff (positive : 0 < width) {amount : Nat} {text : List Char}
    : advance width 0 (left width amount text) = advance width 0 text - amount
      ↔ Lands width amount text := by
  have whole : advance width 0 (cut width amount text ++ left width amount text)
      = advance width (advance width 0 (cut width amount text)) (left width amount text) :=
    advance_append 0 _ _
  rw [cut_append_left] at whole
  rw [whole, Lands]
  by_cases tab : '\t' ∈ left width amount text
  · have moved := advance_shift positive tab (advance width 0 (cut width amount text))
    have some := lt_advance positive 0 (List.ne_nil_of_mem tab)
    simp only [if_pos tab]
    omega
  · rw [advance_plain tab, advance_plain tab]
    simp only [if_neg tab]
    by_cases gone : left width amount text = []
    · simp only [gone, if_true, List.length_nil]
      omega
    · have filled := List.length_pos_iff.mpr gone
      simp only [if_neg gone]
      omega

example : Lands 4 8 "  \t    \t".toList := by decide

example : ¬Lands 4 2 "\t".toList := by decide

end Hane.Foundations.TabStops
