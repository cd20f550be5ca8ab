import Hane.Document.Boundaries

/-! Texts gathered under a limit of bytes: each is cut, between characters, to what still fits. -/

namespace Hane.Document

/-- The longest beginning of a text that fits in some bytes. -/
def fitting (room : Nat) (text : Text) : Text :=
  substring text 0 (floorBoundary text (min (utf8Len text) room))

/-- What fits of a text ends where the next character would be too much. -/
theorem fitting_split (room : Nat) (text : Text)
    : ∃ rest, text = fitting room text ++ rest
      ∧ utf8Len (fitting room text) = floorBoundary text (min (utf8Len text) room)
      ∧ utf8Len (fitting room text) ≤ room
      ∧ ∀ c ∈ rest.head?, room < utf8Len (fitting room text) + c.utf8Size := by
  have below := floorBoundary_le text (min (utf8Len text) room)
  obtain ⟨front, rest, whole, size⟩ := boundary_floorBoundary text (min (utf8Len text) room)
  have fits : fitting room text = front := by
    rw [fitting, ← size, whole]
    have content := substring_append [] front rest
    rwa [utf8Len_nil, Nat.zero_add] at content
  rw [fits]
  refine ⟨rest, whole, size, by omega, ?_⟩
  intro c next
  by_contra within
  cases rest with
  | nil => cases next
  | cons d more =>
      obtain rfl : d = c := Option.some.inj next
      have stop : Boundary text (utf8Len front + d.utf8Size) := by
        rw [whole]
        have boundary := Boundary.of_append (front ++ [d]) more
        simpa using boundary
      have total := congrArg utf8Len whole
      rw [utf8Len_append, utf8Len_cons] at total
      have positive := Char.utf8Size_pos d
      have reached := le_floorBoundary stop
        (show utf8Len front + d.utf8Size ≤ min (utf8Len text) room by omega)
      omega

theorem fitting_of_le {room : Nat} {text : Text} (fits : utf8Len text ≤ room)
    : fitting room text = text := by
  obtain ⟨rest, whole, -, -, stops⟩ := fitting_split room text
  cases rest with
  | nil =>
      rw [List.append_nil] at whole
      exact whole.symm
  | cons c more =>
      have next := stops c rfl
      have total := congrArg utf8Len whole
      rw [utf8Len_append, utf8Len_cons] at total
      omega

theorem fitting_cut {room : Nat} {taken more : Text} {c : Char} (inside : utf8Len taken ≤ room)
    (cut : room < utf8Len taken + c.utf8Size)
    : fitting room (taken ++ c :: more) = taken := by
  obtain ⟨rest, whole, -, within, stops⟩ := fitting_split room (taken ++ c :: more)
  generalize fitting room (taken ++ c :: more) = front at whole within stops ⊢
  rcases List.append_eq_append_iff.mp whole with ⟨others, split, behind⟩ | ⟨others, split, behind⟩
  · cases others with
    | nil => rw [split, List.append_nil]
    | cons d others =>
        -- More than the characters in front of the cut would be kept.
        obtain ⟨rfl, -⟩ := List.cons.inj behind
        rw [split, utf8Len_append, utf8Len_cons] at within
        omega
  · cases others with
    | nil => rw [split, List.append_nil]
    | cons d others =>
        -- A character in front of the cut would be left out.
        have next := stops d (by rw [behind]; rfl)
        rw [split, utf8Len_append, utf8Len_cons] at inside
        omega

theorem fitting_eq_nil_iff {room : Nat} {text : Text}
    : fitting room text = [] ↔ ∀ c ∈ text.head?, room < c.utf8Size := by
  constructor
  · intro none c first
    obtain ⟨rest, whole, -, -, stops⟩ := fitting_split room text
    rw [none, List.nil_append] at whole
    rw [whole] at first
    have next := stops c first
    rwa [none, utf8Len_nil, Nat.zero_add] at next
  · intro large
    cases text with
    | nil => exact fitting_of_le (Nat.zero_le room)
    | cons c more =>
        refine fitting_cut (show utf8Len [] ≤ room from Nat.zero_le room) ?_
        rw [utf8Len_nil, Nat.zero_add]
        exact large c rfl

-- Several texts

/-- What is kept of each text, where all of them together have to fit. -/
def gathered (room : Nat) : List Text → List Text
  | [] => []
  | text :: rest => fitting room text :: gathered (room - utf8Len (fitting room text)) rest

theorem gathered_flatten_le (room : Nat) (texts : List Text)
    : utf8Len (gathered room texts).flatten ≤ room := by
  induction texts generalizing room with
  | nil => exact Nat.zero_le room
  | cons text rest ih =>
      obtain ⟨-, -, -, within, -⟩ := fitting_split room text
      have later := ih (room - utf8Len (fitting room text))
      rw [gathered, List.flatten_cons, utf8Len_append]
      omega

theorem gathered_concat (room : Nat) (texts : List Text) (last : Text)
    : gathered room (texts ++ [last])
      = gathered room texts ++ [fitting (room - utf8Len (gathered room texts).flatten) last] := by
  induction texts generalizing room with
  | nil => rfl
  | cons text rest ih =>
      rw [List.cons_append, gathered, ih, gathered, List.flatten_cons, utf8Len_append,
        List.cons_append, Nat.sub_sub]

theorem utf8Len_gathered_le (room : Nat) (texts : List Text)
    : utf8Len (gathered room texts).flatten ≤ utf8Len texts.flatten := by
  induction texts generalizing room with
  | nil => exact Nat.le_refl 0
  | cons text rest ih =>
      obtain ⟨left, whole, -⟩ := fitting_split room text
      have total := congrArg utf8Len whole
      have later := ih (room - utf8Len (fitting room text))
      rw [utf8Len_append] at total
      rw [gathered, List.flatten_cons, List.flatten_cons, utf8Len_append, utf8Len_append]
      omega

/-- All of the texts is kept only when each of them is, by induction on them. -/
theorem gathered_flatten_eq_iff {room : Nat} {texts : List Text}
    : (gathered room texts).flatten = texts.flatten ↔ gathered room texts = texts := by
  refine ⟨?_, congrArg List.flatten⟩
  induction texts generalizing room with
  | nil => exact fun _ => rfl
  | cons text rest ih =>
      intro same
      rw [gathered, List.flatten_cons, List.flatten_cons] at same
      obtain ⟨left, whole, -⟩ := fitting_split room text
      have total := congrArg utf8Len whole
      have sizes := congrArg utf8Len same
      have later := utf8Len_gathered_le (room - utf8Len (fitting room text)) rest
      rw [utf8Len_append] at total sizes
      rw [utf8Len_append] at sizes
      obtain ⟨first, others⟩ := append_inj_of_utf8Len same (by omega)
      rw [gathered, ih others, first]

/-- Nothing of some texts is kept when each starts with a character that is too long. -/
theorem gathered_flatten_eq_nil_iff {room : Nat} {texts : List Text}
    : (gathered room texts).flatten = []
      ↔ ∀ text ∈ texts, ∀ c ∈ text.head?, room < c.utf8Size := by
  induction texts with
  | nil => simp [gathered]
  | cons text rest ih =>
      rw [gathered, List.flatten_cons, List.append_eq_nil_iff, List.forall_mem_cons,
        ← fitting_eq_nil_iff]
      constructor
      · rintro ⟨none, later⟩
        rw [none, utf8Len_nil, Nat.sub_zero] at later
        exact ⟨none, ih.mp later⟩
      · rintro ⟨none, later⟩
        rw [none, utf8Len_nil, Nat.sub_zero]
        exact ⟨rfl, ih.mpr later⟩

-- Gaps

/-- Where the limit cuts a text in front of a character, no later text starts with a character
that still fits.
-/
def Gapless (room : Nat) (texts : List Text) : Prop :=
  ∀ whole taken c more later,
    texts = whole ++ (taken ++ c :: more) :: later
    → utf8Len (whole.flatten ++ taken) ≤ room
    → room < utf8Len (whole.flatten ++ taken) + c.utf8Size
    → ∀ text ∈ later, ∀ first ∈ text.head?,
        room < utf8Len (whole.flatten ++ taken) + first.utf8Size

theorem gapless_cons_of_fits {room : Nat} {text : Text} {rest : List Text}
    (fits : utf8Len text ≤ room)
    : Gapless room (text :: rest) ↔ Gapless (room - utf8Len text) rest := by
  constructor
  · intro gapless whole taken c more later split inside cut other member first starts
    have found := gapless (text :: whole) taken c more later (by rw [split]; rfl)
    simp only [List.flatten_cons, utf8Len_append] at found inside cut ⊢
    have large := found (by omega) (by omega) other member first starts
    omega
  · intro gapless whole taken c more later split inside cut other member first starts
    cases whole with
    | nil =>
        obtain ⟨rfl, rfl⟩ := List.cons.inj split
        rw [utf8Len_append, utf8Len_cons] at fits
        rw [List.flatten_nil, List.nil_append] at cut
        omega
    | cons front whole =>
        obtain ⟨rfl, rfl⟩ := List.cons.inj split
        have found := gapless whole taken c more later rfl
        simp only [List.flatten_cons, utf8Len_append] at found inside cut ⊢
        have large := found (by omega) (by omega) other member first starts
        omega

theorem gapless_cons_of_cut {room : Nat} {taken more : Text} {c : Char} {rest : List Text}
    (inside : utf8Len taken ≤ room) (cut : room < utf8Len taken + c.utf8Size)
    : Gapless room ((taken ++ c :: more) :: rest)
      ↔ ∀ text ∈ rest, ∀ first ∈ text.head?, room < utf8Len taken + first.utf8Size := by
  constructor
  · intro gapless
    exact gapless [] taken c more rest rfl inside cut
  · intro large whole taken' c' more' later split inside' cut' other member first starts
    cases whole with
    | nil =>
        obtain ⟨same, rfl⟩ := List.cons.inj split
        have here : fitting room (taken ++ c :: more) = taken := fitting_cut inside cut
        rw [List.flatten_nil, List.nil_append] at inside' cut' ⊢
        rw [same, fitting_cut inside' cut'] at here
        rw [here]
        exact large other member first starts
    | cons front whole =>
        obtain ⟨rfl, rfl⟩ := List.cons.inj split
        simp only [List.flatten_cons, utf8Len_append, utf8Len_cons] at inside'
        omega

/-- What is kept of all texts is a beginning of them exactly when no gap is left, by induction on
the texts: up to the first cut they are kept whole.
-/
theorem gathered_isPrefix_iff {room : Nat} {texts : List Text}
    : (gathered room texts).flatten <+: texts.flatten ↔ Gapless room texts := by
  induction texts generalizing room with
  | nil =>
      refine iff_of_true List.nil_prefix ?_
      intro whole taken c more later split
      exact absurd split (by simp)
  | cons text rest ih =>
      rw [gathered, List.flatten_cons, List.flatten_cons]
      by_cases fits : utf8Len text ≤ room
      · rw [gapless_cons_of_fits fits, fitting_of_le fits, List.prefix_append_right_inj, ih]
      · obtain ⟨behind, whole, -, inside, stops⟩ := fitting_split room text
        generalize fitting room text = taken at whole inside stops ⊢
        cases behind with
        | nil =>
            rw [List.append_nil] at whole
            rw [whole] at fits
            exact absurd inside fits
        | cons c more =>
            have cut := stops c rfl
            have none : (gathered (room - utf8Len taken) rest).flatten
                  <+: c :: more ++ rest.flatten
                ↔ (gathered (room - utf8Len taken) rest).flatten = [] := by
              have small := gathered_flatten_le (room - utf8Len taken) rest
              generalize (gathered (room - utf8Len taken) rest).flatten = kept at small ⊢
              cases kept with
              | nil => exact iff_of_true List.nil_prefix rfl
              | cons d kept =>
                  refine iff_of_false ?_ (by simp)
                  intro begins
                  obtain ⟨rfl, -⟩ := List.cons_prefix_cons.mp begins
                  rw [utf8Len_cons] at small
                  omega
            rw [whole, gapless_cons_of_cut inside cut, List.append_assoc,
              List.prefix_append_right_inj, none, gathered_flatten_eq_nil_iff]
            constructor
            · intro large other member first starts
              have long := large other member first starts
              omega
            · intro large other member first starts
              have long := large other member first starts
              omega

end Hane.Document
