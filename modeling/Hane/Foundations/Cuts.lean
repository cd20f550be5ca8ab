import Mathlib.Data.List.Sort

/-! Places to cut a range at: sorted without repetition, and the pieces between them. -/

namespace Hane.Foundations.Cuts

-- Sorting without repetition

/-- A list with one item of every run of equal ones. -/
def dedupRuns {α : Type} [DecidableEq α] : List α → List α
  | first :: second :: rest =>
    if first = second then dedupRuns (second :: rest) else first :: dedupRuns (second :: rest)
  | short => short

/-- The same items are left, by induction over the list. -/
theorem mem_dedupRuns {α : Type} [DecidableEq α] {item : α} {items : List α}
    : item ∈ dedupRuns items ↔ item ∈ items := by
  induction items with
  | nil => exact .rfl
  | cons first rest ih =>
      cases rest with
      | nil => exact .rfl
      | cons second rest =>
          rw [dedupRuns]
          split
          next same => simp [ih, same]
          next => simp [ih]

/-- A sorted list without its repetitions increases, by induction over it. -/
theorem dedupRuns_increases {items : List Nat} (sorted : items.Pairwise (· ≤ ·))
    : (dedupRuns items).Pairwise (· < ·) := by
  induction items with
  | nil => exact .nil
  | cons first rest ih =>
      cases rest with
      | nil => exact List.pairwise_singleton _ _
      | cons second rest =>
          obtain ⟨lower, others⟩ := List.pairwise_cons.mp sorted
          rw [dedupRuns]
          split
          next => exact ih others
          next different =>
            refine .cons (fun item member => ?_) (ih others)
            have low := lower second List.mem_cons_self
            rcases List.mem_cons.mp (mem_dedupRuns.mp member) with rfl | later
            · omega
            · have above := (List.pairwise_cons.mp others).1 item later
              omega

/-- The items in order, each of them once. -/
def sortedItems (items : List Nat) : List Nat := dedupRuns (items.mergeSort (· ≤ ·))

theorem mem_sortedItems {item : Nat} {items : List Nat}
    : item ∈ sortedItems items ↔ item ∈ items := by
  rw [sortedItems, mem_dedupRuns, List.mem_mergeSort]

theorem sortedItems_increases (items : List Nat) : (sortedItems items).Pairwise (· < ·) :=
  dedupRuns_increases (List.pairwise_mergeSort' (· ≤ ·) items)

/-- With zero among the items it comes first, and the others follow. -/
theorem sortedItems_zero (items : List Nat)
    : ∃ others, sortedItems (0 :: items) = 0 :: others
        ∧ others.Pairwise (· < ·)
        ∧ ∀ item ∈ others, item ∈ items := by
  have increases := sortedItems_increases (0 :: items)
  have members : ∀ item, item ∈ sortedItems (0 :: items) ↔ item ∈ 0 :: items :=
    fun item => mem_sortedItems
  cases sorted : sortedItems (0 :: items) with
  | nil =>
      have zero := (members 0).mpr List.mem_cons_self
      rw [sorted] at zero
      cases zero
  | cons first others =>
      rw [sorted] at increases members
      obtain ⟨lower, later⟩ := List.pairwise_cons.mp increases
      have zero : first = 0 := by
        rcases List.mem_cons.mp ((members 0).mpr List.mem_cons_self) with same | behind
        · exact same.symm
        · have below := lower 0 behind
          omega
      subst zero
      refine ⟨others, rfl, later, fun item member => ?_⟩
      have above := lower item member
      rcases List.mem_cons.mp ((members item).mp (List.mem_cons_of_mem 0 member)) with rfl | inner
      · omega
      · exact inner

/-- Of two items of a list in order one is before the other, by induction over the list. -/
theorem comparable_of_pairwise {α : Type} {before : α → α → Prop} {items : List α}
    (ordered : items.Pairwise before) {item other : α} (member : item ∈ items)
    (member' : other ∈ items)
    : item = other ∨ before item other ∨ before other item := by
  induction ordered with
  | nil => cases member
  | cons first _ ih =>
      rcases List.mem_cons.mp member with rfl | inner
      · rcases List.mem_cons.mp member' with rfl | inner'
        · exact .inl rfl
        · exact .inr (.inl (first other inner'))
      · rcases List.mem_cons.mp member' with rfl | inner'
        · exact .inr (.inr (first item inner))
        · exact ih inner inner'

-- Pieces

def neighbours {α : Type} (items : List α) : List (α × α) := items.zip items.tail

/-- Ranges that follow each other from `start` to `stop`. -/
def Follows : Nat → List (Nat × Nat) → Nat → Prop
  | start, [], stop => start = stop
  | start, range :: rest, stop =>
    range.1 = start ∧ range.1 ≤ range.2 ∧ Follows range.2 rest stop

/-- What follows up to a place and from there on, by induction over the first ranges. -/
theorem Follows.append {start middle stop : Nat} {ranges others : List (Nat × Nat)}
    (first : Follows start ranges middle) (then' : Follows middle others stop)
    : Follows start (ranges ++ others) stop := by
  induction ranges generalizing start with
  | nil =>
      cases first
      exact then'
  | cons range rest ih => exact ⟨first.1, first.2.1, ih first.2.2⟩

/-- The last range ends where all end, by induction over those before it. -/
theorem Follows.last {start stop : Nat} {ranges : List (Nat × Nat)} {range : Nat × Nat}
    (follows : Follows start (ranges ++ [range]) stop)
    : range.1 ≤ range.2 ∧ range.2 = stop := by
  induction ranges generalizing start with
  | nil => exact follows.2
  | cons first rest ih => exact ih follows.2.2

/-- Every position before the end lies in a range, by induction over the ranges. -/
theorem Follows.exists_range {start stop position : Nat} {ranges : List (Nat × Nat)}
    (follows : Follows start ranges stop) (lower : start ≤ position) (upper : position < stop)
    : ∃ range ∈ ranges, range.1 ≤ position ∧ position < range.2 := by
  induction ranges generalizing start with
  | nil =>
      have ends : start = stop := follows
      omega
  | cons range rest ih =>
      obtain ⟨starts, ordered, later⟩ := follows
      by_cases here : position < range.2
      · exact ⟨range, List.mem_cons_self, by omega, here⟩
      · obtain ⟨found, member, inside⟩ := ih later (by omega)
        exact ⟨found, List.mem_cons_of_mem range member, inside⟩

end Hane.Foundations.Cuts
