import Hane.Foundations.Settling
import Mathlib.Data.List.Pairwise

/-! Two number ranges cut into the same tiles, and going back and forth between them. -/

namespace Hane.Foundations

/-- A piece of one range and the piece of the other one it stands for. An exact tile has the
same length in both, and any other one has an end in each that its positions are taken to.
-/
structure Tile where
  start : Nat
  stop : Nat
  target : Nat
  start' : Nat
  stop' : Nat
  target' : Nat
  exact : Bool
deriving DecidableEq

namespace Tile

structure Shaped (tile : Tile) : Prop where
  ordered : tile.start ≤ tile.stop
  ordered' : tile.start' ≤ tile.stop'
  sized : tile.exact = true → tile.stop - tile.start = tile.stop' - tile.start'
  target : tile.target = tile.start ∨ tile.target = tile.stop
  target' : tile.target' = tile.start' ∨ tile.target' = tile.stop'

/-- The tile seen from the other range. -/
def swap (tile : Tile) : Tile where
  start := tile.start'
  stop := tile.stop'
  target := tile.target'
  start' := tile.start
  stop' := tile.stop
  target' := tile.target
  exact := tile.exact

theorem Shaped.swap {tile : Tile} (shaped : tile.Shaped) : tile.swap.Shaped where
  ordered := shaped.ordered'
  ordered' := shaped.ordered
  sized same := (shaped.sized same).symm
  target := shaped.target'
  target' := shaped.target

def Holds (tile : Tile) (position : Nat) : Prop := tile.start ≤ position ∧ position ≤ tile.stop

/-- Where a tile takes a position: an exact one to the same distance from its start. -/
def image (tile : Tile) (position : Nat) : Nat :=
  if tile.exact then tile.start' + (position - tile.start) else tile.target'

theorem image_of_exact {tile : Tile} (exact : tile.exact = true) (position : Nat)
    : tile.image position = tile.start' + (position - tile.start) := if_pos exact

theorem image_of_loose {tile : Tile} (loose : tile.exact = false) (position : Nat)
    : tile.image position = tile.target' := if_neg (by simp [loose])

/-- Every tile ends before the next one starts, in both ranges. -/
def Before (tile next : Tile) : Prop := tile.stop ≤ next.start ∧ tile.stop' ≤ next.start'

end Tile

/-- The tiles follow each other from one pair of ends to the other. -/
def Aligned : Nat → Nat → List Tile → Nat → Nat → Prop
  | start, start', [], stop, stop' => start = stop ∧ start' = stop'
  | start, start', tile :: rest, stop, stop' =>
      tile.start = start ∧ tile.start' = start' ∧ tile.Shaped
      ∧ Aligned tile.stop tile.stop' rest stop stop'

/-- A way of going from one range to the other: to where some tile takes the position. -/
structure Picks (tiles : List Tile) (pick : Nat → Option Nat) : Prop where
  found : ∀ position, (∃ tile ∈ tiles, tile.Holds position) → ∃ image, pick position = some image
  image :
    ∀ position image, pick position = some image
      → ∃ tile ∈ tiles, tile.Holds position ∧ image = tile.image position

namespace Aligned

variable {start start' stop stop' : Nat} {tiles : List Tile}

theorem swap (aligned : Aligned start start' tiles stop stop')
    : Aligned start' start (tiles.map Tile.swap) stop' stop := by
  induction tiles generalizing start start' with
  | nil => exact ⟨aligned.2, aligned.1⟩
  | cons tile rest ih =>
      obtain ⟨first, first', shaped, later⟩ := aligned
      exact ⟨first', first, shaped.swap, ih later⟩

/-- Every tile is shaped and lies between the ends, by induction on the tiles. -/
theorem bounds (aligned : Aligned start start' tiles stop stop')
    : start ≤ stop
      ∧ start' ≤ stop'
      ∧ ∀ tile ∈ tiles,
        tile.Shaped
        ∧ start ≤ tile.start ∧ tile.stop ≤ stop
        ∧ start' ≤ tile.start' ∧ tile.stop' ≤ stop' := by
  induction tiles generalizing start start' with
  | nil =>
      obtain ⟨rfl, rfl⟩ := aligned
      exact ⟨Nat.le_refl _, Nat.le_refl _, fun tile member => absurd member List.not_mem_nil⟩
  | cons first rest ih =>
      obtain ⟨rfl, rfl, shaped, later⟩ := aligned
      obtain ⟨ordered, ordered', inside⟩ := ih later
      have lower := shaped.ordered
      have lower' := shaped.ordered'
      refine ⟨by omega, by omega, ?_⟩
      intro tile member
      rcases List.mem_cons.mp member with rfl | member
      · exact ⟨shaped, Nat.le_refl _, ordered, Nat.le_refl _, ordered'⟩
      · obtain ⟨shaped, bound, upper, bound', upper'⟩ := inside tile member
        exact ⟨shaped, by omega, upper, by omega, upper'⟩

theorem pairwise (aligned : Aligned start start' tiles stop stop')
    : tiles.Pairwise Tile.Before := by
  induction tiles generalizing start start' with
  | nil => exact .nil
  | cons first rest ih =>
      obtain ⟨_, _, _, later⟩ := aligned
      refine List.pairwise_cons.mpr ⟨?_, ih later⟩
      intro tile member
      obtain ⟨_, bound, _, bound', _⟩ := later.bounds.2.2 tile member
      exact ⟨bound, bound'⟩

theorem comparable (aligned : Aligned start start' tiles stop stop') {tile other : Tile}
    (member : tile ∈ tiles) (member' : other ∈ tiles)
    : tile = other ∨ tile.Before other ∨ other.Before tile := by
  induction tiles generalizing start start' with
  | nil => exact absurd member List.not_mem_nil
  | cons first rest ih =>
      have after := List.pairwise_cons.mp aligned.pairwise
      obtain ⟨_, _, _, later⟩ := aligned
      rcases List.mem_cons.mp member with rfl | inner
      · rcases List.mem_cons.mp member' with rfl | inner'
        · exact .inl rfl
        · exact .inr (.inl (after.1 other inner'))
      · rcases List.mem_cons.mp member' with rfl | inner'
        · exact .inr (.inr (after.1 tile inner))
        · exact ih later inner inner'

/-- Every position before the end lies in a tile, and the end lies in one if there is any. -/
theorem holds (aligned : Aligned start start' tiles stop stop') {position : Nat}
    (lower : start ≤ position) (upper : position < stop ∨ (position = stop ∧ tiles ≠ []))
    : ∃ tile ∈ tiles, tile.Holds position := by
  induction tiles generalizing start start' with
  | nil =>
      obtain ⟨rfl, rfl⟩ := aligned
      rcases upper with upper | ⟨_, filled⟩
      · omega
      · exact absurd rfl filled
  | cons first rest ih =>
      obtain ⟨rfl, rfl, shaped, later⟩ := aligned
      by_cases here : position ≤ first.stop
      · exact ⟨first, List.mem_cons_self, lower, here⟩
      · have past : position < stop ∨ (position = stop ∧ rest ≠ []) := by
          rcases upper with before | ⟨last, _⟩
          · exact .inl before
          · refine .inr ⟨last, ?_⟩
            rintro rfl
            obtain ⟨rfl, _⟩ := later
            omega
        obtain ⟨tile, member, holds⟩ := ih later (by omega) past
        exact ⟨tile, List.mem_cons_of_mem _ member, holds⟩

end Aligned

def tileStops (tiles : List Tile) (stop : Nat) : List Nat := tiles.map Tile.start ++ [stop]

namespace Aligned

variable {start start' stop stop' : Nat} {tiles : List Tile}
  (aligned : Aligned start start' tiles stop stop')

include aligned

/-- Both ends of a tile are ends, by induction on the tiles. -/
theorem mem_tileStops {tile : Tile} (member : tile ∈ tiles)
    : tile.start ∈ tileStops tiles stop ∧ tile.stop ∈ tileStops tiles stop := by
  induction tiles generalizing start start' with
  | nil => exact absurd member List.not_mem_nil
  | cons first rest ih =>
      obtain ⟨_, _, _, later⟩ := aligned
      have keeps {position : Nat} (inner : position ∈ tileStops rest stop)
          : position ∈ tileStops (first :: rest) stop := List.mem_cons_of_mem _ inner
      rcases List.mem_cons.mp member with rfl | inner
      · refine ⟨List.mem_cons_self, keeps ?_⟩
        cases rest with
        | nil =>
            obtain ⟨last, _⟩ := later
            rw [last]
            exact List.mem_singleton_self stop
        | cons next _ =>
            rw [← later.1]
            exact List.mem_cons_self
      · exact ⟨keeps (ih later inner).1, keeps (ih later inner).2⟩

omit aligned in
theorem countP_below {position : Nat} (upper : position ≤ stop)
    : (tileStops tiles stop).countP (· < position) ≤ tiles.length := by
  have last : ([stop]).countP (· < position) = 0 := by
    simp [Nat.not_lt.mpr upper]
  rw [tileStops, List.countP_append, last, Nat.add_zero]
  exact Nat.le_trans List.countP_le_length (Nat.le_of_eq (List.length_map _))

theorem countP_above {position : Nat} (lower : start ≤ position)
    : (tileStops tiles stop).countP (position < ·) ≤ tiles.length := by
  cases tiles with
  | nil =>
      obtain ⟨rfl, _⟩ := aligned
      simp [tileStops, Nat.not_lt.mpr lower]
  | cons first rest =>
      obtain ⟨rfl, _, _, _⟩ := aligned
      rw [tileStops, List.map_cons, List.cons_append, List.countP_cons,
        if_neg (by simp [Nat.not_lt.mpr lower]), Nat.add_zero]
      refine Nat.le_trans List.countP_le_length (Nat.le_of_eq ?_)
      simp

end Aligned

theorem Tile.Shaped.image_bounds {tile : Tile} (shaped : tile.Shaped) {position : Nat}
    (holds : tile.Holds position)
    : tile.swap.Holds (tile.image position) := by
  obtain ⟨lower, upper⟩ := holds
  have ordered := shaped.ordered
  have ordered' := shaped.ordered'
  unfold Tile.image Tile.Holds Tile.swap
  dsimp only
  split
  · rename_i exact
    have sized := shaped.sized exact
    omega
  · have target' := shaped.target'
    omega

section Picks

variable {start start' stop stop' : Nat} {tiles : List Tile}
  (aligned : Aligned start start' tiles stop stop') {pick : Nat → Option Nat}
  (picks : Picks tiles pick)

include aligned picks

/-- Later positions are taken to later places. -/
theorem Picks.mono {position position' image image' : Nat} (ordered : position ≤ position')
    (taken : pick position = some image) (taken' : pick position' = some image')
    : image ≤ image' := by
  rcases Nat.eq_or_lt_of_le ordered with rfl | earlier
  · exact Nat.le_of_eq (Option.some.inj (taken.symm.trans taken'))
  · obtain ⟨tile, member, holds, rfl⟩ := picks.image _ _ taken
    obtain ⟨other, member', holds', rfl⟩ := picks.image _ _ taken'
    have shaped := (aligned.bounds.2.2 tile member).1
    have shaped' := (aligned.bounds.2.2 other member').1
    have within := shaped.image_bounds holds
    have within' := shaped'.image_bounds holds'
    obtain ⟨lower, upper⟩ := holds
    obtain ⟨lower', upper'⟩ := holds'
    rcases aligned.comparable member member' with rfl | before | after
    · unfold Tile.image
      split <;> omega
    · exact Nat.le_trans within.2 (Nat.le_trans before.2 within'.1)
    · have := after.1
      omega

theorem Picks.inside {tile : Tile} (member : tile ∈ tiles) (exact : tile.exact = true)
    {position : Nat} (lower : tile.start < position) (upper : position < tile.stop)
    : pick position = some (tile.start' + (position - tile.start)) := by
  obtain ⟨image, taken⟩ := picks.found position ⟨tile, member, by omega, by omega⟩
  obtain ⟨other, member', holds, rfl⟩ := picks.image _ _ taken
  obtain ⟨lower', upper'⟩ := holds
  rcases aligned.comparable member member' with rfl | before | after
  · rw [taken, Tile.image_of_exact exact]
  · have := before.1
    omega
  · have := after.1
    omega

theorem Picks.holds {position : Nat} (held : ∃ tile ∈ tiles, tile.Holds position)
    : ∃ image, pick position = some image ∧ ∃ tile ∈ tiles, tile.swap.Holds image := by
  obtain ⟨image, taken⟩ := picks.found position held
  obtain ⟨tile, member, holds, rfl⟩ := picks.image _ _ taken
  exact ⟨_, taken, tile, member,
    (aligned.bounds.2.2 tile member).1.image_bounds holds⟩

end Picks

section RoundTrip

variable {start start' stop stop' : Nat} {tiles : List Tile}
  (aligned : Aligned start start' tiles stop stop') {pick pick' : Nat → Option Nat}
  (picks : Picks tiles pick) (picks' : Picks (tiles.map Tile.swap) pick')

include aligned picks picks'

/-- Going to the other range and back leads to where it began, or to the end of a tile. -/
theorem Aligned.roundTrip {position : Nat} (held : ∃ tile ∈ tiles, tile.Holds position)
    : ∃ image next,
        pick position = some image
        ∧ pick' image = some next
        ∧ (∃ tile ∈ tiles, tile.Holds next)
        ∧ (next = position ∨ next ∈ tileStops tiles stop) := by
  obtain ⟨image, taken, other, member, holds⟩ := picks.holds aligned held
  obtain ⟨next, back, tile', member', holds'⟩ :=
    picks'.holds aligned.swap ⟨other.swap, List.mem_map_of_mem member, holds⟩
  obtain ⟨tile, inside, rfl⟩ := List.mem_map.mp member'
  refine ⟨image, next, taken, back, ⟨tile, inside, holds'⟩, ?_⟩
  -- Which tile leads back decides: its ends are ends, and inside it nothing moved.
  obtain ⟨swapped, member', ⟨lower, upper⟩, image_eq⟩ := picks'.image _ _ back
  obtain ⟨tile, inside, rfl⟩ := List.mem_map.mp member'
  obtain ⟨first, last⟩ := aligned.mem_tileStops inside
  have shaped := (aligned.bounds.2.2 tile inside).1
  cases exact : tile.exact with
  | false =>
      rw [Tile.image_of_loose (show tile.swap.exact = false from exact)] at image_eq
      refine .inr ?_
      rcases shaped.target with same | same
      · rw [image_eq, show tile.swap.target' = tile.start from same]
        exact first
      · rw [image_eq, show tile.swap.target' = tile.stop from same]
        exact last
  | true =>
      rw [Tile.image_of_exact (show tile.swap.exact = true from exact)] at image_eq
      have size := shaped.sized exact
      simp only [Tile.swap] at image_eq lower upper
      rcases Nat.eq_or_lt_of_le lower with atStart | afterStart
      · exact .inr (by rw [image_eq, ← atStart, Nat.sub_self, Nat.add_zero]; exact first)
      · rcases Nat.eq_or_lt_of_le upper with atStop | beforeStop
        · refine .inr ?_
          rw [show next = tile.stop by omega]
          exact last
        · refine .inl ?_
          obtain ⟨origin, member, ⟨lower', upper'⟩, image_eq'⟩ := picks.image _ _ taken
          have bounds := (aligned.bounds.2.2 origin member).1.image_bounds ⟨lower', upper'⟩
          rw [← image_eq'] at bounds
          obtain ⟨low, high⟩ := bounds
          simp only [Tile.swap] at low high
          rcases aligned.comparable member inside with rfl | before | after
          · rw [Tile.image_of_exact exact] at image_eq'
            omega
          · have := before.2
            omega
          · have := after.2
            omega

theorem Aligned.walk
    : Walk (fun position => (pick position).bind pick')
        (fun position => ∃ tile ∈ tiles, tile.Holds position) (tileStops tiles stop) := by
  constructor
  · intro position held
    obtain ⟨image, next, taken, back, inside, stop⟩ := aligned.roundTrip picks picks' held
    exact ⟨next, by rw [taken]; exact back, inside, stop⟩
  · intro position position' next next' held held' ordered stepped stepped'
    obtain ⟨image, taken, back⟩ := Option.bind_eq_some_iff.mp stepped
    obtain ⟨image', taken', back'⟩ := Option.bind_eq_some_iff.mp stepped'
    exact picks'.mono aligned.swap (picks.mono aligned ordered taken taken') back back'

theorem Aligned.inside {tile : Tile} (member : tile ∈ tiles) (exact : tile.exact = true)
    {position : Nat} (lower : tile.start < position) (upper : position < tile.stop)
    : (pick position).bind pick' = some position := by
  have size := (aligned.bounds.2.2 tile member).1.sized exact
  have there := picks.inside aligned member exact lower upper
  have low : tile.swap.start < tile.start' + (position - tile.start) := by
    simp only [Tile.swap]
    omega
  have high : tile.start' + (position - tile.start) < tile.swap.stop := by
    simp only [Tile.swap]
    omega
  rw [there, Option.bind_some,
    picks'.inside aligned.swap (List.mem_map_of_mem member) exact low high]
  simp only [Tile.swap]
  congr 1
  omega

end RoundTrip

end Hane.Foundations
