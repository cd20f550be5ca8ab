import Hane.Presentation.SourceMap

/-! Offsets of a presented line settle on positions that survive the trip to the other side and
back.
-/

namespace Hane.Presentation

open Hane.Document Hane.Foundations

namespace MappingSegment

/-- A segment runs forwards, and has the lengths its visibility asks for. -/
structure Shaped (segment : MappingSegment) : Prop where
  source : segment.sourceRange.start ≤ segment.sourceRange.stop
  visual : segment.visualRange.start ≤ segment.visualRange.stop
  shown :
    segment.visibility.showsSource = true
      → segment.sourceRange.stop - segment.sourceRange.start
        = segment.visualRange.stop - segment.visualRange.start
  hidden :
    segment.visibility = .hiddenMarkup → segment.visualRange.start = segment.visualRange.stop

/-- The tile of a segment: an offset goes to its own place in text that is shown, and to an end
of the segment otherwise.
-/
def tile (affinity : Bias) (segment : MappingSegment) : Tile where
  start := segment.sourceRange.start
  stop := segment.sourceRange.stop
  target :=
    if segment.visibility = .hiddenMarkup ∧ affinity = .after then segment.sourceRange.stop
    else segment.sourceRange.start
  start' := segment.visualRange.start
  stop' := segment.visualRange.stop
  target' :=
    if segment.visibility = .hiddenMarkup ∧ affinity = .after then segment.visualRange.stop
    else segment.visualRange.start
  exact := segment.visibility.showsSource

theorem Shaped.tile {segment : MappingSegment} (shaped : segment.Shaped) (affinity : Bias)
    : (segment.tile affinity).Shaped where
  ordered := shaped.source
  ordered' := shaped.visual
  sized := shaped.shown
  target := by
    unfold MappingSegment.tile
    dsimp only
    split
    · exact .inr rfl
    · exact .inl rfl
  target' := by
    unfold MappingSegment.tile
    dsimp only
    split
    · exact .inr rfl
    · exact .inl rfl

/-- The source offset a segment offers for a visual offset it holds. -/
theorem sourceCandidate_some {segment : MappingSegment} (shaped : segment.Shaped)
    {visual : Nat} {affinity : Bias} {candidate : PositionCandidate}
    (found : segment.sourceCandidate visual affinity = some candidate)
    : (segment.tile affinity).swap.Holds visual
      ∧ candidate.sourceOffset = (segment.tile affinity).swap.image visual := by
  unfold sourceCandidate at found
  split at found
  · cases found
  · rename_i within
    obtain rfl := Option.some.inj found
    have holds : (segment.tile affinity).swap.Holds visual := by
      unfold Tile.Holds Tile.swap tile
      dsimp only
      omega
    refine ⟨holds, ?_⟩
    have source := shaped.source
    have shown := shaped.shown
    obtain ⟨lower, upper⟩ := holds
    simp only [Tile.swap, tile] at lower upper
    cases kind : segment.visibility with
    | visible | expandedMarkup =>
        rw [kind] at shown
        have size := shown rfl
        simp only [Tile.image, Tile.swap, tile, kind, Visibility.showsSource, if_true]
        omega
    | hiddenMarkup =>
        cases affinity <;>
          simp [Tile.image, Tile.swap, tile, kind, Visibility.showsSource]
    | synthesized => simp [Tile.image, Tile.swap, tile, kind, Visibility.showsSource]

theorem sourceCandidate_exists {segment : MappingSegment} {visual : Nat} {affinity : Bias}
    (holds : (segment.tile affinity).swap.Holds visual)
    : ∃ candidate, segment.sourceCandidate visual affinity = some candidate := by
  obtain ⟨lower, upper⟩ := holds
  simp only [Tile.swap, tile] at lower upper
  unfold sourceCandidate
  rw [if_neg (by omega)]
  exact ⟨_, rfl⟩

/-- The visual offset a segment offers for a source offset it holds. -/
theorem visualCandidate_some {segment : MappingSegment} {source : Nat} {affinity : Bias}
    {candidate : PositionCandidate}
    (found : segment.visualCandidate source affinity = some candidate)
    : (segment.tile affinity).Holds source
      ∧ candidate.visualOffset = (segment.tile affinity).image source := by
  unfold visualCandidate at found
  split at found
  · cases found
  · rename_i within
    obtain rfl := Option.some.inj found
    refine ⟨by unfold Tile.Holds tile; dsimp only; omega, ?_⟩
    cases kind : segment.visibility with
    | visible | expandedMarkup =>
        simp [Tile.image, tile, kind, Visibility.showsSource]
    | hiddenMarkup =>
        cases affinity <;> simp [Tile.image, tile, kind, Visibility.showsSource]
    | synthesized => simp [Tile.image, tile, kind, Visibility.showsSource]

theorem visualCandidate_exists {segment : MappingSegment} {source : Nat} {affinity : Bias}
    (holds : (segment.tile affinity).Holds source)
    : ∃ candidate, segment.visualCandidate source affinity = some candidate := by
  obtain ⟨lower, upper⟩ := holds
  simp only [tile] at lower upper
  unfold visualCandidate
  rw [if_neg (by omega)]
  exact ⟨_, rfl⟩

end MappingSegment

/-- The first or last of some candidates, with some preferred if there are any. -/
def preferred {α : Type} (prefer : α → Bool) (affinity : Bias) (candidates : List α) : Option α :=
  match affinity with
  | .before => (candidates.filter prefer).head?.or candidates.head?
  | .after => (candidates.filter prefer).getLast?.or candidates.getLast?

theorem mem_of_preferred {α : Type} {prefer : α → Bool} {affinity : Bias}
    {candidates : List α} {found : α} (same : preferred prefer affinity candidates = some found)
    : found ∈ candidates := by
  cases affinity with
  | before =>
      rcases Option.or_eq_some_iff.mp same with first | ⟨_, first⟩
      · exact (List.mem_filter.mp (List.mem_of_head? first)).1
      · exact List.mem_of_head? first
  | after =>
      rcases Option.or_eq_some_iff.mp same with last | ⟨_, last⟩
      · exact (List.mem_filter.mp (List.mem_of_getLast? last)).1
      · exact List.mem_of_getLast? last

theorem preferred_exists {α : Type} (prefer : α → Bool) (affinity : Bias) {candidates : List α}
    (filled : candidates ≠ [])
    : ∃ found, preferred prefer affinity candidates = some found := by
  apply Option.ne_none_iff_exists'.mp
  intro none
  cases affinity with
  | before => exact filled (List.head?_eq_none_iff.mp (Option.or_eq_none_iff.mp none).2)
  | after => exact filled (List.getLast?_eq_none_iff.mp (Option.or_eq_none_iff.mp none).2)

namespace SourceMap

variable {map : SourceMap}

theorem visualToSource_eq (map : SourceMap) (visual : Nat) (affinity : Bias)
    : map.visualToSource visual affinity
      = preferred (·.visibility.showsSource) affinity
          ((map.segments.filterMap (·.sourceCandidate visual affinity)).mergeSort
            fun first last => first.sourceOffset ≤ last.sourceOffset) := by
  cases affinity <;> rfl

theorem sourceToVisual_eq (map : SourceMap) (source : Nat) (affinity : Bias)
    : map.sourceToVisual source affinity
      = preferred (fun _ => false) affinity
          ((map.segments.filterMap (·.visualCandidate source affinity)).mergeSort
            fun first last => first.visualOffset ≤ last.visualOffset) := by
  cases affinity <;> simp [sourceToVisual, preferred]

def tiles (map : SourceMap) (affinity : Bias) : List Tile :=
  map.segments.map (MappingSegment.tile affinity)

theorem picks_visualToSource (shaped : ∀ segment ∈ map.segments, segment.Shaped)
    (affinity : Bias)
    : Picks ((map.tiles affinity).map Tile.swap)
        fun visual => (map.visualToSource visual affinity).map (·.sourceOffset) := by
  constructor
  · rintro visual ⟨swapped, member, holds⟩
    obtain ⟨tile, member', rfl⟩ := List.mem_map.mp member
    obtain ⟨segment, inside, rfl⟩ := List.mem_map.mp member'
    obtain ⟨candidate, offered⟩ := MappingSegment.sourceCandidate_exists holds
    have filled : (map.segments.filterMap (·.sourceCandidate visual affinity)).mergeSort
          (fun first last => first.sourceOffset ≤ last.sourceOffset)
        ≠ [] := by
      apply List.ne_nil_of_mem
      exact List.mem_mergeSort.mpr (List.mem_filterMap.mpr ⟨segment, inside, offered⟩)
    obtain ⟨found, picked⟩ := preferred_exists (·.visibility.showsSource) affinity filled
    exact ⟨found.sourceOffset, by rw [visualToSource_eq, picked]; rfl⟩
  · intro visual source found
    obtain ⟨candidate, picked, rfl⟩ := Option.map_eq_some_iff.mp found
    rw [visualToSource_eq] at picked
    obtain ⟨segment, inside, offered⟩ :=
      List.mem_filterMap.mp (List.mem_mergeSort.mp (mem_of_preferred picked))
    obtain ⟨holds, image⟩ := MappingSegment.sourceCandidate_some (shaped segment inside) offered
    exact ⟨_, List.mem_map_of_mem (List.mem_map_of_mem inside), holds, image⟩

/-- Visual offsets are found for the source offsets that some segment holds. -/
theorem picks_sourceToVisual (map : SourceMap) (affinity : Bias)
    : Picks (map.tiles affinity)
        fun source => (map.sourceToVisual source affinity).map (·.visualOffset) := by
  constructor
  · rintro source ⟨tile, member, holds⟩
    obtain ⟨segment, inside, rfl⟩ := List.mem_map.mp member
    obtain ⟨candidate, offered⟩ := MappingSegment.visualCandidate_exists holds
    have filled : (map.segments.filterMap (·.visualCandidate source affinity)).mergeSort
          (fun first last => first.visualOffset ≤ last.visualOffset)
        ≠ [] := by
      apply List.ne_nil_of_mem
      exact List.mem_mergeSort.mpr (List.mem_filterMap.mpr ⟨segment, inside, offered⟩)
    obtain ⟨found, picked⟩ := preferred_exists (fun _ => false) affinity filled
    exact ⟨found.visualOffset, by rw [sourceToVisual_eq, picked]; rfl⟩
  · intro source visual found
    obtain ⟨candidate, picked, rfl⟩ := Option.map_eq_some_iff.mp found
    rw [sourceToVisual_eq] at picked
    obtain ⟨segment, inside, offered⟩ :=
      List.mem_filterMap.mp (List.mem_mergeSort.mp (mem_of_preferred picked))
    obtain ⟨holds, image⟩ := MappingSegment.visualCandidate_some offered
    exact ⟨_, List.mem_map_of_mem inside, holds, image⟩

/-- The segments follow each other from the start of a source range and a visual range to their
ends.
-/
def TilesFrom : List MappingSegment → SourceRange → VisualRange → Prop
  | [], range, visual => range.start = range.stop ∧ visual.start = visual.stop
  | segment :: rest, range, visual =>
      segment.sourceRange.start = range.start
      ∧ segment.visualRange.start = visual.start
      ∧ segment.Shaped
      ∧ TilesFrom rest ⟨segment.sourceRange.stop, range.stop⟩
          ⟨segment.visualRange.stop, visual.stop⟩

/-- The map tiles a source range and a visual range. -/
def Tiles (map : SourceMap) (range : SourceRange) (visual : VisualRange) : Prop :=
  TilesFrom map.segments range visual

theorem TilesFrom.aligned {segments : List MappingSegment} {range : SourceRange}
    {visual : VisualRange} (tiles : TilesFrom segments range visual) (affinity : Bias)
    : Aligned range.start visual.start (segments.map (MappingSegment.tile affinity))
          range.stop visual.stop
      ∧ ∀ segment ∈ segments, segment.Shaped := by
  induction segments generalizing range visual with
  | nil => exact ⟨tiles, fun segment member => absurd member List.not_mem_nil⟩
  | cons first rest ih =>
      obtain ⟨source, start, shaped, later⟩ := tiles
      obtain ⟨aligned, inner⟩ := ih later
      refine ⟨⟨source, start, shaped.tile affinity, aligned⟩, ?_⟩
      intro segment member
      rcases List.mem_cons.mp member with rfl | member
      · exact shaped
      · exact inner segment member

theorem roundTripSource_eq (map : SourceMap) (affinity : Bias)
    : map.roundTripSource affinity
      = fun source =>
          ((map.sourceToVisual source affinity).map (·.visualOffset)).bind fun visual =>
            (map.visualToSource visual affinity).map (·.sourceOffset) := by
  funext source
  unfold roundTripSource
  simp only [Option.map_eq_bind, Option.bind_assoc, Option.bind_some, Function.comp_def]
  rfl

theorem roundTripVisual_eq (map : SourceMap) (affinity : Bias)
    : map.roundTripVisual affinity
      = fun visual =>
          ((map.visualToSource visual affinity).map (·.sourceOffset)).bind fun source =>
            (map.sourceToVisual source affinity).map (·.visualOffset) := by
  funext visual
  unfold roundTripVisual
  simp only [Option.map_eq_bind, Option.bind_assoc, Option.bind_some, Function.comp_def]
  rfl

-- Normal forms

/-- The offsets of a tiled range, with the end of the range if there is a segment to end it. -/
def HasOffset (map : SourceMap) (start stop offset : Nat) : Prop :=
  start ≤ offset ∧ (offset < stop ∨ (offset = stop ∧ map.segments ≠ []))

/-- What normalising the offsets of a range by repeated trips gives: a fixed point, reached with
a round to spare, that does not depend on normalising twice and keeps the order.
-/
structure Normalizes (inside : Nat → Prop) (trip normalize : Nat → Option Nat) (rounds : Nat)
    : Prop where
  fixed :
    ∀ offset, inside offset
      → ∃ final,
        normalize offset = some final
        ∧ inside final
        ∧ trip final = some final
        ∧ settle trip rounds offset = some final
  idempotent :
    ∀ offset final, inside offset → normalize offset = some final
      → normalize final = some final
  monotone :
    ∀ offset offset' final final', inside offset → inside offset' → offset ≤ offset'
      → normalize offset = some final
      → normalize offset' = some final'
      → final ≤ final'

theorem normalizes_of_aligned {start start' stop stop' : Nat} {tiles : List Tile}
    (aligned : Aligned start start' tiles stop stop') {pick pick' : Nat → Option Nat}
    (picks : Picks tiles pick) (picks' : Picks (tiles.map Tile.swap) pick')
    {inside : Nat → Prop} (held : ∀ offset, inside offset ↔ ∃ tile ∈ tiles, tile.Holds offset)
    {rounds : Nat} (enough : rounds = tiles.length)
    : Normalizes inside (fun offset => (pick offset).bind pick')
        (settle (fun offset => (pick offset).bind pick') (rounds + 1)) rounds := by
  have walk := aligned.walk picks picks'
  have settles {offset : Nat} (within : inside offset)
      : ∃ final,
          settle (fun offset => (pick offset).bind pick') rounds offset = some final
          ∧ (∃ tile ∈ tiles, tile.Holds final)
          ∧ (pick final).bind pick' = some final := by
    have holds := (held offset).mp within
    obtain ⟨tile, member, lower, upper⟩ := holds
    obtain ⟨_, first, last, _, _⟩ := aligned.bounds.2.2 tile member
    have below : (tileStops tiles stop).countP (· < offset) ≤ tiles.length :=
      Aligned.countP_below (by omega)
    have above : (tileStops tiles stop).countP (offset < ·) ≤ tiles.length :=
      aligned.countP_above (by omega)
    exact walk.settles ⟨tile, member, lower, upper⟩ rounds (by omega) (by omega)
  constructor
  · intro offset within
    obtain ⟨final, reached, holds, fixed⟩ := settles within
    exact ⟨final, settle_more reached fixed, (held final).mpr holds, fixed, reached⟩
  · intro offset final within normal
    obtain ⟨final', reached, _, fixed⟩ := settles within
    obtain rfl := Option.some.inj ((settle_more reached fixed).symm.trans normal)
    exact settle_of_fixed fixed _
  · intro offset offset' final final' within within' ordered normal normal'
    exact walk.settle_mono _ ((held offset).mp within) ((held offset').mp within') ordered normal
      normal'

theorem hasOffset_iff {map : SourceMap} {start start' stop stop' : Nat} {tiles : List Tile}
    (aligned : Aligned start start' tiles stop stop') (filled : tiles ≠ [] ↔ map.segments ≠ [])
    (offset : Nat)
    : map.HasOffset start stop offset ↔ ∃ tile ∈ tiles, tile.Holds offset := by
  unfold HasOffset
  rw [← filled]
  constructor
  · rintro ⟨lower, upper⟩
    exact aligned.holds lower upper
  · rintro ⟨tile, member, lower, upper⟩
    obtain ⟨_, first, last, _, _⟩ := aligned.bounds.2.2 tile member
    refine ⟨by omega, ?_⟩
    rcases Nat.lt_or_ge offset stop with before | past
    · exact .inl before
    · exact .inr ⟨by omega, List.ne_nil_of_mem member⟩

/-- Normalising settles every offset of the source range and of the visual range the segments
tile, and leaves the offsets strictly inside text that is shown.
-/
theorem normalizes (map : SourceMap) {range : SourceRange} {visual : VisualRange}
    (tiles : map.Tiles range visual) (affinity : Bias)
    : Normalizes (map.HasOffset range.start range.stop) (map.roundTripSource affinity)
          (map.normalizeSource · affinity) map.segments.length
      ∧ Normalizes (map.HasOffset visual.start visual.stop) (map.roundTripVisual affinity)
          (map.normalizeVisual · affinity) map.segments.length
      ∧ ∀ segment ∈ map.segments, segment.visibility.showsSource = true
        → (∀ source, segment.sourceRange.start < source → source < segment.sourceRange.stop
            → map.normalizeSource source affinity = some source
              ∧ map.roundTripSource affinity source = some source)
          ∧ ∀ offset, segment.visualRange.start < offset → offset < segment.visualRange.stop
            → map.normalizeVisual offset affinity = some offset
              ∧ map.roundTripVisual affinity offset = some offset := by
  obtain ⟨aligned, shaped⟩ := tiles.aligned affinity
  have there := map.picks_sourceToVisual affinity
  have back := picks_visualToSource shaped affinity
  have there' : Picks (((map.tiles affinity).map Tile.swap).map Tile.swap)
      fun source => (map.sourceToVisual source affinity).map (·.visualOffset) := by
    rwa [List.map_map, show Tile.swap ∘ Tile.swap = id from rfl, List.map_id]
  have length : (map.tiles affinity).length = map.segments.length := List.length_map _
  have filled : map.tiles affinity ≠ [] ↔ map.segments ≠ [] := not_congr List.map_eq_nil_iff
  have filled' : (map.tiles affinity).map Tile.swap ≠ [] ↔ map.segments ≠ [] :=
    (not_congr List.map_eq_nil_iff).trans filled
  refine ⟨?_, ?_, ?_⟩
  · have normal := normalizes_of_aligned aligned there back (hasOffset_iff aligned filled)
      length.symm
    rw [← roundTripSource_eq] at normal
    exact normal
  · have normal := normalizes_of_aligned aligned.swap back there'
      (hasOffset_iff aligned.swap filled') ((List.length_map _).trans length).symm
    rw [← roundTripVisual_eq] at normal
    exact normal
  · intro segment member shown
    constructor
    · intro source lower upper
      have stays := aligned.inside there back (List.mem_map_of_mem member) shown lower upper
      rw [← congrFun (roundTripSource_eq map affinity) source] at stays
      exact ⟨settle_of_fixed stays _, stays⟩
    · intro offset lower upper
      have stays := aligned.swap.inside back there'
        (List.mem_map_of_mem (List.mem_map_of_mem member)) shown lower upper
      rw [← congrFun (roundTripVisual_eq map affinity) offset] at stays
      exact ⟨settle_of_fixed stays _, stays⟩

/-- The segments of `- ### item`: a list marker, its bullet, a heading marker and text. -/
def adjacentMarkers : SourceMap where
  segments :=
    [⟨⟨0, 2⟩, ⟨0, 0⟩, .hiddenMarkup, some .opening⟩,
      ⟨⟨2, 2⟩, ⟨0, 2⟩, .synthesized, none⟩,
      ⟨⟨2, 6⟩, ⟨2, 2⟩, .hiddenMarkup, some .opening⟩,
      ⟨⟨6, 10⟩, ⟨2, 6⟩, .visible, none⟩]

theorem normalizes_adjacentMarkers
    : Normalizes (adjacentMarkers.HasOffset 0 10) (adjacentMarkers.roundTripSource .after)
        (adjacentMarkers.normalizeSource · .after) 4 := by
  have shaped : ∀ segment ∈ adjacentMarkers.segments, segment.Shaped := by
    intro segment member
    simp only [adjacentMarkers, List.mem_cons, List.not_mem_nil, or_false] at member
    rcases member with rfl | rfl | rfl | rfl <;> constructor <;> decide
  have tiles : adjacentMarkers.Tiles ⟨0, 10⟩ ⟨0, 6⟩ :=
    ⟨rfl, rfl, shaped _ (by decide), rfl, rfl, shaped _ (by decide), rfl, rfl,
      shaped _ (by decide), rfl, rfl, shaped _ (by decide), rfl, rfl⟩
  exact (normalizes adjacentMarkers tiles .after).1

end SourceMap

end Hane.Presentation
