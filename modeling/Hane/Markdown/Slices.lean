import Hane.Markdown.Tiling

/-! The blocks of an index cut its text into slices, so every window of it can be read. -/

namespace Hane.Markdown

open Hane.Document Hane.Foundations

/-- The top-level nodes a parse reports start between two characters of its text. -/
def Parser.Aligned (parser : Parser) : Prop :=
  ∀ revision range text, range.start + utf8Len text = range.stop
    → ∀ node ∈ (parser.parseDocument revision range text).tree.topLevel,
      ∃ before after, text = before ++ after ∧ node.2 = range.start + utf8Len before

/-- The text is cut into slices of some byte lengths. -/
def Slices (lengths : List Nat) (text : Text) : Prop :=
  ∃ slices : List Text, slices.flatten = text ∧ slices.map utf8Len = lengths

theorem slices_singleton (text : Text) : Slices [utf8Len text] text :=
  ⟨[text], by simp, rfl⟩

theorem slices_append_iff (left right : List Nat) (text : Text)
    : Slices (left ++ right) text
      ↔ ∃ before after, text = before ++ after ∧ Slices left before ∧ Slices right after := by
  constructor
  · rintro ⟨slices, rfl, lengths⟩
    obtain ⟨first, last, rfl, firstLengths, lastLengths⟩ := List.map_eq_append_iff.mp lengths
    exact ⟨first.flatten, last.flatten, List.flatten_append, ⟨first, rfl, firstLengths⟩,
      last, rfl, lastLengths⟩
  · rintro ⟨_, _, rfl, ⟨first, rfl, rfl⟩, last, rfl, rfl⟩
    exact ⟨first ++ last, List.flatten_append, List.map_append⟩

theorem Slices.append {left right : List Nat} {before after : Text} (first : Slices left before)
    (last : Slices right after)
    : Slices (left ++ right) (before ++ after) :=
  (slices_append_iff left right _).mpr ⟨before, after, rfl, first, last⟩

theorem Slices.sum {lengths : List Nat} {text : Text} (slices : Slices lengths text)
    : lengths.sum = utf8Len text := by
  obtain ⟨slices, rfl, rfl⟩ := slices
  unfold utf8Len
  rw [weight_flatten]
  rfl

/-- Blocks that start at sorted boundaries cut the text, by induction on their nodes. -/
theorem slices_tileFrom (range : SourceRange) (source : Text) {start : Nat} {text : Text}
    {nodes : List (NodeKind × Nat)} (filled : nodes ≠ [])
    (fits : start + utf8Len text = range.stop)
    (sorted : (nodes.tail.map Prod.snd).Pairwise (· ≤ ·))
    (aligned :
      ∀ node ∈ nodes.tail, ∃ before after, text = before ++ after ∧ node.2 = start + utf8Len before)
    : Slices ((tileFrom range source start nodes).map (·.length)) text := by
  induction nodes generalizing start text with
  | nil => exact absurd rfl filled
  | cons node rest ih =>
      cases rest with
      | nil =>
          have whole : (tileFrom range source start [node]).map (·.length) = [utf8Len text] := by
            simp only [tileFrom, List.head?_nil, Option.map_none, Option.getD_none, tiledBlock,
              List.map_cons, List.map_nil]
            congr 1
            omega
          rw [whole]
          exact slices_singleton text
      | cons next later =>
          obtain ⟨before, after, rfl, place⟩ := aligned next List.mem_cons_self
          obtain ⟨first, remaining⟩ := List.pairwise_cons.mp sorted
          rw [utf8Len_append] at fits
          have tail : Slices ((tileFrom range source next.2 (next :: later)).map (·.length)) after
              := by
            refine ih (List.cons_ne_nil next later) (by omega) remaining ?_
            intro node member
            obtain ⟨front, back, same, offset⟩ := aligned node (List.mem_cons_of_mem _ member)
            have := first node.2 (List.mem_map_of_mem member)
            obtain ⟨between, rfl, rest⟩ := append_split_of_utf8Len_le same (by omega)
            rw [utf8Len_append] at offset
            exact ⟨between, back, rest, by omega⟩
          have head : (tileFrom range source start (node :: next :: later)).map (·.length)
              = [utf8Len before]
                ++ (tileFrom range source next.2 (next :: later)).map (·.length) := by
            rw [tileFrom, List.map_cons]
            simp only [List.head?_cons, Option.map_some, Option.getD_some, tiledBlock,
              List.singleton_append]
            congr 1
            omega
          rw [head]
          exact (slices_singleton before).append tail

namespace BlockIndex

variable {parser : Parser} {index : BlockIndex parser}

theorem parsedBlocks_slices (ordered : parser.Ordered) (aligned : parser.Aligned)
    (revision : Nat) {window : SourceRange} {text : Text}
    (fits : window.start + utf8Len text = window.stop)
    (filled : parsedBlocks parser revision window text ≠ [])
    : Slices ((parsedBlocks parser revision window text).map (·.length)) text := by
  obtain ⟨sorted, _⟩ := ordered revision window text fits
  have boundaries := aligned revision window text fits
  unfold parsedBlocks tiledBlocks at filled ⊢
  generalize (parser.parseDocument revision window text).tree.topLevel = nodes
    at sorted boundaries filled ⊢
  have some : nodes ≠ [] := fun none => filled ((tileFrom_eq_nil_iff _ _ _ _).mpr none)
  apply slices_tileFrom window text some fits
  · rw [List.map_tail]
    exact sorted.sublist (List.tail_sublist _)
  · intro node member
    exact boundaries node (List.mem_of_mem_tail member)

def Cuts (index : BlockIndex parser) (text : Text) : Prop :=
  index.store.flat ≠ [] → Slices (index.store.flat.map Prod.snd) text

/-- The window an update settles on lies between slices of the edited text: the blocks above
and below it were not edited.
-/
theorem Window.slices {absorbed : BlockIndex parser} {deltas : List RevisionDelta}
    {low high last : Nat} (window : index.Window deltas absorbed low high last)
    {text final : Text} (slices : Slices (index.store.flat.map Prod.snd) text)
    (rewrites : RopeBuffer.Rewrites text deltas final)
    : ∃ before middle after,
        final = before ++ (middle ++ after)
        ∧ Slices ((absorbed.store.flat.take (low - 1)).map Prod.snd) before
        ∧ Slices ((absorbed.store.flat.drop (last + 1)).map Prod.snd) after
        ∧ absorbed.windowRange (low - 1) last
          = ⟨utf8Len before, utf8Len before + utf8Len middle⟩ := by
  have untouched := window.edits.untouched
  have within := window.edits.within
  have total := window.edits.total
  have consistent := window.edits.consistent
  generalize index.store.flat = original at slices untouched within total
  have ⟨lowHigh, inside, room, front, back⟩ := untouched
  generalize cut : original.length - (absorbed.store.flat.length - (high + 1)) = tail
    at within back
  have parts : original
      = original.take low ++ (original.drop low).take (tail - low) ++ original.drop tail := by
    have ends := take_drop_ends original low (original.length - tail) (by omega)
    rwa [show original.length - (original.length - tail) = tail by omega,
      show original.length - low - (original.length - tail) = tail - low by omega] at ends
  rw [parts, List.map_append, List.map_append] at slices
  obtain ⟨left, after, rfl, leftSlices, afterSlices⟩ := (slices_append_iff _ _ _).mp slices
  obtain ⟨before, middle, rfl, beforeSlices, _⟩ := (slices_append_iff _ _ _).mp leftSlices
  have beforeLength : totalLength (original.take low) = utf8Len before := beforeSlices.sum
  have afterLength : totalLength (original.drop tail) = utf8Len after := afterSlices.sum
  have whole : totalLength original = utf8Len (before ++ (middle ++ after)) := by
    rw [← List.append_assoc, ← slices.sum, ← List.map_append, ← List.map_append, ← parts]
    rfl
  rw [beforeLength, afterLength, whole] at within
  rw [List.append_assoc] at rewrites
  obtain ⟨edited, rfl⟩ := rewrites.within within
  -- The window widens the edited part up to block boundaries on both sides.
  rw [← front] at beforeSlices
  have above : absorbed.store.flat.take low
      = absorbed.store.flat.take (low - 1) ++ (absorbed.store.flat.take low).drop (low - 1) := by
    have halves := (List.take_append_drop (low - 1) (absorbed.store.flat.take low)).symm
    rwa [List.take_take, Nat.min_eq_left (Nat.sub_le low 1)] at halves
  rw [above, List.map_append] at beforeSlices
  obtain ⟨before', between, rfl, aboveSlices, _⟩ := (slices_append_iff _ _ _).mp beforeSlices
  rw [← back] at afterSlices
  have ordered := window.firstLast
  have reaches := window.reaches
  have below : absorbed.store.flat.drop (high + 1)
      = (absorbed.store.flat.drop (high + 1)).take (last - high)
        ++ absorbed.store.flat.drop (last + 1) := by
    have halves := (List.take_append_drop (last - high) (absorbed.store.flat.drop (high + 1))).symm
    rwa [List.drop_drop, show high + 1 + (last - high) = last + 1 by omega] at halves
  rw [below, List.map_append] at afterSlices
  obtain ⟨between', after', rfl, _, belowSlices⟩ := (slices_append_iff _ _ _).mp afterSlices
  refine ⟨before', between ++ edited ++ between', after', by simp only [List.append_assoc],
    aboveSlices, belowSlices, ?_⟩
  obtain ⟨first, existing, rest, split, place, stop, _, range⟩ :=
    windowRange_split consistent window.firstLast window.inside
  have start : totalLength first = utf8Len before' := by
    rw [← aboveSlices.sum, split, ← place, List.append_assoc, List.take_left]
    rfl
  have stops : totalLength rest = utf8Len after' := by
    rw [← belowSlices.sum, split, ← stop, ← List.length_append, List.drop_left]
    rfl
  have sum : totalLength first + totalLength existing + totalLength rest
      = utf8Len (before' ++ between ++ (edited ++ (between' ++ after'))) := by
    have lengths := rewrites.lengths.2
    rw [← totalLength_append, ← totalLength_append, ← split]
    omega
  simp only [utf8Len_append] at sum ⊢
  rw [range]
  congr 1
  omega

end BlockIndex

end Hane.Markdown
