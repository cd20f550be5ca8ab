import Hane.Markdown.WindowGrowth

/-! When the blocks of an updated index still tile the buffer. -/

namespace Hane.Markdown

open Hane.Document Hane.Foundations

/-- The top-level nodes a parse reports start at non-decreasing offsets inside its range. -/
def Parser.Ordered (parser : Parser) : Prop :=
  ∀ revision range text, range.start + utf8Len text = range.stop
    → ((parser.parseDocument revision range text).tree.topLevel.map Prod.snd).Pairwise (· ≤ ·)
      ∧ ∀ node ∈ (parser.parseDocument revision range text).tree.topLevel,
        range.start ≤ node.2 ∧ node.2 ≤ range.stop

-- The lengths of tiled blocks

/-- Tiled blocks fill the range from where the first one starts, by induction on the nodes. -/
theorem tileFrom_lengths (range : SourceRange) (source : Text) {start : Nat}
    {nodes : List (NodeKind × Nat)} (filled : nodes ≠ []) (inside : start ≤ range.stop)
    (ordered : (nodes.tail.map Prod.snd).Pairwise (· ≤ ·))
    (bounds : ∀ node ∈ nodes.tail, start ≤ node.2 ∧ node.2 ≤ range.stop)
    : weight TiledBlock.length (tileFrom range source start nodes) = range.stop - start := by
  induction nodes generalizing start with
  | nil => exact absurd rfl filled
  | cons node rest ih =>
      obtain ⟨kind, offset⟩ := node
      cases rest with
      | nil =>
          simp [tileFrom, tiledBlock]
          omega
      | cons next later =>
          obtain ⟨first, remaining⟩ := List.pairwise_cons.mp ordered
          have here := bounds next List.mem_cons_self
          have tail := ih (List.cons_ne_nil next later) here.2 remaining (by
            intro node member
            exact ⟨first node.2 (List.mem_map_of_mem member),
              (bounds node (List.mem_cons_of_mem _ member)).2⟩)
          rw [tileFrom, weight_cons]
          simp only [List.head?_cons, Option.map_some, Option.getD_some, tiledBlock]
          rw [tail]
          omega

theorem tileFrom_eq_nil_iff (range : SourceRange) (source : Text) (start : Nat)
    (nodes : List (NodeKind × Nat))
    : tileFrom range source start nodes = [] ↔ nodes = [] := by
  cases nodes <;> simp [tileFrom]

namespace BlockIndex

variable {parser : Parser}

theorem parsedBlocks_lengths (ordered : parser.Ordered) (revision : Nat) {window : SourceRange}
    {text : Text} (fits : window.start + utf8Len text = window.stop)
    (filled : parsedBlocks parser revision window text ≠ [])
    : weight TiledBlock.length (parsedBlocks parser revision window text)
      = window.stop - window.start := by
  obtain ⟨sorted, bounds⟩ := ordered revision window text fits
  unfold parsedBlocks tiledBlocks at filled ⊢
  generalize (parser.parseDocument revision window text).tree.topLevel = nodes
    at sorted bounds filled ⊢
  have some : nodes ≠ [] := fun none => filled ((tileFrom_eq_nil_iff _ _ _ _).mpr none)
  apply tileFrom_lengths window text some (by omega)
  · rw [List.map_tail]
    exact sorted.sublist (List.tail_sublist _)
  · intro node member
    exact bounds node (List.mem_of_mem_tail member)

theorem parsedBlocks_eq_nil_iff (revision : Nat) (window : SourceRange) (text : Text)
    : parsedBlocks parser revision window text = []
      ↔ (parser.parseDocument revision window text).tree.topLevel = [] :=
  tileFrom_eq_nil_iff _ _ _ _

-- Covered buffers

def fullParse (parser : Parser) (buffer : RopeBuffer) : MarkdownParse parser.Details :=
  parser.parseDocument buffer.revision ⟨0, buffer.lenBytes⟩ buffer.fullText

/-- Either there is no block and a full parse yields none, or the blocks have the length of the
buffer.
-/
def Covers (index : BlockIndex parser) (buffer : RopeBuffer) : Prop :=
  (index.store.flat = [] ∧ (fullParse parser buffer).tree.topLevel = [])
  ∨ (index.store.flat ≠ [] ∧ totalLength index.store.flat = buffer.lenBytes)

theorem covers_build (ordered : parser.Ordered) (buffer : RopeBuffer)
    : (fromBuffer parser buffer).store.Consistent
      ∧ (fromBuffer parser buffer).Covers buffer := by
  refine ⟨.new _, ?_⟩
  have tiled := builtEntries_tiled buffer.revision
    (parsedBlocks parser buffer.revision ⟨0, utf8Len buffer.fullText⟩ buffer.fullText)
  have flat : (fromBuffer parser buffer).store.flat
      = builtEntries buffer.revision
          (parsedBlocks parser buffer.revision ⟨0, utf8Len buffer.fullText⟩
            buffer.fullText) :=
    BlockStore.flat_new _
  unfold Covers
  rw [flat]
  by_cases empty :
      parsedBlocks parser buffer.revision ⟨0, utf8Len buffer.fullText⟩ buffer.fullText = []
  · exact .inl ⟨by rw [empty]; rfl, (parsedBlocks_eq_nil_iff _ _ _).mp empty⟩
  · refine .inr ⟨?_, ?_⟩
    · intro none
      rw [none] at tiled
      exact empty tiled.symm
    · rw [totalLength_of_tiled tiled,
        parsedBlocks_lengths ordered _ (by rw [Nat.zero_add]) empty]
      rfl

theorem windowRange_split {index : BlockIndex parser} (consistent : index.store.Consistent)
    {first last : Nat} (ordered : first ≤ last) (inside : last < index.store.flat.length)
    : ∃ before existing after,
        index.store.flat = before ++ existing ++ after
        ∧ before.length = first
        ∧ before.length + existing.length = last + 1
        ∧ existing ≠ []
        ∧ index.windowRange first last
          = ⟨totalLength before, totalLength before + totalLength existing⟩ := by
  obtain ⟨before, existing, after, split, place, filled, stop⟩ := exists_run ordered inside
  refine ⟨before, existing, after, split, place, stop, filled, ?_⟩
  have left : index.store.flat.take first = before := by
    rw [split, ← place, List.append_assoc, List.take_left]
  have right : index.store.flat.take (last + 1) = before ++ existing := by
    rw [split, ← stop, ← List.length_append, List.take_left]
  unfold windowRange
  rw [span_eq consistent (by omega), span_eq consistent inside, left, right,
    totalLength_append]

/-- A window that parses to no block drops its bytes: it starts with the first block and ends
before the last one.
-/
structure DropsWindow (index : BlockIndex parser) (buffer : RopeBuffer) (first last : Nat)
    : Prop where
  leading : first = 0
  followed : last + 1 < index.len
  filled : 0 < (index.windowRange first last).lenBytes
  blank :
    ∃ text,
      buffer.text (index.windowRange first last) = .ok text
      ∧ (parser.parseDocument buffer.revision (index.windowRange first last)
          text).tree.topLevel = []

theorem text_fits {buffer : RopeBuffer} {window : SourceRange} {text : Text}
    (read : buffer.text window = .ok text)
    : window.start + utf8Len text = window.stop := by
  obtain ⟨before, after, _, rfl⟩ := RopeBuffer.text_split read
  rfl

theorem text_whole {buffer : RopeBuffer} {text : Text}
    (read : buffer.text ⟨0, buffer.lenBytes⟩ = .ok text)
    : text = buffer.fullText := by
  obtain ⟨before, after, rope, range⟩ := RopeBuffer.text_split read
  obtain ⟨start, stop⟩ := SourceRange.mk.inj range
  obtain rfl := (utf8Len_eq_zero_iff before).mp start.symm
  have total : buffer.lenBytes = utf8Len text + utf8Len after := by
    change utf8Len buffer.rope = _
    rw [rope]
    simp
  obtain rfl := (utf8Len_eq_zero_iff after).mp (by rw [utf8Len_nil] at stop; omega)
  change text = buffer.rope
  rw [rope]
  simp

theorem closeAt_store (index : BlockIndex parser) {buffer : RopeBuffer} {first last : Nat}
    {text : Text} (reparsedBytes : Nat)
    (read : buffer.text (index.windowRange first last) = .ok text)
    : ∃ fenceHeights,
        (index.closeAt buffer first last reparsedBytes).2.store
          = (index.spliceWindow first (last + 1)
              (parsedBlocks parser buffer.revision (index.windowRange first last) text)
              fenceHeights buffer.revision).store := by
  unfold closeAt
  dsimp only
  rw [read]
  refine ⟨parser.buildFenceHeightProjections
    (parser.parseDocument buffer.revision (index.windowRange first last) text)
    (parsedBlocks parser buffer.revision (index.windowRange first last) text)
    (index.windowRange first last) text, ?_⟩
  unfold closeWindow
  dsimp only
  split <;> rfl

section Close

variable {index : BlockIndex parser} {buffer : RopeBuffer} {first last : Nat}
  (consistent : index.store.Consistent)
  (total : totalLength index.store.flat = buffer.lenBytes)
  (firstLast : first ≤ last) (inside : last < index.store.flat.length)

include consistent total inside

theorem closeAt_unread {problem : BufferError} (reparsedBytes : Nat)
    (unread : buffer.text (index.windowRange first last) = .error problem)
    : (index.closeAt buffer first last reparsedBytes).2.store.Consistent
      ∧ (index.closeAt buffer first last reparsedBytes).2.Covers buffer := by
  unfold closeAt
  dsimp only
  rw [unread]
  refine ⟨consistent, .inr ⟨?_, total⟩⟩
  exact List.ne_nil_of_length_pos (Nat.zero_lt_of_lt inside)

include firstLast

theorem closeAt_filled (ordered : parser.Ordered) {text : Text} (reparsedBytes : Nat)
    (read : buffer.text (index.windowRange first last) = .ok text)
    (filled :
      parsedBlocks parser buffer.revision (index.windowRange first last) text ≠ [])
    : (index.closeAt buffer first last reparsedBytes).2.store.Consistent
      ∧ (index.closeAt buffer first last reparsedBytes).2.Covers buffer := by
  obtain ⟨before, existing, after, split, place, stop, _, range⟩ :=
    windowRange_split consistent firstLast inside
  obtain ⟨fenceHeights, store⟩ := closeAt_store index reparsedBytes read
  obtain ⟨items, tiled, splicedConsistent, flat⟩ := spliceWindow_filled consistent split
    place.symm stop.symm filled fenceHeights buffer.revision
  unfold Covers
  rw [store, flat]
  refine ⟨splicedConsistent, .inr ⟨?_, ?_⟩⟩
  · intro none
    have blank : items = [] :=
      (List.append_eq_nil_iff.mp (List.append_eq_nil_iff.mp none).1).2
    rw [blank] at tiled
    exact filled tiled.symm
  · have lengths := parsedBlocks_lengths ordered buffer.revision (text_fits read) filled
    rw [← totalLength_of_tiled tiled, range] at lengths
    rw [split] at total
    simp only [totalLength_append] at total lengths ⊢
    omega

theorem closeAt_blank {text : Text} (reparsedBytes : Nat)
    (read : buffer.text (index.windowRange first last) = .ok text) (below : 0 < first)
    (blank :
      parsedBlocks parser buffer.revision (index.windowRange first last) text = [])
    : (index.closeAt buffer first last reparsedBytes).2.store.Consistent
      ∧ (index.closeAt buffer first last reparsedBytes).2.Covers buffer := by
  obtain ⟨before, existing, after, split, place, stop, _, _⟩ :=
    windowRange_split consistent firstLast inside
  obtain ⟨fenceHeights, store⟩ := closeAt_store index reparsedBytes read
  obtain ⟨front, ⟨entry, length⟩, rfl⟩ :=
    (List.eq_nil_or_concat before).resolve_left (List.ne_nil_of_length_pos (by omega))
  rw [List.concat_eq_append] at split
  have place' : front.length + 1 = first := by simpa using place
  have stop' : front.length + 1 + existing.length = last + 1 := by simpa using stop
  have spliced := spliceWindow_blank consistent split fenceHeights buffer.revision
  rw [place', show first + existing.length = last + 1 by omega] at spliced
  unfold Covers
  rw [store, blank, spliced.2]
  refine ⟨spliced.1, .inr ⟨by simp, ?_⟩⟩
  rw [split] at total
  simp only [totalLength, weight_append, weight_cons, weight_nil] at total ⊢
  omega

theorem closeAt_leading {text : Text} (reparsedBytes : Nat)
    (read : buffer.text (index.windowRange first last) = .ok text) (leading : first = 0)
    (blank :
      parsedBlocks parser buffer.revision (index.windowRange first last) text = [])
    : (index.closeAt buffer first last reparsedBytes).2.store.Consistent
      ∧ ((index.closeAt buffer first last reparsedBytes).2.Covers buffer
        ↔ ¬ (last + 1 < index.len ∧ 0 < (index.windowRange first last).lenBytes)) := by
  obtain ⟨before, existing, after, split, place, stop, _, range⟩ :=
    windowRange_split consistent firstLast inside
  obtain ⟨fenceHeights, store⟩ := closeAt_store index reparsedBytes read
  have none : before = [] := List.eq_nil_of_length_eq_zero (place.trans leading)
  have spliced := spliceWindow_leading consistent split place.symm stop.symm none fenceHeights
    buffer.revision
  have nodes := (parsedBlocks_eq_nil_iff _ _ _).mp blank
  subst none
  have len : index.len = existing.length + after.length := by
    change index.store.len = _
    rw [consistent.len, split]
    simp
  have bytes : (index.windowRange first last).lenBytes = totalLength existing := by
    rw [range]
    simp [SourceRange.lenBytes]
  rw [split, List.nil_append, totalLength_append] at total
  simp only [List.length_nil, Nat.zero_add] at stop
  unfold Covers
  rw [store, blank, spliced.2, len, bytes]
  refine ⟨spliced.1, ?_⟩
  constructor
  · rintro (⟨gone, _⟩ | ⟨_, whole⟩) ⟨followed, positive⟩
    · rw [gone, List.length_nil] at followed
      omega
    · omega
  · intro kept
    by_cases followed : last + 1 < existing.length + after.length
    · refine .inr ⟨?_, by omega⟩
      exact List.ne_nil_of_length_pos (by omega)
    · have gone : after = [] := List.eq_nil_of_length_eq_zero (by omega)
      subst gone
      -- The blank window is the whole buffer.
      have whole : index.windowRange first last = ⟨0, buffer.lenBytes⟩ := by
        rw [range]
        simp only [totalLength, weight_nil] at total ⊢
        congr 1
        omega
      rw [whole] at read nodes
      obtain rfl := text_whole read
      exact .inl ⟨rfl, nodes⟩

theorem closeAt_covers_iff (ordered : parser.Ordered) (reparsedBytes : Nat)
    : (index.closeAt buffer first last reparsedBytes).2.store.Consistent
      ∧ ((index.closeAt buffer first last reparsedBytes).2.Covers buffer
        ↔ ¬ index.DropsWindow buffer first last) := by
  cases read : buffer.text (index.windowRange first last) with
  | error problem =>
      obtain ⟨kept, covers⟩ := closeAt_unread consistent total inside reparsedBytes read
      refine ⟨kept, fun _ dropped => ?_, fun _ => covers⟩
      obtain ⟨text, other, _⟩ := dropped.blank
      rw [read] at other
      cases other
  | ok text =>
      by_cases blank
          : parsedBlocks parser buffer.revision (index.windowRange first last) text = []
      · have nodes := (parsedBlocks_eq_nil_iff _ _ _).mp blank
        by_cases leading : first = 0
        · obtain ⟨kept, covers⟩ := closeAt_leading consistent total firstLast inside
            reparsedBytes read leading blank
          refine ⟨kept, covers.trans (not_congr ?_)⟩
          constructor
          · rintro ⟨followed, filled⟩
            exact ⟨leading, followed, filled, text, read, nodes⟩
          · exact fun dropped => ⟨dropped.followed, dropped.filled⟩
        · obtain ⟨kept, covers⟩ := closeAt_blank consistent total firstLast inside
            reparsedBytes read (Nat.pos_of_ne_zero leading) blank
          exact ⟨kept, fun _ dropped => leading dropped.leading, fun _ => covers⟩
      · obtain ⟨kept, covers⟩ := closeAt_filled consistent total firstLast inside ordered
          reparsedBytes read blank
        refine ⟨kept, fun _ dropped => ?_, fun _ => covers⟩
        obtain ⟨other, same, none⟩ := dropped.blank
        obtain rfl := Except.ok.inj (read.symm.trans same)
        exact blank ((parsedBlocks_eq_nil_iff _ _ _).mpr none)

end Close

/-- Whether updating the index by some edits drops bytes at the start of the document: the
window it settles on starts with the first block, ends before the last one, and parses to no
block.
-/
def DropsBytes (index : BlockIndex parser) (buffer : RopeBuffer)
    (deltas : List RevisionDelta) : Prop :=
  ∃ absorbed low high last,
    index.Settles buffer deltas absorbed low high last
    ∧ absorbed.DropsWindow buffer (low - 1) last

theorem update_covers_iff (ordered : parser.Ordered) {index : BlockIndex parser}
    (isConsistent : index.store.Consistent) {text : Text} {next : RopeBuffer}
    (covered : index.store.flat ≠ [] → totalLength index.store.flat = utf8Len text)
    {deltas : List RevisionDelta} (edited : deltas ≠ [])
    (rewrites : RopeBuffer.Rewrites text deltas next.rope)
    : (index.update next deltas).2.store.Consistent
      ∧ ((index.update next deltas).2.Covers next ↔ ¬ index.DropsBytes next deltas) := by
  by_cases empty : index.store.flat = []
  · obtain ⟨consistent, covers⟩ := covers_build ordered next
    rw [update_empty isConsistent empty edited]
    refine ⟨consistent, fun _ => ?_, fun _ => covers⟩
    rintro ⟨_, _, _, _, settles, _⟩
    exact settles.filled empty
  · obtain ⟨absorbed, low, high, last, settles, window, closes⟩ :=
      update_settles isConsistent empty (covered empty) edited rewrites
    have total : totalLength absorbed.store.flat = next.lenBytes := by
      have sum := window.edits.total
      have lengths := rewrites.lengths.2
      rw [covered empty] at sum
      change _ = utf8Len next.rope
      omega
    obtain ⟨kept, covers⟩ := closeAt_covers_iff window.edits.consistent total window.firstLast
      window.inside ordered
      (absorbed.reparsedBefore (low - 1) (min (high + 1) (absorbed.len - 1)) last)
    rw [closes]
    refine ⟨kept, covers.trans (not_congr ?_)⟩
    constructor
    · exact fun dropped => ⟨absorbed, low, high, last, settles, dropped⟩
    · rintro ⟨_, _, _, _, other, dropped⟩
      obtain ⟨rfl, rfl, rfl, rfl⟩ := settles.unique other
      exact dropped

end BlockIndex

end Hane.Markdown
