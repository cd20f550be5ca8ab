import Hane.Markdown.Publication
import Hane.Markdown.Tiling
import Mathlib.Logic.Relation

/-! The blocks of an index that is updated round by round tile the buffer. -/

namespace Hane.Markdown

open Hane.Document Hane.Foundations

/-- Ranges that follow each other from `start` to `stop`. -/
def Tiles : Nat → List SourceRange → Nat → Prop
  | start, [], stop => start = stop
  | start, range :: rest, stop =>
      range.start = start ∧ range.start ≤ range.stop ∧ Tiles range.stop rest stop

theorem tiles_numbered {T : Type} (next start stop : Nat) (items : List (T × Nat))
    : Tiles start
          ((BlockStore.numbered next start items).map
            fun (_, _, start, length) => (⟨start, start + length⟩ : SourceRange))
          stop
      ↔ start + totalLength items = stop := by
  induction items generalizing next start with
  | nil => simp [BlockStore.numbered, Tiles, totalLength]
  | cons item rest ih =>
      rw [BlockStore.numbered, List.map_cons, Tiles, ih]
      simp only [totalLength, weight_cons, true_and]
      omega

@[simp] theorem numbered_length {T : Type} (next start : Nat) (items : List (T × Nat))
    : (BlockStore.numbered next start items).length = items.length := by
  induction items generalizing next start with
  | nil => rfl
  | cons item rest ih => rw [BlockStore.numbered, List.length_cons, ih, List.length_cons]

namespace BlockIndex

variable {parser : Parser}

/-- The blocks tile the buffer: either there is none and a full parse yields none, or they
follow each other from the start of the buffer to its end.
-/
def TilesBuffer (index : BlockIndex parser) (buffer : RopeBuffer) : Prop :=
  (index.blocks = [] ∧ (fullParse parser buffer).tree.topLevel = [])
  ∨ (index.blocks ≠ [] ∧ Tiles 0 (index.blocks.map (·.sourceRange)) buffer.lenBytes)

theorem blocks_eq {index : BlockIndex parser} (consistent : index.store.Consistent)
    : index.blocks
      = (BlockStore.numbered 0 0 index.store.flat).map
          fun (ordinal, entry, start, length) =>
            index.indexed ordinal entry ⟨start, start + length⟩ := by
  have len : index.len = index.store.flat.length := consistent.len
  have all := (consistent.iterFrom 0).take index.len
  have start : (index.store.iterFrom 0).offset = 0 := by
    change index.store.start 0 = 0
    rw [consistent.start]
    rfl
  rw [start, List.drop_zero, List.take_of_length_le (by rw [len, numbered_length])] at all
  unfold BlockIndex.blocks blocksFrom
  rw [all]
  rfl

theorem tilesBuffer_iff {index : BlockIndex parser} (consistent : index.store.Consistent)
    (buffer : RopeBuffer)
    : index.TilesBuffer buffer ↔ index.Covers buffer := by
  have blocks := blocks_eq consistent
  have ranges : index.blocks.map (·.sourceRange)
      = (BlockStore.numbered 0 0 index.store.flat).map
          fun (_, _, start, length) => (⟨start, start + length⟩ : SourceRange) := by
    rw [blocks, List.map_map]
    rfl
  have empty : index.blocks = [] ↔ index.store.flat = [] := by
    rw [blocks, List.map_eq_nil_iff, ← List.length_eq_zero_iff, numbered_length,
      List.length_eq_zero_iff]
  unfold TilesBuffer Covers
  rw [ranges, tiles_numbered, Nat.zero_add, ne_eq, empty]

-- Rounds

/-- Any edits of the buffer, then an update with exactly the edits since the index's revision.
-/
inductive Round : RopeBuffer × BlockIndex parser → RopeBuffer × BlockIndex parser → Prop
  | mk {buffer next : RopeBuffer} {index : BlockIndex parser} {deltas : List RevisionDelta}
      : RopeBuffer.Edits buffer next
        → next.deltasSince index.revision = .ok deltas
        → Round (buffer, index) (next, (index.update next deltas).2)

/-- Rounds in a row. -/
def Rounds : RopeBuffer × BlockIndex parser → RopeBuffer × BlockIndex parser → Prop :=
  Relation.ReflTransGen Round

/-- A round whose update drops no bytes at the start of the document. -/
def KeptRound (now next : RopeBuffer × BlockIndex parser) : Prop :=
  Round now next
  ∧ ∀ deltas,
    next.1.deltasSince now.2.revision = .ok deltas → ¬ now.2.DropsBytes next.1 deltas

/-- The index is consistent, at the buffer's revision, and covers the buffer. -/
structure Tracks (now : RopeBuffer × BlockIndex parser) : Prop where
  logged : ∃ full, RopeBuffer.Logged full now.1
  positive : 0 < now.1.deltaCapacity
  current : now.2.revision = now.1.revision
  consistent : now.2.store.Consistent
  covers : now.2.Covers now.1

theorem Tracks.fromBuffer (ordered : parser.Ordered) (chunks : List Text) {buffer : RopeBuffer}
    (edits : RopeBuffer.Edits (.fromRope chunks) buffer)
    : Tracks (buffer, fromBuffer parser buffer) where
  logged := (RopeBuffer.Logged.fromRope chunks).edits edits
  positive := by
    rw [edits.deltaCapacity]
    exact Nat.zero_lt_succ _
  current := rfl
  consistent := (covers_build ordered buffer).1
  covers := (covers_build ordered buffer).2

theorem Tracks.round (ordered : parser.Ordered) {now next : RopeBuffer × BlockIndex parser}
    (tracks : Tracks now) (kept : KeptRound now next)
    : Tracks next := by
  obtain ⟨⟨edits, since⟩, keeps⟩ := kept
  rename_i buffer next index deltas
  obtain ⟨full, logged⟩ := tracks.logged
  have current : index.revision = buffer.revision := tracks.current
  have keeps := keeps deltas since
  rw [current] at since
  obtain ⟨loggedNext, rewrites⟩ := logged.rewrites_since tracks.positive edits since
  have positive : 0 < next.deltaCapacity := by
    rw [edits.deltaCapacity]
    exact tracks.positive
  suffices result : (index.update next deltas).2.store.Consistent
      ∧ (index.update next deltas).2.Covers next from
    ⟨⟨_, loggedNext⟩, positive, update_revision _ _ _, result.1, result.2⟩
  by_cases none : deltas = []
  · subst none
    -- Nothing was edited, so the text and its full parse are those of before.
    have rope : buffer.rope = next.rope := rewrites
    have revision : next.revision = buffer.revision := by
      rw [loggedNext.revision, logged.revision, List.append_nil]
    have parse : fullParse parser next = fullParse parser buffer := by
      unfold fullParse RopeBuffer.lenBytes RopeBuffer.fullText
      rw [rope, revision]
    have covers := tracks.covers
    refine ⟨tracks.consistent, ?_⟩
    unfold Covers at covers ⊢
    rw [parse]
    unfold RopeBuffer.lenBytes at covers ⊢
    rw [← rope]
    exact covers
  · have covered : index.store.flat ≠ [] → totalLength index.store.flat = utf8Len buffer.rope := by
      intro filled
      rcases tracks.covers with ⟨gone, _⟩ | ⟨_, total⟩
      · exact absurd gone filled
      · exact total
    obtain ⟨consistent, covers⟩ :=
      update_covers_iff ordered tracks.consistent covered none rewrites
    exact ⟨consistent, covers.mpr keeps⟩

theorem Tracks.keeps (ordered : parser.Ordered) {buffer next : RopeBuffer}
    {index : BlockIndex parser} {deltas : List RevisionDelta} (tracks : Tracks (buffer, index))
    (edits : RopeBuffer.Edits buffer next) (since : next.deltasSince index.revision = .ok deltas)
    (edited : deltas ≠ []) (covers : (index.update next deltas).2.Covers next)
    : ¬ index.DropsBytes next deltas := by
  obtain ⟨full, logged⟩ := tracks.logged
  have current : index.revision = buffer.revision := tracks.current
  rw [current] at since
  obtain ⟨_, rewrites⟩ := logged.rewrites_since tracks.positive edits since
  have covered : index.store.flat ≠ [] → totalLength index.store.flat = utf8Len buffer.rope := by
    intro filled
    rcases tracks.covers with ⟨gone, _⟩ | ⟨_, total⟩
    · exact absurd gone filled
    · exact total
  exact (update_covers_iff ordered tracks.consistent covered edited rewrites).2.mp covers

-- Documents line by line

/-- The top-level nodes of lines that are blank, headings, the first line of a link reference
definition whose destination is on the next line, or paragraphs of their own.
-/
def lineNodes : Bool → Nat → List SourceLine → List (NodeKind × Nat)
  | _, _, [] => []
  | true, offset, line :: rest => lineNodes false (offset + utf8Len line.text) rest
  | false, offset, line :: rest =>
      let next := offset + utf8Len line.text
      match line.content with
      | [] => lineNodes false next rest
      | '#' :: _ => (.heading 1, offset) :: lineNodes false next rest
      | '[' :: _ => lineNodes true next rest
      | _ => (.paragraph, offset) :: lineNodes false next rest

/-- A parser of such lines. -/
def lineParser : Parser := .plain fun text => lineNodes false 0 (splitLines text)

/-- A node in front of others that follow it. -/
private theorem bounds_cons (node : NodeKind × Nat) {nodes : List (NodeKind × Nat)}
    {next stop : Nat} (within : next ≤ stop) (before : node.2 ≤ next)
    (bounds :
      (nodes.map Prod.snd).Pairwise (· ≤ ·) ∧ ∀ node ∈ nodes, next ≤ node.2 ∧ node.2 ≤ stop)
    : ((node :: nodes).map Prod.snd).Pairwise (· ≤ ·)
      ∧ ∀ found ∈ node :: nodes, node.2 ≤ found.2 ∧ found.2 ≤ stop := by
  obtain ⟨sorted, inside⟩ := bounds
  constructor
  · rw [List.map_cons, List.pairwise_cons]
    refine ⟨?_, sorted⟩
    intro offset member
    obtain ⟨found, later, rfl⟩ := List.mem_map.mp member
    exact Nat.le_trans before (inside found later).1
  · intro found member
    rcases List.mem_cons.mp member with rfl | later
    · omega
    · have := inside found later
      omega

/-- The nodes of lines start in order and within the lines, by induction on them. -/
theorem lineNodes_bounds (skip : Bool) (offset : Nat) (lines : List SourceLine)
    : ((lineNodes skip offset lines).map Prod.snd).Pairwise (· ≤ ·)
      ∧ ∀ node ∈ lineNodes skip offset lines,
        offset ≤ node.2 ∧ node.2 ≤ offset + weight (fun line => utf8Len line.text) lines := by
  induction lines generalizing skip offset with
  | nil => exact ⟨.nil, fun node member => absurd member List.not_mem_nil⟩
  | cons line rest ih =>
      have later (skip : Bool)
          : ((lineNodes skip (offset + utf8Len line.text) rest).map Prod.snd).Pairwise (· ≤ ·)
            ∧ ∀ node ∈ lineNodes skip (offset + utf8Len line.text) rest,
              offset ≤ node.2
              ∧ node.2 ≤ offset + weight (fun line => utf8Len line.text) (line :: rest) := by
        obtain ⟨sorted, inside⟩ := ih skip (offset + utf8Len line.text)
        refine ⟨sorted, fun node member => ?_⟩
        have := inside node member
        rw [weight_cons]
        omega
      have started (kind : NodeKind) :=
        bounds_cons (kind, offset) (Nat.le_add_right _ _) (Nat.le_refl offset) (later false)
      cases skip with
      | true => exact later false
      | false =>
          unfold lineNodes
          dsimp only
          split
          · exact later false
          · exact started _
          · exact later true
          · exact started _

theorem lineParser_ordered : lineParser.Ordered := by
  intro revision range text fits
  have length : weight (fun line => utf8Len line.text) (splitLines text) = utf8Len text := by
    have tiles := congrArg utf8Len (splitLines_flatten text)
    unfold utf8Len at tiles ⊢
    rwa [weight_flatten, weight_map] at tiles
  obtain ⟨sorted, inside⟩ := lineNodes_bounds false 0 (splitLines text)
  rw [length] at inside
  rw [lineParser, Parser.topLevel_plain, List.map_map]
  constructor
  · refine List.pairwise_map.mpr ((List.pairwise_map.mp sorted).imp ?_)
    intro first last before
    exact Nat.add_le_add_left before _
  · intro node member
    obtain ⟨found, here, rfl⟩ := List.mem_map.mp member
    have := inside found here
    dsimp only
    omega

/-- After any rounds that drop no bytes the blocks tile the buffer. -/
theorem tilesBuffer_of_rounds (ordered : parser.Ordered) {chunks : List Text}
    {buffer : RopeBuffer} (edits : RopeBuffer.Edits (.fromRope chunks) buffer)
    {final : RopeBuffer × BlockIndex parser}
    (rounds : Relation.ReflTransGen KeptRound (buffer, fromBuffer parser buffer) final)
    : final.2.TilesBuffer final.1 := by
  have tracks : Tracks final := by
    induction rounds with
    | refl => exact .fromBuffer ordered chunks edits
    | tail _ kept ih => exact ih.round ordered kept
  exact (tilesBuffer_iff tracks.consistent _).mpr tracks.covers

/-- Three blocks: a character is typed in the paragraph, which is then made a heading. -/
theorem tilesBuffer_of_rounds_lines
    : let opened : RopeBuffer :=
        .fromRope [['#', ' ', 'a', '\n', 'b', '\n', '#', ' ', 'c', '\n']]
      let edited : RopeBuffer :=
        { rope := ['#', ' ', 'a', '\n', 'x', 'b', '\n', '#', ' ', 'c', '\n']
          lineMirror := ['#', ' ', 'a', '\n', 'x', 'b', '\n', '#', ' ', 'c', '\n']
          revision := 1
          deltas := [⟨0, 1, ⟨4, 4⟩, ⟨4, 5⟩, 1⟩]
          deltaCapacity := 4096 }
      let headed : RopeBuffer :=
        { rope := ['#', ' ', 'a', '\n', '#', 'x', 'b', '\n', '#', ' ', 'c', '\n']
          lineMirror := ['#', ' ', 'a', '\n', '#', 'x', 'b', '\n', '#', ' ', 'c', '\n']
          revision := 2
          deltas := [⟨0, 1, ⟨4, 4⟩, ⟨4, 5⟩, 1⟩, ⟨1, 2, ⟨4, 4⟩, ⟨4, 5⟩, 1⟩]
          deltaCapacity := 4096 }
      let parsed := fromBuffer lineParser opened
      let typed := (parsed.update edited [⟨0, 1, ⟨4, 4⟩, ⟨4, 5⟩, 1⟩]).2
      let marked := (typed.update headed [⟨1, 2, ⟨4, 4⟩, ⟨4, 5⟩, 1⟩]).2
      marked.TilesBuffer headed ∧ marked.blocks.length = 3 := by
  intro opened edited headed parsed typed marked
  have first : RopeBuffer.Edits opened edited :=
    .single ⟨⟨4, 4⟩, ['x'], RopeBuffer.editSummary 0 ⟨4, 4⟩ ['x'] [], by decide⟩
  have last : RopeBuffer.Edits edited headed :=
    .single ⟨⟨4, 4⟩, ['#'], RopeBuffer.editSummary 1 ⟨4, 4⟩ ['#'] [], by decide⟩
  have since : headed.deltasSince typed.revision = .ok [⟨1, 2, ⟨4, 4⟩, ⟨4, 5⟩, 1⟩] := by
    rw [show typed.revision = 1 from update_revision _ _ _]
    rfl
  have start : Tracks (opened, parsed) := .fromBuffer lineParser_ordered _ .refl
  have filled : typed.Covers edited :=
    .inr ⟨List.ne_nil_of_length_pos (by decide +kernel), by decide +kernel⟩
  have refilled : marked.Covers headed :=
    .inr ⟨List.ne_nil_of_length_pos (by decide +kernel), by decide +kernel⟩
  have typing : KeptRound (opened, parsed) (edited, typed) := by
    refine ⟨.mk first rfl, fun deltas found => ?_⟩
    obtain rfl := Except.ok.inj (found.symm.trans rfl)
    exact start.keeps lineParser_ordered first rfl nofun filled
  have marking : KeptRound (edited, typed) (headed, marked) := by
    refine ⟨.mk last since, fun deltas found => ?_⟩
    obtain rfl := Except.ok.inj (found.symm.trans since)
    exact (start.round lineParser_ordered typing).keeps lineParser_ordered last since nofun refilled
  exact ⟨tilesBuffer_of_rounds lineParser_ordered .refl (.tail (.single typing) marking),
    by decide +kernel⟩

-- A window of link reference definitions

/-- Blank lines in front only move the nodes, by induction on their number. -/
theorem lineNodes_blank (count offset : Nat) (rest : Text)
    : lineNodes false offset (splitLines (List.replicate count '\n' ++ rest))
      = lineNodes false (offset + count) (splitLines rest) := by
  induction count generalizing offset with
  | zero => rfl
  | succ count ih =>
      have first : splitLines ('\n' :: (List.replicate count '\n' ++ rest))
          = ⟨[], ['\n']⟩ :: splitLines (List.replicate count '\n' ++ rest) := by
        rw [splitLines]
      rw [List.replicate_succ, List.cons_append, first]
      have next := ih (offset + 1)
      rw [Nat.add_assoc, Nat.add_comm 1] at next
      exact next

/-- Blank lines, then the heading `# [a]:`, the paragraph `/b` and the heading `# c`. -/
def headedSource (count : Nat) : Text :=
  List.replicate count '\n'
    ++ (['#', ' ']
      ++ ['[', 'a', ']', ':', '\n', '/', 'b', '\n', '\n', '#', ' ', 'c', '\n'])

/-- The same lines once the first heading is the start of a link reference definition. -/
def definedSource (count : Nat) : Text :=
  List.replicate count '\n'
    ++ ([]
      ++ ['[', 'a', ']', ':', '\n', '/', 'b', '\n', '\n', '#', ' ', 'c', '\n'])

theorem utf8Len_replicate (count : Nat) : utf8Len (List.replicate count '\n') = count := by
  induction count with
  | zero => rfl
  | succ count ih => rw [List.replicate_succ, utf8Len_cons, ih, Nat.add_comm]; rfl

/-- The full parse finds the two headings and the paragraph. -/
theorem headedSource_lengths (count : Nat)
    : ((fromBuffer lineParser (.fromText (headedSource count))).store.flat).map Prod.snd
      = [count + 7, 4, 4] := by
  have text : (RopeBuffer.fromText (headedSource count)).fullText = headedSource count :=
    List.append_nil _
  have length : utf8Len (headedSource count) = count + 15 := by
    unfold headedSource
    rw [utf8Len_append, utf8Len_replicate]
    rfl
  have nodes : lineNodes false 0 (splitLines (headedSource count))
      = [(.heading 1, count), (.paragraph, count + 7), (.heading 1, count + 11)] := by
    unfold headedSource
    rw [lineNodes_blank, Nat.zero_add]
    rfl
  have flat : (fromBuffer lineParser (.fromText (headedSource count))).store.flat
      = builtEntries 0
          (parsedBlocks lineParser 0 ⟨0, utf8Len (headedSource count)⟩
            (headedSource count)) := by
    unfold fromBuffer
    rw [text]
    exact BlockStore.flat_new _
  have tiled := congrArg (List.map TiledBlock.length) (builtEntries_tiled 0
    (parsedBlocks lineParser 0 ⟨0, utf8Len (headedSource count)⟩ (headedSource count)))
  rw [List.map_map] at tiled
  rw [flat]
  refine tiled.trans ?_
  unfold parsedBlocks tiledBlocks lineParser
  rw [Parser.topLevel_plain, nodes, length]
  simp [tileFrom, tiledBlock]

/-- Deleting the first heading's marker is one logged edit. -/
theorem headedSource_edit (count : Nat)
    : ∃ next,
        RopeBuffer.Edits (.fromText (headedSource count)) next
        ∧ next.rope = definedSource count
        ∧ next.revision = 1
        ∧ next.deltasSince 0 = .ok [RopeBuffer.editDelta 0 ⟨count, count + 2⟩ []] := by
  have rope : (RopeBuffer.fromText (headedSource count)).rope = headedSource count :=
    List.append_nil _
  have edited := RopeBuffer.edit_append (.fromText (headedSource count))
    (List.replicate count '\n') ['#', ' '] _ [] rope
  rw [utf8Len_replicate] at edited
  exact ⟨_, .single ⟨_, _, _, edited⟩, rfl, rfl, rfl⟩

/-- An update after that edit drops the definition and the lines in front of it, once there
are enough of them. Witness: the window of the first two blocks parses to nothing.
-/
theorem headedSource_drops {count : Nat} (many : resyncByteBudget ≤ count) {next : RopeBuffer}
    (rope : next.rope = definedSource count)
    : (fromBuffer lineParser (.fromText (headedSource count))).DropsBytes next
        [RopeBuffer.editDelta 0 ⟨count, count + 2⟩ []] := by
  generalize parsed : fromBuffer lineParser (.fromText (headedSource count)) = index
  have consistent : index.clearProjections.store.Consistent := by
    rw [← parsed]
    exact .new _
  obtain ⟨first, second, third, flat⟩ : ∃ first second third,
      index.clearProjections.store.flat = [(first, count + 7), (second, 4), (third, 4)] := by
    have lengths := headedSource_lengths count
    rw [parsed] at lengths
    obtain ⟨⟨first, _⟩, later, flat, rfl, lengths⟩ := List.map_eq_cons_iff.mp lengths
    obtain ⟨⟨second, _⟩, last, rfl, rfl, lengths'⟩ := List.map_eq_cons_iff.mp lengths
    obtain ⟨⟨third, _⟩, none, rfl, rfl, lengths''⟩ := List.map_eq_cons_iff.mp lengths'
    obtain rfl := List.map_eq_nil_iff.mp lengths''
    exact ⟨first, second, third, flat⟩
  have run : index.clearProjections.editedRun (RopeBuffer.editDelta 0 ⟨count, count + 2⟩ [])
      = some (0, 0, count + 5) := by
    have owner {offset : Nat} (inside : offset < count + 7)
        : index.clearProjections.store.ordinalAt offset = some 0 := by
      rw [consistent.ordinalAt, flat, if_neg (List.cons_ne_nil _ _)]
      simp [indexAt, inside]
    have covered : index.clearProjections.coveredBytes = count + 15 := by
      change index.clearProjections.store.totalBytes = _
      rw [consistent.totalBytes, flat]
      rfl
    have span : index.clearProjections.span 0 = ⟨0, count + 7⟩ := by
      rw [span_eq consistent (by simp [flat]), flat]
      simp [totalLength]
    unfold editedRun RopeBuffer.editDelta
    dsimp only
    rw [covered, owner (by omega), owner (by omega), if_neg (by omega)]
    simp only [Option.bind_eq_bind, Option.bind_some, SourceRange.lenBytes, span]
    have sum : checkedAddSigned (count + 7 - 0) ((utf8Len [] : Int) - (count + 2 - count : Nat))
        = some (count + 5) := by
      apply RopeBuffer.checkedAddSigned_eq
      rw [utf8Len_nil]
      omega
    rw [sum]
    rfl
  obtain ⟨entry, size, _, mergedConsistent, merged⟩ :=
    mergeRun_flat consistent (Nat.le_refl 0) (by simp [flat]) (count + 5) next.revision
  have ran : index.clearProjections.absorbEdits next.revision
        [RopeBuffer.editDelta 0 ⟨count, count + 2⟩ []] none
      = (index.clearProjections.mergeRun 0 0 (count + 5) next.revision, some (0, 0)) := by
    rw [absorbEdits, run]
    rfl
  generalize index.clearProjections.mergeRun 0 0 (count + 5) next.revision = absorbed
    at mergedConsistent merged ran
  rw [flat] at merged
  have len : absorbed.len = 3 := by
    change absorbed.store.len = _
    rw [mergedConsistent.len, merged]
    rfl
  have window : absorbed.windowRange 0 1 = ⟨0, count + 9⟩ := by
    unfold windowRange
    rw [span_eq mergedConsistent (by simp [merged, collapse]),
      span_eq mergedConsistent (by simp [merged, collapse]), merged]
    simp [collapse, totalLength]
  have read : next.text ⟨0, count + 9⟩
      = .ok (List.replicate count '\n' ++ ['[', 'a', ']', ':', '\n', '/', 'b', '\n', '\n']) := by
    have split : next.rope
        = [] ++ ((List.replicate count '\n'
            ++ ['[', 'a', ']', ':', '\n', '/', 'b', '\n', '\n']) ++ ['#', ' ', 'c', '\n']) := by
      rw [rope]
      unfold definedSource
      simp
    have read := RopeBuffer.text_append split
    rw [utf8Len_append, utf8Len_replicate, utf8Len_nil, Nat.zero_add] at read
    exact read
  have blank : parsedBlocks lineParser next.revision ⟨0, count + 9⟩
        (List.replicate count '\n' ++ ['[', 'a', ']', ':', '\n', '/', 'b', '\n', '\n'])
      = [] := by
    rw [parsedBlocks_eq_nil_iff, lineParser, Parser.topLevel_plain, lineNodes_blank]
    rfl
  have stopped : absorbed.growsAt next 0 1 0 = false := by
    unfold growsAt canGrow
    dsimp only
    rw [window, read]
    simp only [SourceRange.lenBytes, Nat.sub_zero, Nat.zero_add]
    rw [decide_eq_false (show ¬ count + 9 < resyncByteBudget by omega)]
    simp
  have dropped : absorbed.DropsWindow next 0 1 := by
    refine {
      leading := rfl
      followed := ?_
      filled := ?_
      blank := ?_
    }
    · rw [len]
      decide
    · rw [window]
      exact Nat.zero_lt_succ _
    · rw [window]
      exact ⟨_, read, (parsedBlocks_eq_nil_iff _ _ _).mp blank⟩
  refine ⟨absorbed, 0, 0, 1, ⟨?_, ran, ?_⟩, dropped⟩
  · change index.clearProjections.store.flat ≠ []
    rw [flat]
    exact List.cons_ne_nil _ _
  · rw [len]
    exact ⟨Nat.le_refl _, fun earlier atLeast before => by omega, stopped⟩

/-- Deleting the marker of a heading below 262144 blank lines loses every byte up to the next
heading.
-/
theorem tilesBuffer_lost
    : ¬ ∀ parser : Parser,
        parser.Ordered
          → ∀ chunks buffer,
            RopeBuffer.Edits (.fromRope chunks) buffer
              → ∀ final : RopeBuffer × BlockIndex parser,
                Rounds (buffer, fromBuffer parser buffer) final
                  → final.2.TilesBuffer final.1 := by
  intro claim
  obtain ⟨count, many⟩ : ∃ count, resyncByteBudget ≤ count := ⟨resyncByteBudget, Nat.le_refl _⟩
  obtain ⟨next, edits, rope, revision, since⟩ := headedSource_edit count
  have start : Tracks (.fromText (headedSource count), fromBuffer lineParser _) :=
    Tracks.fromBuffer lineParser_ordered [headedSource count] .refl
  obtain ⟨full, logged⟩ := start.logged
  obtain ⟨_, rewrites⟩ := logged.rewrites_since start.positive edits since
  have covered : (fromBuffer lineParser
        (.fromText (headedSource count))).store.flat ≠ []
      → totalLength (fromBuffer lineParser
          (.fromText (headedSource count))).store.flat
        = utf8Len (RopeBuffer.fromText (headedSource count)).rope := by
    intro filled
    rcases start.covers with ⟨gone, _⟩ | ⟨_, total⟩
    · exact absurd gone filled
    · exact total
  obtain ⟨consistent, covers⟩ := update_covers_iff lineParser_ordered start.consistent covered
    (List.cons_ne_nil _ _) rewrites
  have tiles := claim lineParser lineParser_ordered [headedSource count] _ .refl _
    (.single (.mk edits since))
  exact covers.mp ((tilesBuffer_iff consistent _).mp tiles)
    (headedSource_drops many rope)

end BlockIndex

end Hane.Markdown
