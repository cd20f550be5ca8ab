import Hane.Markdown.StableBlocks

/-! Blocks over whole runs of edits and updates: their ids are distinct and not given out twice,
and the blocks outside a reported region stay as they are.
-/

namespace Hane.Markdown

open Hane.Document Hane.Foundations

/-- An item of a numbered list, by induction on the list. -/
theorem numbered_getElem? {T : Type} (next start : Nat) (items : List (T × Nat)) (ordinal : Nat)
    : (BlockStore.numbered next start items)[ordinal]?
      = items[ordinal]?.map fun item =>
          (next + ordinal, item.1, start + totalLength (items.take ordinal), item.2) := by
  induction items generalizing next start ordinal with
  | nil => rfl
  | cons item rest ih =>
      cases ordinal with
      | zero => rfl
      | succ ordinal =>
          rw [BlockStore.numbered, List.getElem?_cons_succ, ih, List.getElem?_cons_succ]
          simp only [List.take_succ_cons, totalLength, weight_cons, Nat.add_assoc,
            Nat.add_comm 1 ordinal]

namespace BlockIndex

variable {parser : Parser}

theorem blocks_getElem? {index : BlockIndex parser} (consistent : index.store.Consistent)
    (ordinal : Nat)
    : index.blocks[ordinal]?
      = index.store.flat[ordinal]?.map fun item =>
          index.indexed ordinal item.1
            ⟨totalLength (index.store.flat.take ordinal),
              totalLength (index.store.flat.take ordinal) + item.2⟩ := by
  rw [blocks_eq consistent, List.getElem?_map, numbered_getElem?, Option.map_map]
  simp only [Nat.zero_add]
  rfl

theorem blocks_keys {index : BlockIndex parser} (consistent : index.store.Consistent)
    : index.blocks.map (fun block => (block.id, block.kind)) = index.store.flat.map keyOf := by
  apply List.ext_getElem?
  intro ordinal
  rw [List.getElem?_map, blocks_getElem? consistent, List.getElem?_map, Option.map_map]
  rfl

-- Blocks outside the reported region

/-- A block an update did not replace: it has its id, kind and revision stamp, and its start
moved by the byte changes of the edits in front of it.
-/
structure Stays (deltas : List RevisionDelta) (block later : IndexedBlock) : Prop where
  id : later.id = block.id
  kind : later.kind = block.kind
  revision : later.revision = block.revision
  moved : RopeBuffer.Moves deltas block.sourceRange later.sourceRange.start

/-- What an update leaves of the blocks outside the region it reports as replaced, which ends
before the old ordinal `stop`. Only the last block above may grow, by the bytes of a window
that parsed to no block.
-/
structure LeavesOutside (before after : BlockIndex parser) (report : BlockIndexUpdate)
    (deltas : List RevisionDelta) (stop : Nat) : Prop where
  region : report.firstReplacedBlock + report.replacedBlocks ≤ stop
  count :
    before.blocks.length + (report.firstReplacedBlock + report.insertedBlocks)
      = after.blocks.length + stop
  above :
    ∀ ordinal block, ordinal < report.firstReplacedBlock → before.blocks[ordinal]? = some block
      → ∃ later,
        after.blocks[ordinal]? = some later
        ∧ Stays deltas block later
        ∧ block.sourceRange.lenBytes ≤ later.sourceRange.lenBytes
        ∧ (later.sourceRange.lenBytes = block.sourceRange.lenBytes
          ∨ ordinal + 1 = report.firstReplacedBlock ∧ report.insertedBlocks = 0)
  below :
    ∀ ordinal block, stop ≤ ordinal → before.blocks[ordinal]? = some block
      → ∃ later,
        after.blocks[ordinal - stop + (report.firstReplacedBlock + report.insertedBlocks)]?
          = some later
        ∧ Stays deltas block later
        ∧ later.sourceRange.lenBytes = block.sourceRange.lenBytes

section Outside

variable {before after : BlockIndex parser} (consistent : before.store.Consistent)
  (consistent' : after.store.Consistent) {front back : Nat} {deltas : List RevisionDelta}
  (within : RopeBuffer.EditsWithin front back (totalLength before.store.flat) deltas)

include consistent consistent' within

theorem stays_above {shared rest rest' : List (Entry × Nat)} {entry entry' : Entry}
    {length length' : Nat} (split : before.store.flat = shared ++ (entry, length) :: rest)
    (split' : after.store.flat = shared ++ (entry', length') :: rest')
    (same : keyOf (entry', length') = keyOf (entry, length))
    (revision : entry'.revision = entry.revision)
    (above : totalLength shared + length ≤ front)
    : ∃ block later,
        before.blocks[shared.length]? = some block
        ∧ after.blocks[shared.length]? = some later
        ∧ Stays deltas block later
        ∧ block.sourceRange.lenBytes = length
        ∧ later.sourceRange.lenBytes = length' := by
  obtain ⟨id, kind⟩ := Prod.mk.inj same
  have here := blocks_getElem? consistent shared.length
  have here' := blocks_getElem? consistent' shared.length
  rw [split, List.getElem?_append_right (Nat.le_refl _), Nat.sub_self, List.take_left] at here
  rw [split', List.getElem?_append_right (Nat.le_refl _), Nat.sub_self, List.take_left] at here'
  refine ⟨_, _, here, here', ⟨id, kind, revision, within.moves_front above⟩, ?_, ?_⟩
  · exact Nat.add_sub_cancel_left _ _
  · exact Nat.add_sub_cancel_left _ _

theorem stays_below
    (sum :
      (totalLength after.store.flat : Int)
        = totalLength before.store.flat + (deltas.map (·.byteDelta)).sum)
    (shrinks : ∀ delta ∈ deltas, 0 ≤ delta.editedSourceRangeBefore.stop + delta.byteDelta)
    {above above' shared rest : List (Entry × Nat)} {item : Entry × Nat}
    (split : before.store.flat = above ++ shared ++ item :: rest)
    (split' : after.store.flat = above' ++ shared ++ item :: rest)
    (below : totalLength (item :: rest) ≤ back)
    : ∃ block later,
        before.blocks[(above ++ shared).length]? = some block
        ∧ after.blocks[(above' ++ shared).length]? = some later
        ∧ Stays deltas block later
        ∧ later.sourceRange.lenBytes = block.sourceRange.lenBytes := by
  have here := blocks_getElem? consistent (above ++ shared).length
  have here' := blocks_getElem? consistent' (above' ++ shared).length
  rw [split, List.getElem?_append_right (Nat.le_refl _), Nat.sub_self, List.take_left] at here
  rw [split', List.getElem?_append_right (Nat.le_refl _), Nat.sub_self, List.take_left] at here'
  have place : totalLength (above ++ shared) + totalLength (item :: rest)
      = totalLength before.store.flat := by
    rw [split]
    exact (totalLength_append _ _).symm
  obtain ⟨start, place', moves⟩ := within.moves_back sum shrinks item.2 place below
  have same : start = totalLength (above' ++ shared) := by
    rw [split', totalLength_append] at place'
    omega
  rw [same] at moves
  refine ⟨_, _, here, here', ⟨rfl, rfl, rfl, moves⟩, ?_⟩
  simp only [indexed, SourceRange.lenBytes, Nat.add_sub_cancel_left]

end Outside

theorem exists_cons_at {α : Type} {items : List α} {place : Nat} (inside : place < items.length)
    : ∃ shared item rest, items = shared ++ item :: rest ∧ shared.length = place := by
  refine ⟨items.take place, items[place], items.drop (place + 1), ?_, ?_⟩
  · rw [List.cons_getElem_drop_succ, List.take_append_drop]
  · rw [List.length_take]
    omega

/-- The blocks outside a spliced region stay, by the place they have in the flat list. -/
theorem SplicedBy.leavesOutside {before after : BlockIndex parser}
    (consistent : before.store.Consistent) (consistent' : after.store.Consistent)
    {deltas : List RevisionDelta} {report : BlockIndexUpdate}
    {above replaced below : List (Entry × Nat)}
    (spliced :
      SplicedBy before.store.flat after.store.flat deltas report above replaced below)
    (sum :
      after.store.flat ≠ []
        → (totalLength after.store.flat : Int)
          = totalLength before.store.flat + (deltas.map (·.byteDelta)).sum)
    (shrinks : ∀ delta ∈ deltas, 0 ≤ delta.editedSourceRangeBefore.stop + delta.byteDelta)
    : LeavesOutside before after report deltas (above.length + replaced.length) := by
  obtain ⟨split, first, replaces, outcome, within⟩ := spliced
  have blocksLength : before.blocks.length = before.store.flat.length := by
    simpa using congrArg List.length (blocks_keys consistent)
  have blocksLength' : after.blocks.length = after.store.flat.length := by
    simpa using congrArg List.length (blocks_keys consistent')
  -- In both cases as many entries precede the ones below.
  obtain ⟨above', new, size⟩ : ∃ above', after.store.flat = above' ++ below
      ∧ above'.length = report.firstReplacedBlock + report.insertedBlocks := by
    rcases outcome with ⟨items, count, _, new⟩
      | ⟨none, front, entry, length, lines, bytes, above_eq, new⟩
    · exact ⟨above ++ items, new, by rw [List.length_append, first, count]⟩
    · refine ⟨front ++ [({ entry with lines := entry.lines + lines }, length + bytes)], ?_, ?_⟩
      · rw [new, List.append_assoc, List.singleton_append]
      · rw [← first, above_eq, none]
        simp
  refine {
    region := by omega
    count := ?_
    above := ?_
    below := ?_
  }
  · rw [blocksLength, blocksLength', split, new, ← size]
    simp only [List.length_append]
    omega
  · intro ordinal block inside found
    rw [← first] at inside
    rcases outcome with ⟨items, _, _, same⟩ | ⟨none, front, entry, length, lines, bytes, above_eq, grown⟩
    · obtain ⟨shared, ⟨entry, length⟩, rest, rfl, rfl⟩ := exists_cons_at inside
      have old : before.store.flat = shared ++ (entry, length) :: (rest ++ replaced ++ below) := by
        rw [split]
        simp only [List.append_assoc, List.cons_append]
      have now : after.store.flat = shared ++ (entry, length) :: (rest ++ items ++ below) := by
        rw [same]
        simp only [List.append_assoc, List.cons_append]
      obtain ⟨known, later, here, here', stays, size, size'⟩ :=
        stays_above consistent consistent' within old now rfl rfl (by
          simp only [totalLength, weight_append, weight_cons]
          omega)
      obtain rfl := Option.some.inj (here.symm.trans found)
      exact ⟨later, here', stays, by omega, .inl (by omega)⟩
    · subst above_eq
      rw [List.length_append, List.length_singleton] at inside first
      rcases Nat.lt_or_ge ordinal front.length with before_last | last
      · obtain ⟨shared, ⟨entry', length'⟩, rest, rfl, rfl⟩ := exists_cons_at before_last
        have old : before.store.flat
            = shared ++ (entry', length')
              :: (rest ++ [(entry, length)] ++ replaced ++ below) := by
          rw [split]
          simp only [List.append_assoc, List.cons_append]
        have now : after.store.flat
            = shared ++ (entry', length')
              :: (rest
                ++ ({ entry with lines := entry.lines + lines }, length + bytes) :: below) := by
          rw [grown]
          simp only [List.append_assoc, List.cons_append]
        obtain ⟨known, later, here, here', stays, size, size'⟩ :=
          stays_above consistent consistent' within old now rfl rfl (by
            simp only [totalLength, weight_append, weight_cons]
            omega)
        obtain rfl := Option.some.inj (here.symm.trans found)
        exact ⟨later, here', stays, by omega, .inl (by omega)⟩
      · obtain rfl : ordinal = front.length := by omega
        have old : before.store.flat = front ++ (entry, length) :: (replaced ++ below) := by
          rw [split]
          simp only [List.append_assoc, List.cons_append, List.nil_append]
        obtain ⟨known, later, here, here', stays, size, size'⟩ :=
          stays_above consistent consistent' within old grown rfl rfl (by
            simp only [totalLength, weight_append, weight_cons, weight_nil]
            omega)
        obtain rfl := Option.some.inj (here.symm.trans found)
        exact ⟨later, here', stays, by omega, .inr ⟨first, none⟩⟩
  · intro ordinal block past found
    have bound := (List.getElem?_eq_some_iff.mp found).1
    rw [blocksLength, split, List.length_append, List.length_append] at bound
    obtain ⟨shared, item, rest, below_eq, place⟩ :=
      exists_cons_at (show ordinal - (above.length + replaced.length) < below.length by omega)
    have old : before.store.flat = (above ++ replaced) ++ shared ++ item :: rest := by
      rw [split, below_eq]
      simp only [List.append_assoc]
    have now : after.store.flat = above' ++ shared ++ item :: rest := by
      rw [new, below_eq, List.append_assoc]
    obtain ⟨known, later, here, here', stays, size'⟩ :=
      stays_below consistent consistent' within (sum (by simp [now])) shrinks old now (by
        rw [below_eq, totalLength_append]
        omega)
    have ordinal_eq : (above ++ replaced ++ shared).length = ordinal := by
      simp only [List.length_append]
      omega
    rw [ordinal_eq] at here
    rw [List.length_append, size, place, Nat.add_comm] at here'
    obtain rfl := Option.some.inj (here.symm.trans found)
    exact ⟨later, here', stays, size'⟩

-- Runs

/-- The index is consistent, at the revision of its buffer, and every block has its own id. -/
structure Identified (now : RopeBuffer × BlockIndex parser) : Prop where
  logged : ∃ full, RopeBuffer.Logged full now.1
  positive : 0 < now.1.deltaCapacity
  current : now.2.revision = now.1.revision
  consistent : now.2.store.Consistent
  has : now.2.HasIds

theorem Identified.fromBuffer (chunks : List Text) {buffer : RopeBuffer}
    (edits : RopeBuffer.Edits (.fromRope chunks) buffer)
    : Identified (buffer, fromBuffer parser buffer) where
  logged := (RopeBuffer.Logged.fromRope chunks).edits edits
  positive := by
    rw [edits.deltaCapacity]
    exact Nat.zero_lt_succ _
  current := rfl
  consistent := .new _
  has := hasIds_build parser buffer.revision buffer.fullText

theorem Identified.round {buffer next : RopeBuffer} {index : BlockIndex parser}
    {deltas : List RevisionDelta} (identified : Identified (buffer, index))
    (edits : RopeBuffer.Edits buffer next) (since : next.deltasSince index.revision = .ok deltas)
    : Identified (next, (index.update next deltas).2)
      ∧ (¬ index.Rebuilds next deltas → index.KeepsIds (index.update next deltas).2) := by
  obtain ⟨full, logged⟩ := identified.logged
  have current : index.revision = buffer.revision := identified.current
  rw [current] at since
  obtain ⟨loggedNext, rewrites⟩ := logged.rewrites_since identified.positive edits since
  obtain ⟨consistent, has, keeps⟩ :=
    update_ids identified.consistent identified.has next rewrites.lengths.1
  have positive : 0 < next.deltaCapacity := by
    rw [edits.deltaCapacity]
    exact identified.positive
  exact ⟨⟨⟨_, loggedNext⟩, positive, update_revision _ _ _, consistent, has⟩, keeps⟩

theorem Identified.rounds {now later : RopeBuffer × BlockIndex parser}
    (identified : Identified now) (rounds : Rounds now later)
    : Identified later := by
  induction rounds with
  | refl => exact identified
  | tail _ round ih =>
      obtain ⟨edits, since⟩ := round
      exact (ih.round edits since).1

/-- A round whose update does not fall back to a full parse. -/
def IncrementalRound (now next : RopeBuffer × BlockIndex parser) : Prop :=
  Round now next
  ∧ ∀ deltas,
    next.1.deltasSince now.2.revision = .ok deltas → ¬ now.2.Rebuilds next.1 deltas

/-- Rounds without a full parse keep the ids given out, by induction on them. -/
theorem Identified.incremental {now later : RopeBuffer × BlockIndex parser}
    (identified : Identified now) (rounds : Relation.ReflTransGen IncrementalRound now later)
    : Identified later ∧ now.2.KeepsIds later.2 := by
  induction rounds with
  | refl => exact ⟨identified, .of_sublist (.refl _)⟩
  | tail _ round ih =>
      obtain ⟨⟨edits, since⟩, incremental⟩ := round
      obtain ⟨next, keeps⟩ := ih.1.round edits since
      exact ⟨next, ih.2.trans (keeps (incremental _ since))⟩

/-- The index tracks its buffer and its blocks cut the text between characters. -/
structure Aligns (now : RopeBuffer × BlockIndex parser) : Prop where
  tracks : Tracks now
  cuts : now.2.Cuts now.1.rope

theorem cuts_fromBuffer (ordered : parser.Ordered) (aligned : parser.Aligned)
    (buffer : RopeBuffer)
    : (fromBuffer parser buffer).Cuts buffer.rope := by
  intro filled
  have flat : (fromBuffer parser buffer).store.flat
      = builtEntries buffer.revision
          (parsedBlocks parser buffer.revision ⟨0, utf8Len buffer.fullText⟩
            buffer.fullText) :=
    BlockStore.flat_new _
  rw [flat] at filled ⊢
  have tiled := builtEntries_tiled buffer.revision
    (parsedBlocks parser buffer.revision ⟨0, utf8Len buffer.fullText⟩ buffer.fullText)
  have lengths := congrArg (List.map (·.length)) tiled
  rw [List.map_map] at lengths
  have fits : (⟨0, utf8Len buffer.fullText⟩ : SourceRange).start + utf8Len buffer.fullText
      = utf8Len buffer.fullText := Nat.zero_add _
  have slices := parsedBlocks_slices ordered aligned buffer.revision fits (by
    intro none
    rw [none] at filled
    exact filled rfl)
  rw [← lengths] at slices
  exact slices

/-- A kept round keeps the blocks cutting the text, and leaves the blocks outside the region
its update reports.
-/
theorem Aligns.round (ordered : parser.Ordered) (aligned : parser.Aligned)
    {buffer next : RopeBuffer} {index : BlockIndex parser} {deltas : List RevisionDelta}
    (aligns : Aligns (buffer, index)) (edits : RopeBuffer.Edits buffer next)
    (since : next.deltasSince index.revision = .ok deltas)
    (kept : ¬ index.DropsBytes next deltas)
    : Aligns (next, (index.update next deltas).2)
      ∧ ∃ stop,
        LeavesOutside index (index.update next deltas).2 (index.update next deltas).1 deltas
          stop := by
  obtain ⟨tracks, cuts⟩ := aligns
  have round : KeptRound (buffer, index) (next, (index.update next deltas).2) := by
    refine ⟨.mk edits since, ?_⟩
    intro others since'
    obtain rfl := Except.ok.inj (since.symm.trans since')
    exact kept
  have tracksNext := tracks.round ordered round
  obtain ⟨full, logged⟩ := tracks.logged
  have current : index.revision = buffer.revision := tracks.current
  rw [current] at since
  obtain ⟨_, rewrites⟩ := logged.rewrites_since tracks.positive edits since
  have blocksLength : index.blocks.length = index.store.flat.length := by
    simpa using congrArg List.length (blocks_keys tracks.consistent)
  by_cases none : deltas = []
  · subst none
    have rope : buffer.rope = next.rope := rewrites
    refine ⟨⟨tracksNext, ?_⟩, 0, ?_⟩
    · change index.Cuts next.rope
      rw [← rope]
      exact cuts
    · refine {
        region := Nat.le_refl 0
        count := rfl
        above := fun _ _ inside => absurd inside (Nat.not_lt_zero _)
        below := ?_
      }
      intro ordinal block _ found
      exact ⟨block, found, ⟨rfl, rfl, rfl, rfl⟩, rfl⟩
  · by_cases empty : index.store.flat = []
    · rw [update_rebuilds tracks.consistent empty none] at tracksNext ⊢
      refine ⟨⟨tracksNext, cuts_fromBuffer ordered aligned next⟩, 0, ?_⟩
      have blank : index.blocks = [] :=
        List.eq_nil_of_length_eq_zero (by rw [blocksLength, empty]; rfl)
      refine {
        region := Nat.le_refl 0
        count := ?_
        above := ?_
        below := ?_
      }
      · have rebuilt := congrArg List.length (blocks_keys tracksNext.consistent)
        have len := tracksNext.consistent.len
        rw [List.length_map, List.length_map] at rebuilt
        change index.blocks.length + (0 + (rebuild parser next 0).2.store.len)
          = (rebuild parser next 0).2.blocks.length + 0
        rw [blank, rebuilt, len]
        simp
      · intro ordinal block _ found
        rw [blank] at found
        cases found
      · intro ordinal block _ found
        rw [blank] at found
        cases found
    · obtain ⟨cutsNext, above, replaced, below, spliced⟩ :=
        update_spliced ordered aligned tracks.consistent empty cuts none rewrites kept
      refine ⟨⟨tracksNext, cutsNext⟩, above.length + replaced.length, ?_⟩
      apply spliced.leavesOutside tracks.consistent tracksNext.consistent
      · intro filled
        have before : totalLength index.store.flat = utf8Len buffer.rope := (cuts empty).sum
        have after : totalLength (index.update next deltas).2.store.flat = utf8Len next.rope :=
          (cutsNext filled).sum
        rw [before, after]
        exact rewrites.lengths.2
      · exact rewrites.shrinks

/-- Rounds that drop no bytes keep the blocks cutting the text, by induction on them. -/
theorem Aligns.rounds (ordered : parser.Ordered) (aligned : parser.Aligned)
    {now later : RopeBuffer × BlockIndex parser} (aligns : Aligns now)
    (rounds : Relation.ReflTransGen KeptRound now later)
    : Aligns later := by
  induction rounds with
  | refl => exact aligns
  | tail _ round ih =>
      obtain ⟨⟨edits, since⟩, kept⟩ := round
      exact (ih.round ordered aligned edits since (kept _ since)).1

/-- What holds of the blocks of an index over the rounds that follow a full parse. -/
structure KeepsBlocks (start : RopeBuffer × BlockIndex parser) : Prop where
  distinct : ∀ now, Rounds start now → now.2.ids.Nodup
  notReused :
    ∀ before now later, Rounds start before
      → Relation.ReflTransGen IncrementalRound before now
      → Relation.ReflTransGen IncrementalRound now later
      → ∀ id ∈ before.2.ids, id ∉ now.2.ids → id ∉ later.2.ids
  sameKind :
    ∀ before later, Rounds start before
      → Relation.ReflTransGen IncrementalRound before later
      → ∀ block ∈ before.2.blocks, ∀ block' ∈ later.2.blocks,
        block'.id = block.id → block'.kind = block.kind
  outside :
    ∀ now next deltas, Relation.ReflTransGen KeptRound start now
      → RopeBuffer.Edits now.1 next
      → next.deltasSince now.2.revision = .ok deltas
      → ¬ now.2.DropsBytes next deltas
      → ∃ stop,
        LeavesOutside now.2 (now.2.update next deltas).2 (now.2.update next deltas).1 deltas stop

theorem ids_eq {index : BlockIndex parser} (consistent : index.store.Consistent)
    : index.ids = (index.store.flat.map keyOf).map Prod.fst := by
  rw [← blocks_keys consistent, List.map_map]
  rfl

/-- Over any rounds the ids of the blocks are distinct, an id that is gone stays gone and an id
keeps its kind until a full parse numbers the blocks anew, and every update that drops no
bytes leaves the blocks outside the region it reports.
-/
theorem keepsBlocks_fromBuffer (ordered : parser.Ordered) (aligned : parser.Aligned)
    {chunks : List Text} {buffer : RopeBuffer}
    (edits : RopeBuffer.Edits (.fromRope chunks) buffer)
    : KeepsBlocks (buffer, fromBuffer parser buffer) := by
  have start : Identified (buffer, fromBuffer parser buffer) := .fromBuffer chunks edits
  refine {
    distinct := ?_
    notReused := ?_
    sameKind := ?_
    outside := ?_
  }
  · intro now rounds
    have identified := start.rounds rounds
    rw [ids_eq identified.consistent]
    exact identified.has.distinct
  · intro before now later rounds first last id used gone
    have identified := start.rounds rounds
    obtain ⟨identifiedNow, keeps⟩ := identified.incremental first
    obtain ⟨identifiedLater, keepsLater⟩ := identifiedNow.incremental last
    rw [ids_eq identified.consistent] at used
    rw [ids_eq identifiedNow.consistent] at gone
    rw [ids_eq identifiedLater.consistent]
    obtain ⟨key, member, rfl⟩ := List.mem_map.mp used
    have known := identified.has.below key member
    exact keepsLater.stays_gone (Nat.lt_of_lt_of_le known keeps.grows) gone
  · intro before later rounds incremental block member block' member' same
    have identified := start.rounds rounds
    obtain ⟨identifiedLater, keeps⟩ := identified.incremental incremental
    have key : (block.id, block.kind) ∈ before.2.store.flat.map keyOf := by
      rw [← blocks_keys identified.consistent]
      exact List.mem_map.mpr ⟨block, member, rfl⟩
    have key' : (block.id, block'.kind) ∈ later.2.store.flat.map keyOf := by
      rw [← blocks_keys identifiedLater.consistent, ← same]
      exact List.mem_map.mpr ⟨block', member', rfl⟩
    have known : block.id < before.2.nextId := identified.has.below _ key
    exact identified.has.unique (keeps.kept _ key' known) key
  · intro now next deltas rounds edited since kept
    have aligns : Aligns (buffer, fromBuffer parser buffer) :=
      ⟨.fromBuffer ordered chunks edits, cuts_fromBuffer ordered aligned buffer⟩
    exact ((aligns.rounds ordered aligned rounds).round ordered aligned edited since kept).2

-- A block that becomes a link reference definition

/-- A paragraph, a paragraph in brackets and a heading. -/
def bracketedText : Text := ['q', '\n', '\n', '[', 'a', ']', ':', '\n', '#', ' ', '/', 'b', '\n']

/-- A parser that finds these three blocks, and none in a link reference definition. -/
def definitionParser : Parser :=
  .plain fun text =>
    if text = bracketedText then [(.paragraph, 0), (.paragraph, 3), (.heading 1, 8)]
    else if text = ['[', 'a', ']', ':', '\n', '/', 'b', '\n'] then []
    else [(.paragraph, 0)]

/-- The nodes of that parser, with their offsets in order and between characters. -/
theorem definitionParser_nodes (revision : Nat) (range : SourceRange) (text : Text)
    : ((definitionParser.parseDocument revision range text).tree.topLevel.map
          Prod.snd).Pairwise (· ≤ ·)
      ∧ ∀ node ∈ (definitionParser.parseDocument revision range text).tree.topLevel,
        ∃ before after, text = before ++ after ∧ node.2 = range.start + utf8Len before := by
  rw [definitionParser, Parser.topLevel_plain, List.map_map]
  split
  · rename_i bracketed
    subst bracketed
    refine ⟨by simp, ?_⟩
    intro node member
    simp only [List.map_cons, List.map_nil, List.mem_cons, List.not_mem_nil, or_false] at member
    rcases member with rfl | rfl | rfl
    · exact ⟨[], bracketedText, rfl, rfl⟩
    · exact ⟨bracketedText.take 3, bracketedText.drop 3, rfl, rfl⟩
    · exact ⟨bracketedText.take 8, bracketedText.drop 8, rfl, rfl⟩
  · split
    · exact ⟨.nil, fun node member => absurd member List.not_mem_nil⟩
    · refine ⟨List.pairwise_singleton _ _, ?_⟩
      intro node member
      obtain rfl := List.mem_singleton.mp member
      exact ⟨[], text, rfl, rfl⟩

theorem definitionParser_ordered : definitionParser.Ordered := by
  intro revision range text fits
  obtain ⟨sorted, boundaries⟩ := definitionParser_nodes revision range text
  refine ⟨sorted, ?_⟩
  intro node member
  obtain ⟨before, after, rfl, place⟩ := boundaries node member
  rw [utf8Len_append] at fits
  omega

theorem definitionParser_aligned : definitionParser.Aligned :=
  fun revision range text _ => (definitionParser_nodes revision range text).2

/-- The heading's marker is deleted, so that the two blocks behind the paragraph become a link
reference definition, and typed again: the blocks that come back get new ids.
-/
theorem keepsBlocks_fromBuffer_definition
    : let opened : RopeBuffer := .fromRope [bracketedText]
      let defined : RopeBuffer :=
        { rope := ['q', '\n', '\n', '[', 'a', ']', ':', '\n', '/', 'b', '\n']
          lineMirror := ['q', '\n', '\n', '[', 'a', ']', ':', '\n', '/', 'b', '\n']
          revision := 1
          deltas := [⟨0, 1, ⟨8, 10⟩, ⟨8, 8⟩, -2⟩]
          deltaCapacity := 4096 }
      let retyped : RopeBuffer :=
        { rope := bracketedText
          lineMirror := bracketedText
          revision := 2
          deltas := [⟨0, 1, ⟨8, 10⟩, ⟨8, 8⟩, -2⟩, ⟨1, 2, ⟨8, 8⟩, ⟨8, 10⟩, 2⟩]
          deltaCapacity := 4096 }
      let parsed := fromBuffer definitionParser opened
      let (report, joined) := parsed.update defined [⟨0, 1, ⟨8, 10⟩, ⟨8, 8⟩, -2⟩]
      let (_, reparsed) := joined.update retyped [⟨1, 2, ⟨8, 8⟩, ⟨8, 10⟩, 2⟩]
      parsed.ids = [0, 1, 2]
      ∧ joined.ids = [0]
      ∧ reparsed.blocks.length = 3
      ∧ reparsed.ids.Nodup
      ∧ (∀ id ∈ [1, 2], id ∉ reparsed.ids)
      ∧ ∃ stop, LeavesOutside parsed joined report [⟨0, 1, ⟨8, 10⟩, ⟨8, 8⟩, -2⟩] stop := by
  intro opened defined retyped parsed
  have deleted : RopeBuffer.Edits opened defined :=
    .single ⟨⟨8, 10⟩, [], RopeBuffer.editSummary 0 ⟨8, 10⟩ [] ['#', ' '], by decide⟩
  have typed : RopeBuffer.Edits defined retyped :=
    .single ⟨⟨8, 8⟩, ['#', ' '], RopeBuffer.editSummary 1 ⟨8, 8⟩ ['#', ' '] [], by decide⟩
  let joined := (parsed.update defined [⟨0, 1, ⟨8, 10⟩, ⟨8, 8⟩, -2⟩]).2
  let reparsed := (joined.update retyped [⟨1, 2, ⟨8, 8⟩, ⟨8, 10⟩, 2⟩]).2
  have since : retyped.deltasSince joined.revision = .ok [⟨1, 2, ⟨8, 8⟩, ⟨8, 10⟩, 2⟩] := by
    rw [show joined.revision = 1 from update_revision _ _ _]
    rfl
  have first : IncrementalRound (opened, parsed) (defined, joined) := by
    refine ⟨.mk deleted rfl, fun deltas found => ?_⟩
    obtain rfl := Except.ok.inj (found.symm.trans rfl)
    rintro ⟨_, empty | failed⟩
    · revert empty
      decide +kernel
    · revert failed
      decide +kernel
  have last : IncrementalRound (defined, joined) (retyped, reparsed) := by
    refine ⟨.mk typed since, fun deltas found => ?_⟩
    obtain rfl := Except.ok.inj (found.symm.trans since)
    rintro ⟨_, empty | failed⟩
    · revert empty
      decide +kernel
    · revert failed
      decide +kernel
  have start : Tracks (opened, parsed) := .fromBuffer definitionParser_ordered _ .refl
  have kept : ¬ parsed.DropsBytes defined [⟨0, 1, ⟨8, 10⟩, ⟨8, 8⟩, -2⟩] :=
    start.keeps definitionParser_ordered deleted rfl nofun
      (.inr ⟨List.ne_nil_of_length_pos (by decide +kernel), by decide +kernel⟩)
  have before : parsed.ids = [0, 1, 2] := by decide +kernel
  have gone : joined.ids = [0] := by decide +kernel
  have keeps : KeepsBlocks (opened, parsed) :=
    keepsBlocks_fromBuffer definitionParser_ordered definitionParser_aligned .refl
  refine ⟨before, gone, by decide +kernel,
    keeps.distinct _ (.tail (.single first.1) last.1), fun id used => ?_,
    keeps.outside _ _ _ .refl deleted rfl kept⟩
  refine keeps.notReused (opened, parsed) (defined, joined) (retyped, reparsed) .refl
    (.single first) (.single last) id ?_ ?_
  · rw [before]
    exact List.mem_cons_of_mem 0 used
  · rw [gone]
    revert id
    decide

-- A document that becomes empty

/-- A parser that takes a text for one block: a heading or a paragraph. -/
def oneBlockParser : Parser :=
  .plain fun text =>
    match text with
    | [] => []
    | '#' :: _ => [(.heading 1, 0)]
    | _ => [(.paragraph, 0)]

theorem oneBlockParser_nodes (revision : Nat) (range : SourceRange) (text : Text)
    : ∀ node ∈ (oneBlockParser.parseDocument revision range text).tree.topLevel,
      node.2 = range.start := by
  intro node member
  rw [oneBlockParser, Parser.topLevel_plain] at member
  obtain ⟨found, here, rfl⟩ := List.mem_map.mp member
  split at here
  · exact absurd here List.not_mem_nil
  · obtain rfl := List.mem_singleton.mp here
    rfl
  · obtain rfl := List.mem_singleton.mp here
    rfl

theorem oneBlockParser_ordered : oneBlockParser.Ordered := by
  intro revision range text fits
  have nodes := oneBlockParser_nodes revision range text
  constructor
  · apply List.pairwise_of_forall_mem_list
    intro offset member offset' member'
    obtain ⟨node, here, rfl⟩ := List.mem_map.mp member
    obtain ⟨node', here', rfl⟩ := List.mem_map.mp member'
    rw [nodes node here, nodes node' here']
  · intro node member
    rw [nodes node member]
    omega

theorem oneBlockParser_aligned : oneBlockParser.Aligned := by
  intro revision range text fits node member
  exact ⟨[], text, rfl, oneBlockParser_nodes revision range text node member⟩

/-- A paragraph is deleted and a heading typed instead: the heading gets its id. -/
theorem ids_reused
    : ¬ ∀ parser : Parser, parser.Ordered → parser.Aligned
        → ∀ chunks buffer, RopeBuffer.Edits (.fromRope chunks) buffer
          → ∀ before now later, Rounds (buffer, fromBuffer parser buffer) before
            → Rounds before now
            → Rounds now later
            → ∀ id ∈ before.2.ids, id ∉ now.2.ids → id ∉ later.2.ids := by
  intro claim
  let opened : RopeBuffer := .fromRope [['a']]
  let emptied : RopeBuffer :=
    { rope := []
      lineMirror := []
      revision := 1
      deltas := [⟨0, 1, ⟨0, 1⟩, ⟨0, 0⟩, -1⟩]
      deltaCapacity := 4096 }
  let retyped : RopeBuffer :=
    { rope := ['#']
      lineMirror := ['#']
      revision := 2
      deltas := [⟨0, 1, ⟨0, 1⟩, ⟨0, 0⟩, -1⟩, ⟨1, 2, ⟨0, 0⟩, ⟨0, 1⟩, 1⟩]
      deltaCapacity := 4096 }
  let parsed := fromBuffer oneBlockParser opened
  let blank := (parsed.update emptied [⟨0, 1, ⟨0, 1⟩, ⟨0, 0⟩, -1⟩]).2
  let reparsed := (blank.update retyped [⟨1, 2, ⟨0, 0⟩, ⟨0, 1⟩, 1⟩]).2
  have deleted : opened.edit ⟨0, 1⟩ []
      = .ok (RopeBuffer.editSummary 0 ⟨0, 1⟩ [] ['a'], emptied) := by
    decide
  have typed : emptied.edit ⟨0, 0⟩ ['#']
      = .ok (RopeBuffer.editSummary 1 ⟨0, 0⟩ ['#'] [], retyped) := by
    decide
  have first : Round (opened, parsed) (emptied, blank) := .mk (.single ⟨_, _, _, deleted⟩) rfl
  have since : retyped.deltasSince blank.revision = .ok [⟨1, 2, ⟨0, 0⟩, ⟨0, 1⟩, 1⟩] := by
    rw [show blank.revision = 1 from update_revision _ _ _]
    rfl
  have last : Round (emptied, blank) (retyped, reparsed) := .mk (.single ⟨_, _, _, typed⟩) since
  have used : parsed.ids = [0] := by decide +kernel
  have gone : blank.ids = [] := by decide +kernel
  have again : reparsed.ids = [0] := by decide +kernel
  refine claim oneBlockParser oneBlockParser_ordered oneBlockParser_aligned [['a']] opened .refl
    _ _ _ .refl (.single first) (.single last) 0 ?_ ?_ ?_
  · rw [used]
    exact List.mem_singleton_self 0
  · rw [gone]
    exact List.not_mem_nil
  · rw [again]
    exact List.mem_singleton_self 0

-- A block above that grows

/-- The heading's marker is deleted, and the paragraph above the window takes in its bytes. -/
theorem above_grown
    : ¬ ∀ parser : Parser, parser.Ordered → parser.Aligned
        → ∀ chunks buffer, RopeBuffer.Edits (.fromRope chunks) buffer
          → ∀ next deltas, RopeBuffer.Edits buffer next
            → next.deltasSince (fromBuffer parser buffer).revision = .ok deltas
            → ∀ ordinal block later,
              ordinal < ((fromBuffer parser buffer).update next deltas).1.firstReplacedBlock
              → (fromBuffer parser buffer).blocks[ordinal]? = some block
              → ((fromBuffer parser buffer).update next deltas).2.blocks[ordinal]? = some later
              → later.sourceRange.lenBytes = block.sourceRange.lenBytes := by
  intro claim
  let opened : RopeBuffer := .fromRope [bracketedText]
  let edited : RopeBuffer :=
    { rope := ['q', '\n', '\n', '[', 'a', ']', ':', '\n', '/', 'b', '\n']
      lineMirror := ['q', '\n', '\n', '[', 'a', ']', ':', '\n', '/', 'b', '\n']
      revision := 1
      deltas := [⟨0, 1, ⟨8, 10⟩, ⟨8, 8⟩, -2⟩]
      deltaCapacity := 4096 }
  have deleted : opened.edit ⟨8, 10⟩ []
      = .ok (RopeBuffer.editSummary 0 ⟨8, 10⟩ [] ['#', ' '], edited) := by
    decide
  have grew : ∃ block later,
      0 < ((fromBuffer definitionParser opened).update edited
        [⟨0, 1, ⟨8, 10⟩, ⟨8, 8⟩, -2⟩]).1.firstReplacedBlock
      ∧ (fromBuffer definitionParser opened).blocks[0]? = some block
      ∧ ((fromBuffer definitionParser opened).update edited
          [⟨0, 1, ⟨8, 10⟩, ⟨8, 8⟩, -2⟩]).2.blocks[0]? = some later
      ∧ later.sourceRange.lenBytes ≠ block.sourceRange.lenBytes :=
    ⟨⟨0, 0, .paragraph, ⟨0, 3⟩, 0, .formal, 2, 0⟩, ⟨0, 0, .paragraph, ⟨0, 11⟩, 0, .formal, 4, 0⟩,
      by decide +kernel⟩
  obtain ⟨block, later, first, here, here', longer⟩ := grew
  exact longer (claim definitionParser definitionParser_ordered definitionParser_aligned
    [bracketedText] opened .refl edited _ (.single ⟨_, _, _, deleted⟩) rfl 0 block later first
    here here')

end BlockIndex

end Hane.Markdown
