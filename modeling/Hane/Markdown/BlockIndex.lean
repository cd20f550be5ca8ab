import Hane.Document.Buffer
import Hane.Foundations.Collapsing
import Hane.Markdown.BlockStore
import Hane.Markdown.Syntax

/-! Revision-tracked block boundaries: the full parse, and the update that re-parses only a
window around the edits.
-/

namespace Hane.Markdown

open Hane.Document Hane.Foundations

/-- One tiled block: its kind, byte length, physical line count, and the number of leading
blank lines in its tiled span.
-/
structure TiledBlock where
  kind : NodeKind
  length : Nat
  lines : Nat
  leadingContentLines : Nat
deriving DecidableEq

/-- The Markdown parser and the projections built from its parses. -/
structure Parser where
  Details : Type
  ListProjection : Type
  TableProjection : Type
  FenceHeightProjection : Type
  parseDocument : Nat → SourceRange → Text → MarkdownParse Details
  buildListProjections
    : MarkdownParse Details → List TiledBlock → SourceRange → Text
      → List (Option ListProjection)
  buildTableProjections
    : MarkdownParse Details → List TiledBlock → SourceRange → Text
      → Nat → Option TableProjection
  buildFenceHeightProjections
    : MarkdownParse Details → List TiledBlock → SourceRange → Text
      → List (Option FenceHeightProjection)

/-- A parser without projections that reports top-level nodes only. -/
def Parser.plain (nodes : Text → List (NodeKind × Nat)) : Parser where
  Details := Unit
  ListProjection := Unit
  TableProjection := Unit
  FenceHeightProjection := Unit
  parseDocument revision range text :=
    { revision
      sourceRange := range
      tree :=
        .ofTopLevel range ((nodes text).map fun (kind, offset) => (kind, range.start + offset))
      details := () }
  buildListProjections _ _ _ _ := []
  buildTableProjections _ _ _ _ _ := none
  buildFenceHeightProjections _ _ _ _ := []

@[simp] theorem Parser.topLevel_plain (nodes : Text → List (NodeKind × Nat)) (revision : Nat)
    (range : SourceRange) (text : Text)
    : ((Parser.plain nodes).parseDocument revision range text).tree.topLevel
      = (nodes text).map fun (kind, offset) => (kind, range.start + offset) :=
  MarkdownTree.topLevel_ofTopLevel _ _

/-- The block of a kind over the bytes from `start` up to `stop` of the document. -/
def tiledBlock (range : SourceRange) (source : Text) (kind : NodeKind) (start stop : Nat)
    : TiledBlock :=
  let slice := sliceBytes source (start - range.start) (stop - range.start)
  { kind
    length := stop - start
    lines := countLineEndings slice + if endsWithLineEnding slice then 0 else 1
    leadingContentLines := leadingBlankLines slice }

def tileFrom (range : SourceRange) (source : Text)
    : Nat → List (NodeKind × Nat) → List TiledBlock
  | _, [] => []
  | start, (kind, _) :: rest =>
      let next := (rest.head?.map Prod.snd).getD range.stop
      tiledBlock range source kind start (max next start) :: tileFrom range source next rest

/-- The top-level blocks of a parse, tiling its range. Leading bytes before the first block
belong to block 0.
-/
def tiledBlocks (tree : MarkdownTree) (range : SourceRange) (source : Text)
    : List TiledBlock :=
  tileFrom range source range.start tree.topLevel

inductive Confidence where
  | formal
  | provisional
deriving DecidableEq

structure Entry where
  id : Nat
  kind : NodeKind
  revision : Nat
  lines : Nat
  leadingContentLines : Nat
deriving DecidableEq

structure IndexedBlock where
  ordinal : Nat
  id : Nat
  kind : NodeKind
  sourceRange : SourceRange
  revision : Nat
  confidence : Confidence
  lineCount : Nat
  leadingContentLines : Nat
deriving DecidableEq

structure BlockIndexUpdate where
  revision : Nat
  reparsedBytes : Nat
  firstReplacedBlock : Nat
  replacedBlocks : Nat
  insertedBlocks : Nat
  invalidatedBlocks : Nat
  resynchronized : Bool
deriving DecidableEq

/-- Bytes a single update may re-parse while hunting for a re-synchronization boundary. -/
def resyncByteBudget : Nat := 256 * 1024

/-- Blocks a single update may pull into the re-parse window. -/
def resyncBlockBudget : Nat := 512

structure BlockIndex (parser : Parser) where
  revision : Nat
  store : BlockStore Entry
  nextId : Nat
  listProjections : List (Option parser.ListProjection)
  fenceHeightProjections : Nat → Option parser.FenceHeightProjection
  tableProjections : Nat → Option parser.TableProjection
  provisionalFrom : Option Nat

namespace BlockIndex

variable {parser : Parser}

/-- The entries a full parse numbers from zero on. -/
def builtEntries (revision : Nat) (blocks : List TiledBlock) : List (Entry × Nat) :=
  blocks.mapIdx fun index block =>
    ({ id := index
       kind := block.kind
       revision
       lines := block.lines
       leadingContentLines := block.leadingContentLines },
      block.length)

/-- Full parse. -/
def build (parser : Parser) (revision : Nat) (source : Text) : BlockIndex parser :=
  let range : SourceRange := ⟨0, utf8Len source⟩
  let parsed := parser.parseDocument revision range source
  let blocks := tiledBlocks parsed.tree range source
  let fenceHeightByOrdinal := parser.buildFenceHeightProjections parsed blocks range source
  { revision
    store := .new (builtEntries revision blocks)
    nextId := blocks.length
    listProjections := parser.buildListProjections parsed blocks range source
    fenceHeightProjections := fun id => fenceHeightByOrdinal[id]?.join
    tableProjections := parser.buildTableProjections parsed blocks range source
    provisionalFrom := none }

def fromBuffer (parser : Parser) (buffer : RopeBuffer) : BlockIndex parser :=
  build parser buffer.revision buffer.fullText

def len (index : BlockIndex parser) : Nat := index.store.len

def isEmpty (index : BlockIndex parser) : Bool := index.store.isEmpty

def coveredBytes (index : BlockIndex parser) : Nat := index.store.totalBytes

def confidence (index : BlockIndex parser) (ordinal : Nat) : Confidence :=
  match index.provisionalFrom with
  | some first => if ordinal ≥ first then .provisional else .formal
  | none => .formal

def span (index : BlockIndex parser) (ordinal : Nat) : SourceRange :=
  let start := index.store.start ordinal
  ⟨start, start + index.store.length ordinal⟩

def indexed (index : BlockIndex parser) (ordinal : Nat) (entry : Entry)
    (sourceRange : SourceRange) : IndexedBlock where
  ordinal
  id := entry.id
  kind := entry.kind
  sourceRange
  revision := entry.revision
  confidence := index.confidence ordinal
  lineCount := entry.lines
  leadingContentLines := entry.leadingContentLines

def blocksFrom (index : BlockIndex parser) (ordinal : Nat) : List IndexedBlock :=
  (BlockStore.Blocks.take index.store index.len (index.store.iterFrom ordinal)).map
    fun (ordinal, entry, start, length) => index.indexed ordinal entry ⟨start, start + length⟩

/-- Every block in document order. -/
def blocks (index : BlockIndex parser) : List IndexedBlock := index.blocksFrom 0

-- Absorbing edits

/-- Collapses the blocks `first` up to and including `last` into one entry of `length`
bytes. The common case, an edit inside a single block, touches one length only.
-/
def mergeRun (index : BlockIndex parser) (first last length revision : Nat)
    : BlockIndex parser :=
  match index.store.get first with
  | none => index
  | some (entry, _) =>
      if first = last then
        let entry := { entry with revision }
        { index with store := (index.store.setPayload first entry).setLength first length }
      else
        let run := (List.range' first (last + 1 - first)).filterMap index.store.get
        let removed := (run.drop 1).map fun item => item.1.id
        let entry := { entry with revision, lines := (run.map fun item => item.1.lines).sum }
        { index with
          fenceHeightProjections :=
            fun id => if id ∈ removed then none else index.fenceHeightProjections id
          store := (index.store.setPayload first entry).splice first (last + 1) [(entry, length)]
          provisionalFrom :=
            index.provisionalFrom.map fun tail =>
              if tail ≤ first then tail
              else if tail ≤ last then first
              else tail - (last - first) }

/-- The run of blocks an edit touches and its length after the edit; none when the edit falls
outside the indexed bytes.
-/
def editedRun (index : BlockIndex parser) (delta : RevisionDelta) : Option (Nat × Nat × Nat) :=
  let edit := delta.editedSourceRangeBefore
  if edit.stop > index.coveredBytes then
    none
  else do
    let first ← index.store.ordinalAt edit.start
    let last ← index.store.ordinalAt edit.stop
    let start := (index.span first).start
    let stop := (index.span last).stop
    let combined ← checkedAddSigned (stop - start) delta.byteDelta
    return (first, last, combined)

/-- The dirty ordinals once one more run collapsed. -/
def widenDirty (first last : Nat) : Option (Nat × Nat) → Nat × Nat
  | none => (first, first)
  | some (low, high) =>
      (min (remapped first last low) first, max (remapped first last high) first)

/-- Applies each edit's byte delta to the blocks it touches; the result is the ordinal range
that needs re-parsing, or none when the index no longer describes the document.
-/
def absorbEdits (index : BlockIndex parser) (revision : Nat)
    : List RevisionDelta → Option (Nat × Nat) → BlockIndex parser × Option (Nat × Nat)
  | [], dirty => (index, dirty)
  | delta :: deltas, dirty =>
      match index.editedRun delta with
      | none => (index, none)
      | some (first, last, combined) =>
          absorbEdits (index.mergeRun first last combined revision) revision deltas
            (some (widenDirty first last dirty))

-- Splicing a re-parsed window

def spansFrom : Nat → List Nat → List (Nat × Nat)
  | _, [] => []
  | start, length :: rest => (start, start + length) :: spansFrom (start + length) rest

/-- Ids carried over from the front while blocks keep their start and kind, and from the back
while they keep their end and kind.
-/
def carriedIds (blocks : List TiledBlock) (existing : List (Entry × Nat)) : List (Option Nat) :=
  let previous := existing.map fun item => (item.1.kind, item.1.id)
  let old := previous.zip (spansFrom 0 (existing.map Prod.snd))
  let fresh := (blocks.map (·.kind)).zip (spansFrom 0 (blocks.map (·.length)))
  let front :=
    ((fresh.zip old).takeWhile fun (new, old) => new.1 = old.1.1 ∧ new.2.1 = old.2.1).length
  let back :=
    (((fresh.drop front).reverse.zip (old.drop front).reverse).takeWhile
      fun (new, old) => new.1 = old.1.1 ∧ new.2.2 = old.2.2).length
  ((old.take front).map fun item => some item.1.2)
    ++ List.replicate (blocks.length - front - back) none
    ++ (old.drop (old.length - back)).map fun item => some item.1.2

/-- The entries of re-parsed blocks; a block without a carried id takes the next fresh one. -/
def freshEntries (revision : Nat)
    : Nat → List TiledBlock → List (Option Nat) → List Entry × Nat
  | nextId, block :: blocks, id :: ids =>
      let entry (id : Nat) : Entry :=
        { id
          kind := block.kind
          revision
          lines := block.lines
          leadingContentLines := block.leadingContentLines }
      match id with
      | some id =>
          let (entries, nextId) := freshEntries revision nextId blocks ids
          (entry id :: entries, nextId)
      | none =>
          let (entries, next) := freshEntries revision (nextId + 1) blocks ids
          (entry nextId :: entries, next)
  | nextId, _, _ => ([], nextId)

/-- Rewrites the slots of a store in place from `ordinal` on. -/
def rewriteSlots (store : BlockStore Entry) : Nat → List (Entry × Nat) → BlockStore Entry
  | _, [] => store
  | ordinal, (entry, length) :: rest =>
      rewriteSlots ((store.setPayload ordinal entry).setLength ordinal length) (ordinal + 1) rest

def joinAbove (store : BlockStore Entry) (above bytes lines : Nat) : BlockStore Entry :=
  let store := store.setLength above (store.length above + bytes)
  match store.get above with
  | none => store
  | some (entry, _) => store.setPayload above { entry with lines := entry.lines + lines }

/-- The store once the blocks `start` up to `stop`, `existing`, are replaced by `items`. -/
def spliceStore (store : BlockStore Entry) (start stop : Nat) (existing items : List (Entry × Nat))
    : BlockStore Entry :=
  if items.isEmpty then
    let spliced := store.splice start stop []
    if start > 0 then
      joinAbove spliced (start - 1) (totalLength existing)
        (existing.map fun item => item.1.lines).sum
    else
      spliced
  else if items.length = stop - start then
    rewriteSlots store start items
  else
    store.splice start stop items

/-- Replaces the entries of the window `start` up to `stop` with freshly parsed blocks. -/
def spliceWindow (index : BlockIndex parser) (start stop : Nat) (blocks : List TiledBlock)
    (fenceHeights : List (Option parser.FenceHeightProjection)) (revision : Nat)
    : BlockIndex parser :=
  let existing :=
    (BlockStore.Blocks.take index.store (stop - start) (index.store.iterFrom start)).map
      fun (_, entry, _, length) => (entry, length)
  let (entries, nextId) :=
    freshEntries revision index.nextId blocks (carriedIds blocks existing)
  let removed := existing.map fun item => item.1.id
  let inserted := (entries.map (·.id)).zip fenceHeights
  { index with
    nextId
    fenceHeightProjections := fun id =>
      match inserted.reverse.find? fun item => item.1 == id && item.2.isSome with
      | some (_, projection) => projection
      | none => if id ∈ removed then none else index.fenceHeightProjections id
    store := spliceStore index.store start stop existing (entries.zip (blocks.map (·.length)))
    provisionalFrom :=
      index.provisionalFrom.map fun tail =>
        if tail < start then tail
        else if tail < stop then start
        else tail + blocks.length - (stop - start) }

-- Updating

/-- The bytes of the blocks `first` up to and including `last`. -/
def windowRange (index : BlockIndex parser) (first last : Nat) : SourceRange :=
  ⟨(index.span first).start, (index.span last).stop⟩

/-- The provisional tail once it also covers everything from `ordinal` on. -/
def invalidateFrom (index : BlockIndex parser) (ordinal : Nat) : BlockIndex parser :=
  { index with
    provisionalFrom := some ((index.provisionalFrom.map (min · ordinal)).getD ordinal) }

/-- Whether the last block parsed in a window lands on the boundary and kind the index
already has for the untouched block that closes it, or the window reaches the document end.
-/
def resynchronizes (index : BlockIndex parser) (buffer : RopeBuffer) (window : SourceRange)
    (last : Nat) (blocks : List TiledBlock) : Bool :=
  window.stop == buffer.lenBytes
  || blocks.getLast?.any fun block =>
    some block.kind == (index.store.get last).map (fun item => item.1.kind)
    && window.stop - block.length == (index.span last).start

/-- Whether the window may still grow by the next block. -/
def canGrow (index : BlockIndex parser) (first last reparsedBytes : Nat) : Bool :=
  last + 1 < index.len && reparsedBytes < resyncByteBudget && last - first < resyncBlockBudget

/-- Ends an update with a window that could not be read. -/
def closeUnread (index : BlockIndex parser) (revision reparsedBytes first : Nat)
    : BlockIndexUpdate × BlockIndex parser :=
  ({ revision
     reparsedBytes
     firstReplacedBlock := first
     replacedBlocks := 0
     insertedBlocks := 0
     invalidatedBlocks := index.len - first
     resynchronized := false },
    { index.invalidateFrom first with revision })

/-- Ends an update by splicing the parsed window. An update that could not re-synchronize
stops claiming the kinds of the blocks after it.
-/
def closeWindow (index : BlockIndex parser) (revision reparsedBytes first last : Nat)
    (blocks : List TiledBlock) (fenceHeights : List (Option parser.FenceHeightProjection))
    (resynchronized : Bool) : BlockIndexUpdate × BlockIndex parser :=
  let spliced := index.spliceWindow first (last + 1) blocks fenceHeights revision
  let tail := first + blocks.length
  ({ revision
     reparsedBytes
     firstReplacedBlock := first
     replacedBlocks := last + 1 - first
     insertedBlocks := blocks.length
     invalidatedBlocks := if resynchronized then 0 else spliced.len - tail
     resynchronized },
    { (if resynchronized then spliced else spliced.invalidateFrom tail) with revision })

/-- Grows the window from `first` block by block until its parse re-synchronizes or the
budget is spent.
-/
def growWindow (index : BlockIndex parser) (buffer : RopeBuffer)
    (first last reparsedBytes : Nat) : BlockIndexUpdate × BlockIndex parser :=
  let window := index.windowRange first last
  match buffer.text window with
  | .error _ => index.closeUnread buffer.revision reparsedBytes first
  | .ok text =>
      let reparsedBytes := reparsedBytes + window.lenBytes
      let parsed := parser.parseDocument buffer.revision window text
      let blocks := tiledBlocks parsed.tree window text
      let fenceHeights := parser.buildFenceHeightProjections parsed blocks window text
      let resynchronized := index.resynchronizes buffer window last blocks
      if grows : resynchronized = false ∧ index.canGrow first last reparsedBytes = true then
        growWindow index buffer first (last + 1) reparsedBytes
      else
        index.closeWindow buffer.revision reparsedBytes first last blocks fenceHeights
          resynchronized
termination_by index.len - last
decreasing_by
  have bound := grows.2
  simp only [canGrow, Bool.and_eq_true, decide_eq_true_eq] at bound
  omega

/-- Replaces the index by a full parse. -/
def rebuild (parser : Parser) (buffer : RopeBuffer) (replaced : Nat)
    : BlockIndexUpdate × BlockIndex parser :=
  let rebuilt := build parser buffer.revision buffer.fullText
  ({ revision := buffer.revision
     reparsedBytes := rebuilt.coveredBytes
     firstReplacedBlock := 0
     replacedBlocks := replaced
     insertedBlocks := rebuilt.len
     invalidatedBlocks := 0
     resynchronized := true },
    rebuilt)

/-- Drops the projections of the last formal full parse. -/
def clearProjections (index : BlockIndex parser) : BlockIndex parser :=
  { index with listProjections := [], tableProjections := fun _ => none }

/-- Rebases the index onto `buffer` and re-parses only what the edits could have changed.
The deltas chain from the index's revision to the buffer's.
-/
def update (index : BlockIndex parser) (buffer : RopeBuffer) (deltas : List RevisionDelta)
    : BlockIndexUpdate × BlockIndex parser :=
  if deltas.isEmpty then
    ({ revision := buffer.revision
       reparsedBytes := 0
       firstReplacedBlock := 0
       replacedBlocks := 0
       insertedBlocks := 0
       invalidatedBlocks := 0
       resynchronized := true },
      { index with revision := buffer.revision })
  else
    let index := index.clearProjections
    if index.isEmpty then
      rebuild parser buffer 0
    else
      match index.absorbEdits buffer.revision deltas none with
      | (absorbed, none) => rebuild parser buffer absorbed.len
      | (absorbed, some (dirtyFirst, dirtyLast)) =>
          absorbed.growWindow buffer (dirtyFirst - 1) (min (dirtyLast + 1) (absorbed.len - 1)) 0

end BlockIndex

end Hane.Markdown
