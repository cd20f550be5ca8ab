import Hane.Foundations.WeightedLists
import Hane.Markdown.SumTree
import Mathlib.Data.List.Flatten

/-! Chunked storage for a tiling sequence of blocks. -/

namespace Hane.Markdown

open Hane.Foundations

def chunkTarget : Nat := 128

/-- `slice::chunks` with the chunk target as its size. -/
def sliceChunks {α : Type*} : List α → List (List α)
  | [] => []
  | item :: rest =>
      (item :: rest.take (chunkTarget - 1)) :: sliceChunks (rest.drop (chunkTarget - 1))
termination_by items => items.length
decreasing_by
  rw [List.length_drop, List.length_cons]
  omega

/-- The byte lengths of blocks, summed. -/
def totalLength {T : Type} (items : List (T × Nat)) : Nat := weight Prod.snd items

structure Chunk (T : Type) where
  items : List (T × Nat)
  bytes : Nat
deriving DecidableEq

def Chunk.new {T : Type} (items : List (T × Nat)) : Chunk T := ⟨items, totalLength items⟩

structure BlockStore (T : Type) where
  chunks : List (Chunk T)
  bytes : SumTree
  counts : SumTree
deriving DecidableEq

namespace BlockStore

variable {T : Type}

def fromChunks (chunks : List (Chunk T)) : BlockStore T where
  chunks
  bytes := SumTree.build (chunks.map (·.bytes))
  counts := SumTree.build (chunks.map (·.items.length))

def new (items : List (T × Nat)) : BlockStore T :=
  fromChunks ((sliceChunks items).map Chunk.new)

def len (store : BlockStore T) : Nat := store.counts.total

def isEmpty (store : BlockStore T) : Bool := store.len == 0

def totalBytes (store : BlockStore T) : Nat := store.bytes.total

/-- The chunk and the slot that hold a block. -/
def locate (store : BlockStore T) (ordinal : Nat) : Option (Nat × Nat) :=
  if ordinal ≥ store.len then
    none
  else
    let (chunk, before) := store.counts.search ordinal
    some (chunk, ordinal - before)

/-- The chunk and the slot to insert at; past the last block that is the end of the last
chunk.
-/
def locateInsert (store : BlockStore T) (ordinal : Nat) : Nat × Nat :=
  (store.locate ordinal).getD <|
    match store.chunks.getLast? with
    | none => (0, 0)
    | some chunk => (store.chunks.length - 1, chunk.items.length)

def itemsAt (store : BlockStore T) (chunk : Nat) : List (T × Nat) :=
  (store.chunks[chunk]?.map (·.items)).getD []

def get (store : BlockStore T) (ordinal : Nat) : Option (T × Nat) := do
  let (chunk, slot) ← store.locate ordinal
  (store.itemsAt chunk)[slot]?

def length (store : BlockStore T) (ordinal : Nat) : Nat :=
  ((store.get ordinal).map Prod.snd).getD 0

def start (store : BlockStore T) (ordinal : Nat) : Nat :=
  match store.locate ordinal with
  | none => store.totalBytes
  | some (chunk, slot) =>
      store.bytes.prefixTotal chunk + totalLength ((store.itemsAt chunk).take slot)

/-- The scan within a chunk for the first block that ends past `target`. -/
def scanSlots (target : Nat) : List (T × Nat) → Nat → Nat → Option Nat
  | [], _, _ => none
  | (_, length) :: rest, slot, sum =>
      if target < sum + length then
        some slot
      else
        scanSlots target rest (slot + 1) (sum + length)

/-- The block that owns `offset`; the document end belongs to the last block. -/
def ordinalAt (store : BlockStore T) (offset : Nat) : Option Nat :=
  if store.isEmpty then
    none
  else
    let target := min offset store.totalBytes
    let chunk := min (store.bytes.search target).1 (store.chunks.length - 1)
    let ordinal := store.counts.prefixTotal chunk
    let items := store.itemsAt chunk
    match scanSlots target items 0 (store.bytes.prefixTotal chunk) with
    | some slot => some (ordinal + slot)
    | none => some (ordinal + (items.length - 1))

def setLength (store : BlockStore T) (ordinal length : Nat) : BlockStore T :=
  match store.locate ordinal with
  | none => store
  | some (chunk, slot) =>
      match store.chunks[chunk]? with
      | none => store
      | some found =>
          let old := ((found.items[slot]?).map Prod.snd).getD 0
          let delta := (length : Int) - old
          { store with
            chunks :=
              store.chunks.set chunk
                { items := found.items.modify slot fun item => (item.1, length)
                  bytes := wrappingAddSigned found.bytes delta }
            bytes := store.bytes.add chunk delta }

def setPayload (store : BlockStore T) (ordinal : Nat) (payload : T) : BlockStore T :=
  match store.locate ordinal with
  | none => store
  | some (chunk, slot) =>
      { store with
        chunks :=
          store.chunks.modify chunk fun found =>
            { found with items := found.items.modify slot fun item => (payload, item.2) } }

/-- Replaces the blocks from `start` up to `stop`, rewriting only the chunks the range
touches.
-/
def splice (store : BlockStore T) (start stop : Nat) (items : List (T × Nat)) : BlockStore T :=
  let (firstChunk, firstSlot) := store.locateInsert start
  let (lastChunk, lastSlot) := store.locateInsert stop
  let merged :=
    (store.itemsAt firstChunk).take firstSlot ++ items ++ (store.itemsAt lastChunk).drop lastSlot
  let replacement := (sliceChunks merged).map Chunk.new
  let endChunk := min (lastChunk + 1) store.chunks.length
  fromChunks
    (store.chunks.take (min firstChunk endChunk) ++ replacement ++ store.chunks.drop endChunk)

-- Iteration

/-- Where an iteration over the blocks stands. -/
structure Blocks where
  chunk : Nat
  slot : Nat
  offset : Nat
  next : Nat
deriving DecidableEq

/-- Moves on to the next chunk while the slot is past the end of its chunk. -/
def skipExhausted : List (Chunk T) → Nat → Nat → Nat × Nat
  | [], chunk, slot => (chunk, slot)
  | found :: rest, chunk, slot =>
      if slot ≥ found.items.length then skipExhausted rest (chunk + 1) 0 else (chunk, slot)

def Blocks.step (store : BlockStore T) (blocks : Blocks)
    : Option ((Nat × T × Nat × Nat) × Blocks) := do
  let (chunk, slot) := skipExhausted (store.chunks.drop blocks.chunk) blocks.chunk blocks.slot
  let (payload, length) ← (store.itemsAt chunk)[slot]?
  return (
    (blocks.next, payload, blocks.offset, length),
    { chunk, slot := slot + 1, offset := blocks.offset + length, next := blocks.next + 1 })

/-- The first `count` blocks an iteration yields. -/
def Blocks.take (store : BlockStore T) : Nat → Blocks → List (Nat × T × Nat × Nat)
  | 0, _ => []
  | count + 1, blocks =>
      match blocks.step store with
      | none => []
      | some (item, blocks) => item :: Blocks.take store count blocks

/-- The iteration over the blocks from `ordinal` on, as ordinal, payload, start and length. -/
def iterFrom (store : BlockStore T) (ordinal : Nat) : Blocks :=
  let (chunk, slot) := store.locateInsert ordinal
  { chunk, slot, offset := store.start ordinal, next := ordinal }

end BlockStore

end Hane.Markdown
