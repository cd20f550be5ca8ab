import Hane.Foundations.ChunkedLists

/-! The heights of a document's blocks: bounded chunks, indexed by their totals and counts. -/

namespace Hane.Presentation

open Hane.Foundations

def heightChunkTarget : Nat := 128

structure HeightChunk (H : Type) where
  heights : List H
  total : H
deriving DecidableEq

def HeightChunk.new {H : Type} [AddCommGroup H] (heights : List H) : HeightChunk H :=
  ⟨heights, heights.sum⟩

structure HeightIndex (H : Type) where
  chunks : List (HeightChunk H)
  sums : List H
  counts : List Nat
  len : Nat
deriving DecidableEq

namespace HeightIndex

variable {H : Type} [AddCommGroup H] [LinearOrder H]

/-- Rebuilds both trees over the chunks. -/
def retree (index : HeightIndex H) : HeightIndex H :=
  { index with
    sums := Fenwick.build (index.chunks.map (·.total))
    counts := Fenwick.build (index.chunks.map (·.heights.length)) }

def cut (heights : List H) : List (HeightChunk H) :=
  (chunksOf heightChunkTarget heights).map HeightChunk.new

def new (heights : List H) : HeightIndex H :=
  let heights := heights.map (max · 0)
  retree { chunks := cut heights, sums := [], counts := [], len := heights.length }

def isEmpty (index : HeightIndex H) : Bool := index.len == 0

def treePrefix {M : Type} [AddCommMonoid M] (tree : List M) (exclusiveEnd : Nat) : M :=
  Fenwick.prefixTotal tree exclusiveEnd

def searchCounts (index : HeightIndex H) (ordinal : Nat) : Nat × Nat :=
  Fenwick.search index.counts ordinal

/-- The chunk and the slot that hold a block. -/
def locate (index : HeightIndex H) (ordinal : Nat) : Option (Nat × Nat) :=
  if ordinal ≥ index.len then
    none
  else
    let (chunk, before) := index.searchCounts ordinal
    some (chunk, ordinal - before)

/-- The chunk and the slot to insert at; past the last block that is the end of the last
chunk.
-/
def locateInsert (index : HeightIndex H) (ordinal : Nat) : Nat × Nat :=
  (index.locate ordinal).getD <|
    match index.chunks.getLast? with
    | none => (0, 0)
    | some chunk => (index.chunks.length - 1, chunk.heights.length)

def addSum (index : HeightIndex H) (chunk : Nat) (delta : H) : HeightIndex H :=
  { index with sums := Fenwick.climb index.sums (chunk + 1) (· + delta) }

def heightsAt (index : HeightIndex H) (chunk : Nat) : List H :=
  (index.chunks[chunk]?.map (·.heights)).getD []

/-- Panics, here `none`, when the block does not exist. -/
def update (index : HeightIndex H) (ordinal : Nat) (height : H) : Option (HeightIndex H) := do
  let next := max height 0
  let (chunk, slot) ← index.locate ordinal
  let found ← index.chunks[chunk]?
  let delta := next - (← found.heights[slot]?)
  let changed := { heights := found.heights.set slot next, total := found.total + delta }
  return { index with chunks := index.chunks.set chunk changed }.addSum chunk delta

def height (index : HeightIndex H) (ordinal : Nat) : Option H := do
  let (chunk, slot) ← index.locate ordinal
  (index.heightsAt chunk)[slot]?

/-- Replaces the heights from `start` up to `stop`; `none` is the failed assertion. -/
def splice (index : HeightIndex H) (start stop : Nat) (heights : List H)
    : Option (HeightIndex H) :=
  if start ≤ stop ∧ stop ≤ index.len then
    let inserted := heights.map (max · 0)
    let (firstChunk, firstSlot) := index.locateInsert start
    let (lastChunk, lastSlot) := index.locateInsert stop
    let merged :=
      (index.heightsAt firstChunk).take firstSlot ++ inserted
        ++ (index.heightsAt lastChunk).drop lastSlot
    let endChunk := min (lastChunk + 1) index.chunks.length
    some <| retree
      { index with
        chunks :=
          index.chunks.take (min firstChunk endChunk) ++ cut merged
            ++ index.chunks.drop endChunk
        len := index.len - (stop - start) + inserted.length }
  else
    none

/-- The height of everything before a block. -/
def prefixSum (index : HeightIndex H) (exclusiveEnd : Nat) : H :=
  match index.locate (min exclusiveEnd index.len) with
  | none => treePrefix index.sums index.chunks.length
  | some (chunk, slot) =>
      treePrefix index.sums chunk + ((index.heightsAt chunk).take slot).sum

def totalHeight (index : HeightIndex H) : H := index.prefixSum index.len

/-- The scan within a chunk for the first height that ends past `target`. -/
def scanHeights (target : H) : List H → Nat → H → Option Nat
  | [], _, _ => none
  | height :: rest, slot, sum =>
      if target < sum + height then
        some slot
      else
        scanHeights target rest (slot + 1) (sum + height)

/-- A target equal to the whole height walks past the last chunk; steps back onto it and takes
its total back out of the sum.
-/
def stepBack (index : HeightIndex H) (chunk : Nat) (sum : H) : Nat × H :=
  if chunk ≥ index.chunks.length then
    let last := index.chunks.length - 1
    (last, sum - ((index.chunks[last]?).map (·.total)).getD 0)
  else
    (chunk, sum)

/-- The block at a vertical position. -/
def blockAtY (index : HeightIndex H) (y : H) : Nat :=
  if index.isEmpty then
    0
  else
    let target := min (max y 0) index.totalHeight
    let (reached, before) := Fenwick.search index.sums target
    let (chunk, sum) := index.stepBack reached before
    let ordinal := treePrefix index.counts chunk
    let heights := index.heightsAt chunk
    match scanHeights target heights 0 sum with
    | some slot => ordinal + slot
    | none => min (ordinal + (heights.length - 1)) (index.len - 1)

/-- The blocks from `start` up to `stop` that a viewport with some overscan shows. -/
def visibleRange (index : HeightIndex H) (scrollY viewport overscan : H) : Nat × Nat :=
  if index.isEmpty then
    (0, 0)
  else
    (index.blockAtY (max (scrollY - overscan) 0),
      min (index.blockAtY (scrollY + viewport + overscan) + 1) index.len)

end HeightIndex

end Hane.Presentation
