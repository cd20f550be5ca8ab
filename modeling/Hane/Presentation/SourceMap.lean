import Hane.Document.Buffer
import Hane.Foundations.AlignedTiles

/-! Source offsets and visual offsets of a presented line, and the positions they settle on. -/

namespace Hane.Presentation

open Hane.Document Hane.Foundations

structure VisualRange where
  start : Nat
  stop : Nat
deriving DecidableEq

inductive Visibility where
  | visible
  | hiddenMarkup
  | synthesized
  | expandedMarkup
deriving DecidableEq

/-- Whether a segment shows its source text. -/
def Visibility.showsSource : Visibility → Bool
  | .visible | .expandedMarkup => true
  | .hiddenMarkup | .synthesized => false

inductive BoundarySide where
  | leading
  | trailing
deriving DecidableEq

/-- Which end of a delimited construct a hidden marker sits at. -/
inductive MarkerEdge where
  | opening
  | closing
deriving DecidableEq

structure MappingSegment where
  sourceRange : SourceRange
  visualRange : VisualRange
  visibility : Visibility
  markerEdge : Option MarkerEdge
deriving DecidableEq

structure PositionCandidate where
  sourceOffset : Nat
  visualOffset : Nat
  affinity : Bias
  side : BoundarySide
  visibility : Visibility
deriving DecidableEq

def BoundarySide.of : Bias → BoundarySide
  | .before => .leading
  | .after => .trailing

structure SourceMap where
  segments : List MappingSegment
deriving DecidableEq

namespace MappingSegment

/-- Where a segment that holds a visual offset takes it. -/
def sourceCandidate (visual : Nat) (affinity : Bias) (segment : MappingSegment)
    : Option PositionCandidate :=
  if visual < segment.visualRange.start ∨ visual > segment.visualRange.stop then
    none
  else
    let source :=
      match segment.visibility with
      | .visible | .expandedMarkup =>
          min (segment.sourceRange.start + (visual - segment.visualRange.start))
            segment.sourceRange.stop
      | .hiddenMarkup =>
          match affinity with
          | .before => segment.sourceRange.start
          | .after => segment.sourceRange.stop
      | .synthesized => segment.sourceRange.start
    some
      { sourceOffset := source
        visualOffset := visual
        affinity
        side := .of affinity
        visibility := segment.visibility }

/-- Where a segment that holds a source offset takes it. -/
def visualCandidate (source : Nat) (affinity : Bias) (segment : MappingSegment)
    : Option PositionCandidate :=
  if source < segment.sourceRange.start ∨ source > segment.sourceRange.stop then
    none
  else
    let visual :=
      match segment.visibility with
      | .visible | .expandedMarkup =>
          segment.visualRange.start + (source - segment.sourceRange.start)
      | .hiddenMarkup =>
          match affinity with
          | .before => segment.visualRange.start
          | .after => segment.visualRange.stop
      | .synthesized => segment.visualRange.start
    some
      { sourceOffset := source
        visualOffset := visual
        affinity
        side := .of affinity
        visibility := segment.visibility }

end MappingSegment

namespace SourceMap

def visualToSource (map : SourceMap) (visual : Nat) (affinity : Bias)
    : Option PositionCandidate :=
  let candidates :=
    (map.segments.filterMap (·.sourceCandidate visual affinity)).mergeSort
      fun first last => first.sourceOffset ≤ last.sourceOffset
  let visible := candidates.filter (·.visibility.showsSource)
  match affinity with
  | .before => visible.head?.or candidates.head?
  | .after => visible.getLast?.or candidates.getLast?

def sourceToVisual (map : SourceMap) (source : Nat) (affinity : Bias)
    : Option PositionCandidate :=
  let candidates :=
    (map.segments.filterMap (·.visualCandidate source affinity)).mergeSort
      fun first last => first.visualOffset ≤ last.visualOffset
  match affinity with
  | .before => candidates.head?
  | .after => candidates.getLast?

/-- One trip from a source offset to its visual offset and back. -/
def roundTripSource (map : SourceMap) (affinity : Bias) (source : Nat) : Option Nat := do
  let visual ← map.sourceToVisual source affinity
  let next ← map.visualToSource visual.visualOffset affinity
  return next.sourceOffset

/-- One trip from a visual offset to its source offset and back. -/
def roundTripVisual (map : SourceMap) (affinity : Bias) (visual : Nat) : Option Nat := do
  let source ← map.visualToSource visual affinity
  let next ← map.sourceToVisual source.sourceOffset affinity
  return next.visualOffset

/-- Hidden and synthesized segments can follow each other, so one trip may only walk to the next
boundary; trips are repeated until one stays where it began.
-/
def normalizeSource (map : SourceMap) (source : Nat) (affinity : Bias) : Option Nat :=
  settle (map.roundTripSource affinity) (map.segments.length + 1) source

/-- The walk of `normalizeSource` in the visual direction. -/
def normalizeVisual (map : SourceMap) (visual : Nat) (affinity : Bias) : Option Nat :=
  settle (map.roundTripVisual affinity) (map.segments.length + 1) visual

end SourceMap

end Hane.Presentation
