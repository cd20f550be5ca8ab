import Hane.Markdown.Syntax
import Hane.Presentation.SourceMap
import Mathlib.Data.List.DropRight

/-! Presenting the lines of a block window, as far as the disclosure each presented line carries,
and the disclosures that are expected of it without presenting.
-/

namespace Hane.Presentation

open Hane.Document Hane.Markdown

inductive LineContext where
  | normal
  | fencedCode
  | table
deriving DecidableEq

inductive BlockKind where
  | paragraph
  | heading (level : Nat)
  | codeBlock
  | quote
  | listItem
  | rule
  | image
  | tableRow
  | tableDelimiter
  | diagram
  | unsupported
deriving DecidableEq

def blockLineContext : NodeKind → LineContext
  | .codeBlock => .fencedCode
  | .table | .tableHead | .tableRow => .table
  | _ => .normal

def blockIsJoinable : NodeKind → Bool
  | .paragraph | .quote | .list _ => true
  | _ => false

/-- One physical source line of a block. -/
structure BlockLine where
  line : Nat
  range : SourceRange
  text : Text
  disclosure : Option SourceRange
deriving DecidableEq

/-- A half-open range of document lines. -/
structure LineSpan where
  start : Nat
  stop : Nat
deriving DecidableEq

def LineSpan.contains (span : LineSpan) (line : Nat) : Bool :=
  decide (span.start ≤ line) && decide (line < span.stop)

/-- The lines of a block and which of them to present. `Joined` stands for a parse of its whole
span. What only accounts for the height of clipped rows is left out.
-/
structure BlockWindow (Joined : Type) where
  span : LineSpan
  trailingBlankLines : Nat
  lines : List BlockLine
  render : LineSpan
  joined : Option Joined
  blockDisclosure : Option SourceRange

-- Lines

/-- `str::trim_end_matches(['\r', '\n'])`. -/
def trimLineEnding (source : Text) : Text :=
  source.rdropWhile fun c => c == '\r' || c == '\n'

def rangeTouches (range disclosure : SourceRange) : Bool :=
  if disclosure.isEmpty then
    decide (range.start ≤ disclosure.start) && decide (disclosure.start ≤ range.stop)
  else
    range.intersects disclosure

def disclosureOwnsPhysicalLine (range : SourceRange) (source : Text) (disclosure : SourceRange)
    : Bool :=
  if disclosure.isEmpty then
    decide (range.start ≤ disclosure.start)
    && (decide (disclosure.start < range.stop)
      || (!endsWithLineEnding source && disclosure.start == range.stop))
  else
    range.intersects disclosure

structure StandaloneImage where
  alt : Text
  destination : Text
deriving DecidableEq

/-- Splits a text at the first `](`. -/
def splitAtTarget : Text → Option (Text × Text)
  | ']' :: '(' :: rest => some ([], rest)
  | c :: rest => (splitAtTarget rest).map fun (before, after) => (c :: before, after)
  | [] => none

/-- A line that is nothing but one image, after leading white space: its destination runs to the
closing parenthesis the line ends with.
-/
def parseStandaloneImage (source : Text) : Option StandaloneImage := do
  let image := (trimLineEnding source).dropWhile isWhitespace
  let (before, after) ← splitAtTarget image
  if image.take 2 ≠ ['!', '['] ∨ image.getLast? ≠ some ')' then
    none
  else if after = [] then
    none
  else
    some { alt := before.drop 2, destination := after.dropLast }

def inactiveStandaloneImage (source : Text) (range : SourceRange)
    (disclosure : Option SourceRange) : Option StandaloneImage :=
  (parseStandaloneImage source).filter fun _ =>
    disclosure.all fun active => !rangeTouches range active

/-- `str::trim_matches` of one character. -/
def trimMatches (c : Char) (source : Text) : Text :=
  (source.dropWhile (· == c)).rdropWhile (· == c)

/-- `str::trim`. -/
def trim (source : Text) : Text := (source.dropWhile isWhitespace).rdropWhile isWhitespace

def isTableDelimiter (source : Text) : Bool :=
  let content := trim (trimLineEnding source)
  let cells := (trimMatches '|' content).splitOn '|'
  !cells.isEmpty
  && cells.all fun cell =>
    let trimmed := trimMatches ':' (trim cell)
    decide (3 ≤ utf8Len trimmed) && trimmed.all (· == '-')

-- What a parse plans for a line

/-- A marker that a parse plans for a line: the label it shows while it is hidden, the task
marker it may take along, and the disclosures that reach the construct owning it.
-/
structure ProjectedMarker where
  range : SourceRange
  fence : Bool
  fenceEdge : Option MarkerEdge
  label : Option Text
  task : Option SourceRange
  disclosedBy : SourceRange → Bool

/-- What a line is shown as and its markers, in order of their starts. -/
structure LinePlan where
  kind : BlockKind
  markers : List ProjectedMarker

/-- The parser and the marker plan built on it. -/
structure LineParser (Joined : Type) where
  parseJoinedBlock : Nat → List BlockLine → Joined
  parseDocument : Nat → SourceRange → Text → Joined
  plan : Joined → SourceRange → LinePlan

/-- The mapping segments of a line, as far as their source goes. -/
structure LineSegment where
  sourceRange : SourceRange
  visibility : Visibility
deriving DecidableEq

def segmentsTileFrom : Nat → List LineSegment → Option Nat
  | cursor, [] => some cursor
  | cursor, segment :: rest =>
      if segment.sourceRange.isEmpty then
        segmentsTileFrom cursor rest
      else if segment.sourceRange.start ≠ cursor then
        none
      else
        segmentsTileFrom segment.sourceRange.stop rest

/-- Whether the segments that hold any source follow each other over the whole range. -/
def segmentsTileRange (range : SourceRange) (segments : List LineSegment) : Bool :=
  segmentsTileFrom range.start segments == some range.stop

/-- Whether a marker shows its source. An opening fence, and what follows it, is shown as soon
as its line is edited.
-/
def markerIsExpanded (range : SourceRange) (source : Text) (disclosure : Option SourceRange)
    (planned : ProjectedMarker) : Bool :=
  if planned.fence then
    disclosure.any fun active =>
      disclosureOwnsPhysicalLine range source active
      && (planned.fenceEdge == some .opening || planned.fenceEdge == none)
  else
    disclosure.any planned.disclosedBy

def taskAfterMarker (task : Option SourceRange) (marker range : SourceRange)
    (nextMarkerStart : Option Nat) : Option SourceRange :=
  task.filter fun hidden =>
    hidden.start == marker.stop
    && decide (hidden.stop ≤ range.stop)
    && nextMarkerStart.all fun next => decide (hidden.stop ≤ next)

/-- The segments of the markers from a source cursor on, and where they leave the cursor. A
marker that leaves the line is passed over.
-/
def markerSegments (range : SourceRange) (source : Text) (disclosure : Option SourceRange)
    : Nat → List ProjectedMarker → List LineSegment × Nat
  | cursor, [] => ([], cursor)
  | cursor, planned :: rest =>
      let marker := planned.range
      if marker.stop > range.stop then
        markerSegments range source disclosure cursor rest
      else
        let before :=
          if cursor < marker.start then [⟨⟨cursor, marker.start⟩, .visible⟩] else []
        let expanded := markerIsExpanded range source disclosure planned
        let visibility := if expanded then .expandedMarkup else .hiddenMarkup
        let label :=
          if !expanded && planned.label.isSome then
            [⟨.empty marker.start, .synthesized⟩]
          else
            []
        let task :=
          planned.label.bind fun _ =>
            taskAfterMarker planned.task marker range (rest.head?.map (·.range.start))
        let hidden := task.toList.map fun hidden => ⟨hidden, visibility⟩
        let next := (task.map (·.stop)).getD marker.stop
        let (later, last) := markerSegments range source disclosure next rest
        (before ++ ⟨marker, visibility⟩ :: label ++ hidden ++ later, last)

def lineSegments (range : SourceRange) (source : Text) (disclosure : Option SourceRange)
    (markers : List ProjectedMarker) : List LineSegment :=
  let (segments, cursor) := markerSegments range source disclosure range.start markers
  let segments :=
    segments ++ if cursor < range.stop then [⟨⟨cursor, range.stop⟩, .visible⟩] else []
  if segments.isEmpty then [⟨range, .visible⟩] else segments

-- Presented lines

/-- A presented line, as far as it is compared to decide whether it is still current. -/
structure PresentedLine where
  lineId : Nat
  sourceRange : SourceRange
  revision : Nat
  kind : BlockKind
  context : LineContext
  disclosure : Option SourceRange
deriving DecidableEq

def presentPlain (lineId revision : Nat) (range : SourceRange) : PresentedLine where
  lineId
  sourceRange := range
  revision
  kind := .paragraph
  context := .normal
  disclosure := none

def presentRawSource (lineId revision : Nat) (range : SourceRange) : PresentedLine :=
  { presentPlain lineId revision range with kind := .unsupported }

/-- A thematic break. Its segments are not checked against the source. -/
def presentRuleLine (lineId revision : Nat) (range : SourceRange)
    (disclosure : Option SourceRange) : PresentedLine :=
  { presentPlain lineId revision range with kind := .rule, disclosure }

/-- One physical line from the plan of a parse. -/
def presentMarkdownFromParse (lineId revision : Nat) (range : SourceRange) (source : Text)
    (disclosure : Option SourceRange) (plan : LinePlan) : PresentedLine :=
  if source.isEmpty then
    presentPlain lineId revision range
  else if plan.kind = .rule then
    presentRuleLine lineId revision range disclosure
  else if !segmentsTileRange range (lineSegments range source disclosure plan.markers) then
    presentRawSource lineId revision range
  else
    { presentPlain lineId revision range with kind := plan.kind, disclosure }

/-- A standalone image, shown instead of its source. -/
def presentImage (lineId revision : Nat) (range : SourceRange) : PresentedLine :=
  { presentPlain lineId revision range with kind := .image }

/-- A line of a fenced or indented code block, whatever its part in the fence. -/
def presentFencedCodeLine (lineId revision : Nat) (range : SourceRange) : PresentedLine :=
  { presentPlain lineId revision range with kind := .codeBlock, context := .fencedCode }

/-- A table row that is not edited. -/
def presentTableLine (lineId revision : Nat) (range : SourceRange) (source : Text)
    : PresentedLine :=
  { presentPlain lineId revision range with
    kind := if isTableDelimiter source then .tableDelimiter else .tableRow }

section
variable {Joined : Type} (parser : LineParser Joined)

/-- One physical line from a parse of its own. -/
def presentMarkdownWithListProjection (lineId revision : Nat) (range : SourceRange)
    (source : Text) (disclosure : Option SourceRange) : PresentedLine :=
  if source.isEmpty then
    presentPlain lineId revision range
  else
    presentMarkdownFromParse lineId revision range source disclosure
      (parser.plan (parser.parseDocument revision range source) range)

/-- One physical line in the context of its block. -/
def presentPolishedLine (revision : Nat) (line : BlockLine) (context : LineContext)
    : PresentedLine :=
  let presented :=
    if context = .fencedCode then
      presentFencedCodeLine line.line revision line.range
    else if (inactiveStandaloneImage line.text line.range line.disclosure).isSome then
      presentImage line.line revision line.range
    else if context = .table
        ∧ line.disclosure.all
          (fun active => !disclosureOwnsPhysicalLine line.range line.text active) then
      presentTableLine line.line revision line.range line.text
    else
      presentMarkdownWithListProjection parser line.line revision line.range line.text
        line.disclosure
  { presented with context }

end

-- Runs of lines

def unionDisclosure (a b : SourceRange) : SourceRange := ⟨min a.start b.start, max a.stop b.stop⟩

/-- `Iterator::reduce` with the union. -/
def unionAll : List SourceRange → Option SourceRange
  | [] => none
  | first :: rest => some (rest.foldl unionDisclosure first)

def mergedDisclosure (lines : List BlockLine) : Option SourceRange :=
  unionAll (lines.filterMap (·.disclosure))

def joinedRunDisclosure (lines : List BlockLine) (blockDisclosure : Option SourceRange)
    : Option SourceRange :=
  unionAll ((mergedDisclosure lines).toList ++ blockDisclosure.toList)

def runUsesSharedParse {Joined : Type} (runLen : Nat) (joined : Option Joined) : Bool :=
  decide (runLen > 1) || joined.isSome

namespace BlockWindow

variable {Joined : Type}

/-- The line at which the blank run that closes the block begins. -/
def contentEnd (window : BlockWindow Joined) : Nat :=
  window.span.stop - window.trailingBlankLines

/-- The context of a line: the blank run is not part of the block's construct. -/
def lineContext (blockKind : NodeKind) (window : BlockWindow Joined) (line : BlockLine)
    : LineContext :=
  if line.line < window.contentEnd then blockLineContext blockKind else .normal

/-- The runs of the lines from some line on. -/
def runsFrom (blockKind : NodeKind) (window : BlockWindow Joined)
    : List BlockLine → List (List BlockLine)
  | [] => []
  | line :: rest =>
      let joins line := decide (window.lineContext blockKind line = .normal)
      let further := if blockIsJoinable blockKind && joins line then rest.takeWhile joins else []
      (line :: further) :: runsFrom blockKind window (rest.drop further.length)
termination_by lines => lines.length
decreasing_by
  simp only [List.length_drop, List.length_cons]
  omega

/-- The runs the lines are presented in: lines of a joinable block in normal flow are taken
together, every other line by itself.
-/
def disclosureRuns (blockKind : NodeKind) (window : BlockWindow Joined)
    : List (List BlockLine) :=
  window.runsFrom blockKind window.lines

-- The two sides

/-- The disclosure expected of one line of a run. -/
def expectedDisclosure (window : BlockWindow Joined) (run : List BlockLine) (line : BlockLine)
    : Option SourceRange :=
  let sharedParse := runUsesSharedParse run.length window.joined
  let merged := if sharedParse then joinedRunDisclosure run window.blockDisclosure else none
  if sharedParse && !line.text.isEmpty
      && (inactiveStandaloneImage line.text line.range line.disclosure).isNone then
    merged
  else if sharedParse then
    none
  else
    line.disclosure

/-- The disclosures expected of the rendered lines, each with the number of its line. -/
def expectedDisclosures (blockKind : NodeKind) (window : BlockWindow Joined)
    : List (Nat × Option SourceRange) :=
  (window.disclosureRuns blockKind).flatMap fun run =>
    (run.filter fun line => window.render.contains line.line).map fun line =>
      (line.line, window.expectedDisclosure run line)

/-- One line of a run that is presented from a parse of the whole run. -/
def presentJoinedLine (parser : LineParser Joined) (revision : Nat) (joined : Joined)
    (disclosure : Option SourceRange) (line : BlockLine) : PresentedLine :=
  let presented :=
    if (inactiveStandaloneImage line.text line.range line.disclosure).isSome then
      presentImage line.line revision line.range
    else
      presentMarkdownFromParse line.line revision line.range line.text disclosure
        (parser.plan joined line.range)
  { presented with context := .normal }

def presentJoinedRun (parser : LineParser Joined) (revision : Nat) (window : BlockWindow Joined)
    (run : List BlockLine) : List PresentedLine :=
  let joined := window.joined.getD (parser.parseJoinedBlock revision run)
  let disclosure := joinedRunDisclosure run window.blockDisclosure
  (run.filter fun line => window.render.contains line.line).map fun line =>
    presentJoinedLine parser revision joined disclosure line

/-- The lines presented for one run. -/
def presentRun (parser : LineParser Joined) (blockKind : NodeKind) (revision : Nat)
    (window : BlockWindow Joined) (run : List BlockLine) : List PresentedLine :=
  if runUsesSharedParse run.length window.joined then
    window.presentJoinedRun parser revision run
  else
    (run.head?.toList.filter fun line => window.render.contains line.line).map fun line =>
      presentPolishedLine parser revision line (window.lineContext blockKind line)

end BlockWindow

/-- A presented block: its presented lines and how many lines of its span are clipped above and
below them.
-/
structure PresentedBlock where
  span : LineSpan
  revision : Nat
  lines : List PresentedLine
  linesBefore : Nat
  linesAfter : Nat
deriving DecidableEq

def presentBlock {Joined : Type} (parser : LineParser Joined) (blockKind : NodeKind)
    (revision : Nat) (window : BlockWindow Joined) : PresentedBlock :=
  let lines := (window.disclosureRuns blockKind).flatMap
    (window.presentRun parser blockKind revision)
  let linesBefore := (lines.head?.map fun line => line.lineId - window.span.start).getD 0
  { span := window.span
    revision
    lines
    linesBefore
    linesAfter := (window.span.stop - window.span.start) - (linesBefore + lines.length) }

end Hane.Presentation
