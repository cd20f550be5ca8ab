import Hane.Foundations.Traversals
import Hane.Presentation.BlockWindow
import Mathlib.Tactic.Common

/-! When the disclosures expected of a block window are the ones its presented lines carry. -/

namespace Hane.Presentation

open Hane.Document Hane.Foundations Hane.Markdown

-- Markers that tile their line

/-- Where the segments of a marker end, with the task marker it takes along. -/
def markerEnd (range : SourceRange) (planned : ProjectedMarker) (rest : List ProjectedMarker)
    : Nat :=
  let task :=
    planned.label.bind fun _ =>
      taskAfterMarker planned.task planned.range range (rest.head?.map (·.range.start))
  (task.map (·.stop)).getD planned.range.stop

/-- The markers that stay on the line start no earlier than the ones before them end, and the
last ends on the line.
-/
def InOrder (range : SourceRange) : Nat → List ProjectedMarker → Prop
  | cursor, [] => cursor ≤ range.stop
  | cursor, planned :: rest =>
      if planned.range.stop > range.stop then
        InOrder range cursor rest
      else
        cursor ≤ planned.range.start ∧ InOrder range (markerEnd range planned rest) rest

/-- No marker stays on the line, or those that do are in order. -/
def MarkersFit (range : SourceRange) (markers : List ProjectedMarker) : Prop :=
  (∀ planned ∈ markers, planned.range.stop > range.stop) ∨ InOrder range range.start markers

/-- Segments without source are passed over, by induction on them. -/
theorem segmentsTileFrom_empties {cursor : Nat} {empties later : List LineSegment}
    (none : ∀ segment ∈ empties, segment.sourceRange.isEmpty = true)
    : segmentsTileFrom cursor (empties ++ later) = segmentsTileFrom cursor later := by
  induction empties with
  | nil => rfl
  | cons segment empties ih =>
      rw [List.cons_append, segmentsTileFrom, if_pos (none segment List.mem_cons_self)]
      exact ih fun found member => none found (List.mem_cons_of_mem _ member)

/-- Tiling goes through two lists in turn, by induction on the first. -/
theorem segmentsTileFrom_append (cursor : Nat) (first later : List LineSegment)
    : segmentsTileFrom cursor (first ++ later)
      = (segmentsTileFrom cursor first).bind fun cursor => segmentsTileFrom cursor later := by
  induction first generalizing cursor with
  | nil => rfl
  | cons segment first ih =>
      simp only [List.cons_append, segmentsTileFrom]
      split
      · exact ih cursor
      · split
        · rfl
        · exact ih _

section
variable (range : SourceRange) (source : Text) (disclosure : Option SourceRange)

def segmentsToEnd (cursor : Nat) (markers : List ProjectedMarker) : List LineSegment :=
  let (segments, last) := markerSegments range source disclosure cursor markers
  segments ++ if last < range.stop then [⟨⟨last, range.stop⟩, .visible⟩] else []

/-- The segments of one marker that stays on the line, from the cursor to its end. -/
def ownSegments (cursor : Nat) (planned : ProjectedMarker) (rest : List ProjectedMarker)
    : List LineSegment :=
  let marker := planned.range
  let expanded := markerIsExpanded range source disclosure planned
  let visibility := if expanded then .expandedMarkup else .hiddenMarkup
  (if cursor < marker.start then [⟨⟨cursor, marker.start⟩, .visible⟩] else [])
  ++ ⟨marker, visibility⟩
    :: (if !expanded && planned.label.isSome then [⟨.empty marker.start, .synthesized⟩] else [])
  ++ (planned.label.bind fun _ =>
      taskAfterMarker planned.task marker range (rest.head?.map (·.range.start))).toList.map
    fun hidden => ⟨hidden, visibility⟩

variable {range source disclosure}

theorem segmentsToEnd_cons (cursor : Nat) (planned : ProjectedMarker)
    (rest : List ProjectedMarker)
    : segmentsToEnd range source disclosure cursor (planned :: rest)
      = if planned.range.stop > range.stop then
          segmentsToEnd range source disclosure cursor rest
        else
          ownSegments range source disclosure cursor planned rest
          ++ segmentsToEnd range source disclosure (markerEnd range planned rest) rest := by
  by_cases leaves : planned.range.stop > range.stop
  · simp only [segmentsToEnd, markerSegments, if_pos leaves]
  · simp [segmentsToEnd, markerSegments, if_neg leaves, ownSegments, markerEnd]

theorem taskAfterMarker_start {task : Option SourceRange} {marker hidden : SourceRange}
    {next : Option Nat} (taken : taskAfterMarker task marker range next = some hidden)
    : hidden.start = marker.stop := by
  obtain ⟨_, fits⟩ := Option.filter_eq_some_iff.mp taken
  simp only [Bool.and_eq_true, beq_iff_eq] at fits
  exact fits.1.1

/-- A marker and what it takes along tile from where it starts, and from elsewhere only when they
hold no source.
-/
theorem tail_tile {planned : ProjectedMarker} {rest : List ProjectedMarker} {cursor : Nat}
    {visibility : Visibility} {label : List LineSegment}
    (synthesized : ∀ segment ∈ label, segment.sourceRange.isEmpty = true)
    : segmentsTileFrom cursor
          (⟨planned.range, visibility⟩ :: label
            ++ (planned.label.bind fun _ =>
                taskAfterMarker planned.task planned.range range
                  (rest.head?.map (·.range.start))).toList.map fun hidden => ⟨hidden, visibility⟩)
      = if planned.range.start = cursor then
          some (markerEnd range planned rest)
        else if planned.range.isEmpty ∧ markerEnd range planned rest = planned.range.stop then
          some cursor
        else
          none := by
  rw [List.cons_append, segmentsTileFrom, segmentsTileFrom_empties synthesized,
    segmentsTileFrom_empties synthesized]
  unfold markerEnd
  cases taken : planned.label.bind fun _ =>
      taskAfterMarker planned.task planned.range range (rest.head?.map (·.range.start)) with
  | none =>
      simp only [SourceRange.isEmpty, beq_iff_eq, Option.toList_none, List.map_nil,
        segmentsTileFrom, Option.map_none, Option.getD_none]
      grind
  | some hidden =>
      obtain ⟨_, _, found⟩ := Option.bind_eq_some_iff.mp taken
      have start := taskAfterMarker_start found
      simp only [SourceRange.isEmpty, beq_iff_eq, Option.toList_some, List.map_cons,
        List.map_nil, segmentsTileFrom, Option.map_some, Option.getD_some]
      grind

/-- The label of a marker holds no source. -/
theorem label_empty {planned : ProjectedMarker} {shown : Bool}
    : ∀ segment ∈
        (if shown then
          [(⟨.empty planned.range.start, .synthesized⟩ : LineSegment)]
        else
          []),
      segment.sourceRange.isEmpty = true := by
  intro segment member
  split at member
  · obtain rfl := List.mem_singleton.mp member
    simp [SourceRange.isEmpty, SourceRange.empty]
  · cases member

theorem ownSegments_tile {planned : ProjectedMarker} {rest : List ProjectedMarker}
    {cursor : Nat} (ahead : cursor ≤ planned.range.start)
    : segmentsTileFrom cursor (ownSegments range source disclosure cursor planned rest)
      = some (markerEnd range planned rest) := by
  unfold ownSegments
  rw [List.append_assoc, segmentsTileFrom_append]
  have front : segmentsTileFrom cursor
      (if cursor < planned.range.start then
        [⟨⟨cursor, planned.range.start⟩, .visible⟩]
      else
        []) = some planned.range.start := by
    by_cases gap : cursor < planned.range.start
    · simp [gap, segmentsTileFrom, SourceRange.isEmpty]
    · simp [gap, segmentsTileFrom]
      omega
  rw [front, Option.bind_some, tail_tile label_empty, if_pos rfl]

/-- From behind the cursor they tile only when they hold no source, and then leave the cursor
further behind.
-/
theorem ownSegments_behind {planned : ProjectedMarker} {rest : List ProjectedMarker}
    {cursor tiled next : Nat} (behind : cursor < tiled ∨ planned.range.start < cursor)
    (late : cursor ≤ tiled)
    (tiles :
      segmentsTileFrom tiled (ownSegments range source disclosure cursor planned rest)
        = some next)
    : next = tiled ∧ markerEnd range planned rest < tiled := by
  unfold ownSegments at tiles
  rw [List.append_assoc, segmentsTileFrom_append] at tiles
  obtain ⟨front, gap, own⟩ := Option.bind_eq_some_iff.mp tiles
  by_cases ahead : cursor < planned.range.start
  · have apart : cursor ≠ planned.range.start := Nat.ne_of_lt ahead
    have off : cursor ≠ tiled := by omega
    simp [ahead, segmentsTileFrom, SourceRange.isEmpty, apart, off] at gap
  · simp [ahead, segmentsTileFrom] at gap
    subst gap
    rw [tail_tile label_empty] at own
    split at own
    · omega
    · split at own
      · next held =>
        obtain rfl := Option.some.inj own
        simp only [SourceRange.isEmpty, beq_iff_eq] at held
        exact ⟨rfl, by omega⟩
      · cases own

/-- Once the segments are behind, they never reach the end of the line, by induction on the
markers.
-/
theorem segmentsToEnd_behind {markers : List ProjectedMarker} {cursor tiled : Nat}
    (behind : cursor < tiled)
    : segmentsTileFrom tiled (segmentsToEnd range source disclosure cursor markers)
      ≠ some range.stop := by
  induction markers generalizing cursor with
  | nil =>
      by_cases short : cursor < range.stop
      · have apart : cursor ≠ range.stop := Nat.ne_of_lt short
        have off : cursor ≠ tiled := Nat.ne_of_lt behind
        simp [segmentsToEnd, markerSegments, short, segmentsTileFrom, SourceRange.isEmpty,
          apart, off]
      · simp [segmentsToEnd, markerSegments, short, segmentsTileFrom]
        omega
  | cons planned rest ih =>
      rw [segmentsToEnd_cons]
      split
      · exact ih behind
      · rw [segmentsTileFrom_append]
        intro tiles
        obtain ⟨next, own, later⟩ := Option.bind_eq_some_iff.mp tiles
        obtain ⟨rfl, further⟩ := ownSegments_behind (.inl behind) (Nat.le_of_lt behind) own
        exact ih further later

/-- The segments from a cursor reach the end of the line exactly when the markers are in order,
by induction on them.
-/
theorem segmentsToEnd_tile_iff {markers : List ProjectedMarker} {cursor : Nat}
    : segmentsTileFrom cursor (segmentsToEnd range source disclosure cursor markers)
        = some range.stop
      ↔ InOrder range cursor markers := by
  induction markers generalizing cursor with
  | nil =>
      by_cases short : cursor < range.stop
      · simp [segmentsToEnd, markerSegments, short, segmentsTileFrom, SourceRange.isEmpty,
          InOrder]
        omega
      · simp [segmentsToEnd, markerSegments, short, segmentsTileFrom, InOrder]
        omega
  | cons planned rest ih =>
      rw [segmentsToEnd_cons, InOrder]
      split
      · exact ih
      · rw [segmentsTileFrom_append]
        by_cases ahead : cursor ≤ planned.range.start
        · rw [ownSegments_tile ahead, Option.bind_some, ih]
          simp [ahead]
        · refine iff_of_false ?_ (by simp [ahead])
          intro tiles
          obtain ⟨next, own, later⟩ := Option.bind_eq_some_iff.mp tiles
          obtain ⟨rfl, further⟩ :=
            ownSegments_behind (.inr (Nat.lt_of_not_le ahead)) (Nat.le_refl _) own
          exact segmentsToEnd_behind further later

/-- No segment comes from markers that leave the line, by induction on them. -/
theorem markerSegments_nil_iff {markers : List ProjectedMarker} {cursor : Nat}
    : (markerSegments range source disclosure cursor markers).1 = []
      ↔ ∀ planned ∈ markers, planned.range.stop > range.stop := by
  induction markers generalizing cursor with
  | nil => simp [markerSegments]
  | cons planned rest ih =>
      by_cases leaves : planned.range.stop > range.stop
      · simp [markerSegments, leaves, ih]
      · simp [markerSegments, leaves]

theorem markerSegments_cursor {markers : List ProjectedMarker} {cursor : Nat}
    (leave : ∀ planned ∈ markers, planned.range.stop > range.stop)
    : markerSegments range source disclosure cursor markers = ([], cursor) := by
  induction markers with
  | nil => rfl
  | cons planned rest ih =>
      rw [markerSegments, if_pos (leave planned List.mem_cons_self)]
      exact ih fun found member => leave found (List.mem_cons_of_mem _ member)

variable (range source disclosure) in
theorem segmentsTileRange_iff {markers : List ProjectedMarker}
    : segmentsTileRange range (lineSegments range source disclosure markers) = true
      ↔ MarkersFit range markers := by
  unfold segmentsTileRange MarkersFit
  rw [beq_iff_eq]
  by_cases leave : ∀ planned ∈ markers, planned.range.stop > range.stop
  · refine iff_of_true ?_ (.inl leave)
    unfold lineSegments
    rw [markerSegments_cursor leave]
    by_cases short : range.start < range.stop
    · simp [short, segmentsTileFrom, SourceRange.isEmpty]
    · by_cases level : range.start = range.stop
      · simp [segmentsTileFrom, SourceRange.isEmpty, level]
      · simp [short, segmentsTileFrom, SourceRange.isEmpty, level]
  · have used : (markerSegments range source disclosure range.start markers).1 ≠ [] :=
      mt markerSegments_nil_iff.mp leave
    have whole : lineSegments range source disclosure markers
        = segmentsToEnd range source disclosure range.start markers := by
      simp [lineSegments, segmentsToEnd, used]
    rw [whole, segmentsToEnd_tile_iff]
    simp only [leave, false_or]

end

-- Line by line

/-- A plan shows the line's source: it is a rule, or its markers fit on the line. -/
def LinePlan.Shows (plan : LinePlan) (range : SourceRange) : Prop :=
  plan.kind = .rule ∨ MarkersFit range plan.markers

theorem presentMarkdownFromParse_disclosure (lineId revision : Nat) (range : SourceRange)
    (source : Text) (disclosure : Option SourceRange) (plan : LinePlan)
    : (presentMarkdownFromParse lineId revision range source disclosure plan).disclosure
        = disclosure
      ↔ disclosure = none ∨ (source ≠ [] ∧ plan.Shows range) := by
  unfold presentMarkdownFromParse LinePlan.Shows
  rw [← segmentsTileRange_iff range source disclosure]
  have lost : none = disclosure ↔ disclosure = none := eq_comm
  cases source with
  | nil => simp [presentPlain, lost]
  | cons c rest =>
      by_cases rule : plan.kind = .rule
      · simp [rule, presentRuleLine]
      · cases tiled : segmentsTileRange range
            (lineSegments range (c :: rest) disclosure plan.markers) with
        | true => simp [rule]
        | false => simp [rule, presentRawSource, presentPlain, lost]

@[simp] theorem presentMarkdownFromParse_lineId (lineId revision : Nat) (range : SourceRange)
    (source : Text) (disclosure : Option SourceRange) (plan : LinePlan)
    : (presentMarkdownFromParse lineId revision range source disclosure plan).lineId
      = lineId := by
  unfold presentMarkdownFromParse
  repeat' split
  all_goals rfl

section
variable {Joined : Type} (parser : LineParser Joined) (revision : Nat)

@[simp] theorem presentPolishedLine_lineId (line : BlockLine) (context : LineContext)
    : (presentPolishedLine parser revision line context).lineId = line.line := by
  simp only [presentPolishedLine, presentMarkdownWithListProjection]
  repeat' split
  all_goals first | rfl | exact presentMarkdownFromParse_lineId ..

/-- A line presented by itself carries its own disclosure: it has none, or it is shown as
Markdown, which leaves out code, images that are not edited, table rows that are not edited and
empty lines, and its plan shows its source.
-/
def CarriesOwn (line : BlockLine) (context : LineContext) : Prop :=
  line.disclosure = none
  ∨ (context ≠ .fencedCode
    ∧ inactiveStandaloneImage line.text line.range line.disclosure = none
    ∧ (context = .table →
      line.disclosure.any (disclosureOwnsPhysicalLine line.range line.text) = true)
    ∧ line.text ≠ []
    ∧ (parser.plan (parser.parseDocument revision line.range line.text) line.range).Shows
        line.range)

theorem presentPolishedLine_disclosure (line : BlockLine) (context : LineContext)
    : (presentPolishedLine parser revision line context).disclosure = line.disclosure
      ↔ CarriesOwn parser revision line context := by
  have lost : none = line.disclosure ↔ line.disclosure = none := eq_comm
  unfold CarriesOwn presentPolishedLine
  by_cases code : context = .fencedCode
  · simp [code, presentFencedCodeLine, presentPlain, lost]
  simp only [code, if_false, ne_eq, not_false_eq_true, true_and]
  cases image : inactiveStandaloneImage line.text line.range line.disclosure with
  | some image => simp [presentImage, presentPlain, lost]
  | none =>
      simp only [Option.isSome_none, Bool.false_eq_true, if_false, true_and]
      by_cases row : context = .table
          ∧ line.disclosure.all
              (fun active => !disclosureOwnsPhysicalLine line.range line.text active) = true
      · -- A row that is not edited shows its cells.
        rw [if_pos row]
        obtain ⟨table, closed⟩ := row
        cases own : line.disclosure with
        | none => simp [presentTableLine, presentPlain]
        | some active =>
            rw [own] at closed
            simp only [Option.all_some, Bool.not_eq_eq_eq_not, Bool.not_true] at closed
            simp [presentTableLine, presentPlain, table, closed]
      · rw [if_neg row]
        have edited : line.disclosure = none
            ∨ (context = .table
              → line.disclosure.any (disclosureOwnsPhysicalLine line.range line.text) = true) := by
          cases own : line.disclosure with
          | none => exact .inl rfl
          | some active =>
              rw [own] at row
              refine .inr fun table => ?_
              simpa [table] using row
        have shown : (presentMarkdownWithListProjection parser line.line revision line.range
              line.text line.disclosure).disclosure = line.disclosure
            ↔ line.disclosure = none
              ∨ (line.text ≠ []
                ∧ (parser.plan (parser.parseDocument revision line.range line.text)
                    line.range).Shows line.range) := by
          unfold presentMarkdownWithListProjection
          cases text : line.text with
          | nil => simp [presentPlain, lost]
          | cons c rest =>
              rw [if_neg (by simp)]
              exact presentMarkdownFromParse_disclosure ..
        refine shown.trans ?_
        rcases edited with closed | edited
        · simp [closed]
        · tauto

/-- A line presented with its run carries the run's disclosure: it expects none of it, there is
none, or its plan shows its source.
-/
def BlockWindow.CarriesShared (window : BlockWindow Joined) (run : List BlockLine)
    (line : BlockLine) : Prop :=
  line.text = []
  ∨ (inactiveStandaloneImage line.text line.range line.disclosure).isSome = true
  ∨ joinedRunDisclosure run window.blockDisclosure = none
  ∨ (parser.plan (window.joined.getD (parser.parseJoinedBlock revision run)) line.range).Shows
      line.range

namespace BlockWindow

@[simp] theorem presentJoinedLine_lineId (joined : Joined) (disclosure : Option SourceRange)
    (line : BlockLine)
    : (presentJoinedLine parser revision joined disclosure line).lineId = line.line := by
  simp only [presentJoinedLine]
  split
  · rfl
  · exact presentMarkdownFromParse_lineId ..

variable (window : BlockWindow Joined) (run : List BlockLine) (line : BlockLine)

theorem presentJoinedLine_disclosure
    (shared : runUsesSharedParse run.length window.joined = true)
    : window.expectedDisclosure run line
        = (presentJoinedLine parser revision
            (window.joined.getD (parser.parseJoinedBlock revision run))
            (joinedRunDisclosure run window.blockDisclosure) line).disclosure
      ↔ window.CarriesShared parser revision run line := by
  unfold expectedDisclosure presentJoinedLine CarriesShared
  rw [eq_comm]
  cases image : inactiveStandaloneImage line.text line.range line.disclosure with
  | some image => simp [shared, presentImage, presentPlain]
  | none =>
      cases text : line.text with
      | nil => simp [shared, presentMarkdownFromParse, presentPlain]
      | cons c rest =>
          simp only [shared, List.isEmpty_cons, Bool.not_false, Bool.and_self, if_true,
            Option.isNone_none, Option.isSome_none, Bool.false_eq_true, if_false, false_or,
            reduceCtorEq]
          refine (presentMarkdownFromParse_disclosure ..).trans ?_
          simp

end BlockWindow

end

-- Run by run

namespace BlockWindow

variable {Joined : Type}

/-- Every run has a line, by induction on the runs. -/
theorem ne_nil_of_mem_runsFrom {blockKind : NodeKind} {window : BlockWindow Joined}
    {lines : List BlockLine}
    : ∀ run ∈ window.runsFrom blockKind lines, run ≠ [] := by
  induction lines using runsFrom.induct blockKind window with
  | case1 => simp [runsFrom]
  | case2 line rest joins further ih =>
      intro run member
      rw [runsFrom] at member
      rcases List.mem_cons.mp member with rfl | later
      · exact List.cons_ne_nil _ _
      · exact ih run later

theorem eq_singleton_of_alone {window : BlockWindow Joined} {run : List BlockLine}
    (filled : run ≠ []) (alone : runUsesSharedParse run.length window.joined = false)
    : ∃ line, run = [line] := by
  simp only [runUsesSharedParse, Bool.or_eq_false_iff, decide_eq_false_iff_not] at alone
  have length : run.length = 1 := by
    have positive := List.length_pos_iff.mpr filled
    omega
  exact List.length_eq_one_iff.mp length

/-- Whether a rendered line of a run carries the disclosure that is expected of it: the run's
where the run shares a parse, its own elsewhere.
-/
def Carries (parser : LineParser Joined) (blockKind : NodeKind) (revision : Nat)
    (window : BlockWindow Joined) (run : List BlockLine) (line : BlockLine) : Prop :=
  if runUsesSharedParse run.length window.joined then
    window.CarriesShared parser revision run line
  else
    CarriesOwn parser revision line (window.lineContext blockKind line)

theorem presentRun_disclosures (parser : LineParser Joined) (blockKind : NodeKind)
    (revision : Nat) (window : BlockWindow Joined) {run : List BlockLine} (filled : run ≠ [])
    : ((run.filter fun line => window.render.contains line.line).map fun line =>
          (line.line, window.expectedDisclosure run line))
        = (window.presentRun parser blockKind revision run).map
            (fun line => (line.lineId, line.disclosure))
      ↔ ∀ line ∈ run,
          window.render.contains line.line = true
            → window.Carries parser blockKind revision run line := by
  unfold presentRun Carries
  cases shared : runUsesSharedParse run.length window.joined with
  | true =>
      simp only [if_true, presentJoinedRun, List.map_map, List.map_inj_left,
        List.mem_filter, and_imp]
      refine forall₃_congr fun line member rendered => ?_
      rw [← presentJoinedLine_disclosure parser revision window run line shared]
      simp
  | false =>
      obtain ⟨line, rfl⟩ := eq_singleton_of_alone filled shared
      have own : window.expectedDisclosure [line] line = line.disclosure := by
        simp only [expectedDisclosure, shared, Bool.false_and, Bool.false_eq_true, if_false]
      simp only [Bool.false_eq_true, if_false, List.head?_cons, Option.toList_some,
        List.map_map, List.map_inj_left, List.mem_filter, and_imp]
      refine forall₃_congr fun found member rendered => ?_
      obtain rfl := List.mem_singleton.mp member
      rw [own, ← presentPolishedLine_disclosure parser revision found]
      simp [eq_comm]

theorem presentRun_length (parser : LineParser Joined) (blockKind : NodeKind)
    (revision : Nat) (window : BlockWindow Joined) {run : List BlockLine} (filled : run ≠ [])
    : (window.presentRun parser blockKind revision run).length
      = (run.filter fun line => window.render.contains line.line).length := by
  unfold presentRun
  cases shared : runUsesSharedParse run.length window.joined with
  | true => simp [presentJoinedRun]
  | false =>
      obtain ⟨line, rfl⟩ := eq_singleton_of_alone filled shared
      simp

end BlockWindow

/-- The expected disclosures are those the presented lines carry, line by line, exactly when
every rendered line carries what is expected of it.
-/
theorem expectedDisclosures_iff {Joined : Type} (parser : LineParser Joined)
    (blockKind : NodeKind) (revision : Nat) (window : BlockWindow Joined)
    : window.expectedDisclosures blockKind
        = (presentBlock parser blockKind revision window).lines.map
            (fun line => (line.lineId, line.disclosure))
      ↔ ∀ run ∈ window.disclosureRuns blockKind,
          ∀ line ∈ run,
            window.render.contains line.line = true
              → window.Carries parser blockKind revision run line := by
  simp only [BlockWindow.expectedDisclosures, presentBlock, List.map_flatMap]
  have filled : ∀ run ∈ window.disclosureRuns blockKind, run ≠ [] :=
    BlockWindow.ne_nil_of_mem_runsFrom
  rw [flatMap_eq_flatMap_iff]
  · exact forall₂_congr fun run member =>
      window.presentRun_disclosures parser blockKind revision (filled run member)
  · intro run member
    simp only [List.length_map]
    exact (window.presentRun_length parser blockKind revision (filled run member)).symm

-- A caret in a code block

/-- A fenced code block of one line of code, with the caret in that line. -/
private def codeWindow : BlockWindow Unit where
  span := ⟨0, 3⟩
  trailingBlankLines := 0
  lines :=
    [⟨0, ⟨0, 4⟩, ['~', '~', '~', '\n'], none⟩,
      ⟨1, ⟨4, 6⟩, ['x', '\n'], some ⟨5, 5⟩⟩,
      ⟨2, ⟨6, 10⟩, ['~', '~', '~', '\n'], none⟩]
  render := ⟨0, 3⟩
  joined := none
  blockDisclosure := some ⟨5, 5⟩

/-- The line that holds the caret is expected to disclose it, and is presented without: the
cached block never matches what is expected of it.
-/
theorem expectedDisclosures_code
    : codeWindow.expectedDisclosures .codeBlock = [(0, none), (1, some ⟨5, 5⟩), (2, none)]
      ∧ ∀ (parser : LineParser Unit) (revision : Nat),
          (presentBlock parser .codeBlock revision codeWindow).lines.map
              (fun line => (line.lineId, line.disclosure))
            = [(0, none), (1, none), (2, none)] := by
  constructor
  · decide +kernel
  · intro parser revision
    have runs : codeWindow.disclosureRuns .codeBlock = codeWindow.lines.map fun line => [line] := by
      decide +kernel
    simp only [presentBlock, runs]
    rfl

end Hane.Presentation
