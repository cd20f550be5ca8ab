import Hane.Document.Boundaries
import Hane.Foundations.Checked

/-! Planning the replacement of every match of a source-ordered list by one covering edit: from
the start of the first match that changes to the end of the last one.
-/

namespace Hane.Editing

open Hane.Document Hane.Foundations

/-- Why a replace plan could not be built. -/
inductive ReplacePlanError where
  | invalidMatches
  | sizeOverflow
  | cancelled
  | buffer (problem : BufferError)
deriving DecidableEq

/-- A prepared, not yet applied replacement of every changed match. -/
structure ReplacePlan where
  matched : Nat
  changed : Nat
  sourceLen : Nat
  range : Option SourceRange
  replacement : Text
  insertedBytes : Nat
  deletedBytes : Nat
deriving DecidableEq

def ReplacePlan.resultLen (plan : ReplacePlan) : Nat :=
  plan.sourceLen - plan.deletedBytes + plan.insertedBytes

def cancelPollInterval : Nat := 1024

/-- Planning may also stop at an allocation no machine can address. -/
abbrev Planning := Checked ReplacePlanError

def checkedAdd (left right : Nat) : Planning Nat :=
  if left + right < 2 ^ 64 then .ok (left + right) else .error (.refused .sizeOverflow)

def checkedSub (left right : Nat) (problem : ReplacePlanError) : Planning Nat :=
  if right ≤ left then .ok (left - right) else .error (.refused problem)

/-- `String::with_capacity`, which panics above `isize::MAX`. -/
def withCapacity (capacity : Nat) : Planning Text :=
  if capacity < 2 ^ 63 then .ok [] else .error .overflow

/-- The answers of `is_cancelled` in the order it is asked. -/
abbrev Cancellation := Nat → Bool

/-- Every `cancelPollInterval`th index asks whether to stop, and counts the question. -/
def pollAt (isCancelled : Cancellation) (index polls : Nat) : Planning Nat :=
  if index &&& (cancelPollInterval - 1) = 0 then
    if isCancelled polls then .error (.refused .cancelled) else .ok (polls + 1)
  else
    .ok polls

/-- What the first loop carries from match to match. -/
structure MatchScan where
  previousEnd : Nat
  changedRanges : List SourceRange
  polls : Nat

def isUnchanged (buffer : RopeBuffer) (replacement : Text) (range : SourceRange)
    : Except BufferError Bool :=
  if range.lenBytes = utf8Len replacement then do
    let content ← buffer.text range
    return decide (content = replacement)
  else
    return false

def scanMatch (buffer : RopeBuffer) (replacement : Text) (isCancelled : Cancellation)
    (index : Nat) (range : SourceRange) (scan : MatchScan) : Planning MatchScan := do
  let polls ← pollAt isCancelled index scan.polls
  if range.start > range.stop ∨ range.start < scan.previousEnd then
    throw (.refused .invalidMatches)
  refusing ((buffer.validateRange range).mapError .buffer)
  refusing ((buffer.validateOffset range.start).mapError .buffer)
  refusing ((buffer.validateOffset range.stop).mapError .buffer)
  let unchanged ← refusing ((isUnchanged buffer replacement range).mapError .buffer)
  return {
    previousEnd := range.stop
    changedRanges :=
      if unchanged then scan.changedRanges else scan.changedRanges ++ [range]
    polls }

def scanMatches (buffer : RopeBuffer) (replacement : Text) (isCancelled : Cancellation)
    : Nat → List SourceRange → MatchScan → Planning MatchScan
  | _, [], scan => return scan
  | index, range :: rest, scan => do
      let scan ← scanMatch buffer replacement isCancelled index range scan
      scanMatches buffer replacement isCancelled (index + 1) rest scan

def addSizes (replacement : Text) : List SourceRange → Nat → Nat → Planning (Nat × Nat)
  | [], deleted, inserted => return (deleted, inserted)
  | range :: rest, deleted, inserted => do
      let deleted ← checkedAdd deleted range.lenBytes
      let inserted ← checkedAdd inserted (utf8Len replacement)
      addSizes replacement rest deleted inserted

/-- What the second loop carries: the text written so far and where its source ends. -/
structure Assembly where
  cursor : Nat
  output : Text
  polls : Nat

/-- The source text between the cursor and a match. -/
def gapBefore (buffer : RopeBuffer) (cursor : Nat) (range : SourceRange) : Planning Text :=
  if range.start > cursor then
    refusing ((buffer.text ⟨cursor, range.start⟩).mapError .buffer)
  else
    return []

def assembleMatch (buffer : RopeBuffer) (replacement : Text) (isCancelled : Cancellation)
    (index : Nat) (range : SourceRange) (done : Assembly) : Planning Assembly := do
  let polls ← pollAt isCancelled index done.polls
  let gap ← gapBefore buffer done.cursor range
  return { cursor := range.stop, output := done.output ++ gap ++ replacement, polls }

def assemble (buffer : RopeBuffer) (replacement : Text) (isCancelled : Cancellation)
    : Nat → List SourceRange → Assembly → Planning Assembly
  | _, [], done => return done
  | index, range :: rest, done => do
      let done ← assembleMatch buffer replacement isCancelled index range done
      assemble buffer replacement isCancelled (index + 1) rest done

/-- The covering edit of the changed matches, from the first of them to the last. -/
def planChanged (buffer : RopeBuffer) (replacement : Text) (isCancelled : Cancellation)
    (matched : Nat) (scan : MatchScan) (first last : SourceRange) : Planning ReplacePlan := do
  let sourceLen := buffer.lenBytes
  let span : SourceRange := ⟨first.start, last.stop⟩
  let (deletedBytes, insertedBytes) ← addSizes replacement scan.changedRanges 0 0
  let gapBytes ← checkedSub span.lenBytes deletedBytes .invalidMatches
  let capacity ← checkedAdd gapBytes insertedBytes
  let kept ← checkedSub sourceLen deletedBytes .sizeOverflow
  let _ ← checkedAdd kept insertedBytes
  let output ← withCapacity capacity
  let done ← assemble buffer replacement isCancelled 0 scan.changedRanges
    ⟨span.start, output, scan.polls⟩
  return {
    matched
    changed := scan.changedRanges.length
    sourceLen
    range := some span
    replacement := done.output
    insertedBytes
    deletedBytes }

/-- Plans replacing every range of `ranges` with `replacement`. -/
def planReplaceAll (buffer : RopeBuffer) (ranges : List SourceRange) (replacement : Text)
    (isCancelled : Cancellation) : Planning ReplacePlan := do
  let scan ← scanMatches buffer replacement isCancelled 0 ranges ⟨0, [], 0⟩
  match scan.changedRanges.head?, scan.changedRanges.getLast? with
  | some first, some last =>
      planChanged buffer replacement isCancelled ranges.length scan first last
  | _, _ =>
      return {
        matched := ranges.length
        changed := 0
        sourceLen := buffer.lenBytes
        range := none
        replacement := []
        insertedBytes := 0
        deletedBytes := 0 }

-- Asking whether to stop

/-- How often a loop over these many indices asks whether to stop. -/
def pollsIn (count : Nat) : Nat := (count + (cancelPollInterval - 1)) / cancelPollInterval

/-- The answers from one question up to another all say to go on. -/
def GoesOn (isCancelled : Cancellation) (first last : Nat) : Prop :=
  ∀ poll, first ≤ poll → poll < last → isCancelled poll = false

theorem GoesOn.refl (isCancelled : Cancellation) (poll : Nat)
    : GoesOn isCancelled poll poll := by
  intro other above below
  omega

theorem goesOn_append_iff (isCancelled : Cancellation) {first middle last : Nat}
    (lower : first ≤ middle) (upper : middle ≤ last)
    : GoesOn isCancelled first last
      ↔ GoesOn isCancelled first middle ∧ GoesOn isCancelled middle last := by
  constructor
  · intro goesOn
    exact ⟨fun poll above below => goesOn poll above (by omega),
      fun poll above below => goesOn poll (by omega) below⟩
  · rintro ⟨early, late⟩ poll above below
    rcases Nat.lt_or_ge poll middle with before | behind
    · exact early poll above before
    · exact late poll behind below

/-- One index asks as many questions as the count grows by. -/
theorem pollAt_ok_iff (isCancelled : Cancellation) (index base next : Nat)
    : pollAt isCancelled index (base + pollsIn index) = .ok next
      ↔ next = base + pollsIn (index + 1)
        ∧ GoesOn isCancelled (base + pollsIn index) (base + pollsIn (index + 1)) := by
  have asks : index &&& (cancelPollInterval - 1) = index % 1024 :=
    Nat.and_two_pow_sub_one_eq_mod index 10
  rw [pollAt, asks]
  by_cases divides : index % 1024 = 0
  · have grows : pollsIn (index + 1) = pollsIn index + 1 := by
      simp only [pollsIn, cancelPollInterval]
      omega
    rw [if_pos divides, grows]
    cases answer : isCancelled (base + pollsIn index) with
    | true =>
        constructor
        · intro stopped
          cases stopped
        · rintro ⟨_, goesOn⟩
          have asked := goesOn (base + pollsIn index) (by omega) (by omega)
          rw [answer] at asked
          cases asked
    | false =>
        constructor
        · intro counted
          cases counted
          refine ⟨rfl, ?_⟩
          intro poll above below
          obtain rfl : poll = base + pollsIn index := by omega
          exact answer
        · rintro ⟨rfl, _⟩
          rfl
  · have same : pollsIn (index + 1) = pollsIn index := by
      simp only [pollsIn, cancelPollInterval]
      omega
    rw [if_neg divides, same]
    constructor
    · intro counted
      cases counted
      exact ⟨rfl, GoesOn.refl _ _⟩
    · rintro ⟨rfl, _⟩
      rfl

theorem pollsIn_mono {first last : Nat} (ordered : first ≤ last)
    : pollsIn first ≤ pollsIn last := by
  simp only [pollsIn, cancelPollInterval]
  omega

-- The first loop

/-- The ranges are valid for the text and none starts before the end of the one before it. -/
def OrderedFrom (text : Text) : Nat → List SourceRange → Prop
  | _, [] => True
  | previousEnd, range :: rest =>
      previousEnd ≤ range.start ∧ range.start ≤ range.stop
      ∧ Boundary text range.start ∧ Boundary text range.stop
      ∧ OrderedFrom text range.stop rest

theorem OrderedFrom.weaken {text : Text} {earlier previousEnd : Nat} {ranges : List SourceRange}
    (ordered : OrderedFrom text previousEnd ranges) (lower : earlier ≤ previousEnd)
    : OrderedFrom text earlier ranges := by
  cases ranges with
  | nil => trivial
  | cons range rest =>
      obtain ⟨behind, others⟩ := ordered
      exact ⟨by omega, others⟩

/-- Order from match to match is order between all of them, by induction on the list. -/
theorem orderedFrom_iff (buffer : RopeBuffer) (previousEnd : Nat) (ranges : List SourceRange)
    : OrderedFrom buffer.rope previousEnd ranges
      ↔ (∀ range ∈ ranges, previousEnd ≤ range.start)
        ∧ (∀ range ∈ ranges, buffer.validateRange range = .ok ())
        ∧ ranges.Pairwise (fun left right => left.stop ≤ right.start) := by
  induction ranges generalizing previousEnd with
  | nil => simp [OrderedFrom]
  | cons range rest ih =>
      simp only [OrderedFrom, ih, List.mem_cons, forall_eq_or_imp, List.pairwise_cons,
        RopeBuffer.validateRange_ok_iff]
      constructor
      · rintro ⟨behind, ordered, first, last, later, valid, pairwise⟩
        refine ⟨⟨behind, ?_⟩, ⟨⟨ordered, first, last⟩, valid⟩, later, pairwise⟩
        intro other member
        have follows := later other member
        omega
      · rintro ⟨⟨behind, _⟩, ⟨⟨ordered, first, last⟩, valid⟩, later, pairwise⟩
        exact ⟨behind, ordered, first, last, later, valid, pairwise⟩

def differs (text replacement : Text) (range : SourceRange) : Bool :=
  decide (substring text range.start range.stop ≠ replacement)

section Scanning

variable (buffer : RopeBuffer) (replacement : Text) (isCancelled : Cancellation)

/-- Texts of different lengths differ, so comparing lengths first changes nothing. -/
theorem isUnchanged_eq {range : SourceRange} (ordered : range.start ≤ range.stop)
    (first : Boundary buffer.rope range.start) (last : Boundary buffer.rope range.stop)
    : isUnchanged buffer replacement range
      = .ok (!differs buffer.rope replacement range) := by
  have size := utf8Len_substring first last ordered
  have read := RopeBuffer.text_eq ordered first last
  unfold isUnchanged differs
  split
  · rw [read]
    by_cases same : substring buffer.rope range.start range.stop = replacement
    · simp [same, bind, Except.bind, pure, Except.pure]
    · simp [same, bind, Except.bind, pure, Except.pure]
  · rename_i lengths
    have other : substring buffer.rope range.start range.stop ≠ replacement := by
      rintro rfl
      simp only [SourceRange.lenBytes] at lengths
      omega
    simp [other, pure, Except.pure]

theorem scanMatch_ok_iff (base index previousEnd : Nat) (changed : List SourceRange)
    (range : SourceRange) (next : MatchScan)
    : scanMatch buffer replacement isCancelled index range
          ⟨previousEnd, changed, base + pollsIn index⟩
        = .ok next
      ↔ (previousEnd ≤ range.start ∧ range.start ≤ range.stop
          ∧ Boundary buffer.rope range.start ∧ Boundary buffer.rope range.stop)
        ∧ GoesOn isCancelled (base + pollsIn index) (base + pollsIn (index + 1))
        ∧ next = ⟨range.stop,
            changed ++ [range].filter (differs buffer.rope replacement),
            base + pollsIn (index + 1)⟩ := by
  have kept : ∀ unchanged : Bool, unchanged = !differs buffer.rope replacement range →
      (if unchanged = true then changed else changed ++ [range])
        = changed ++ [range].filter (differs buffer.rope replacement) := by
    rintro _ rfl
    cases different : differs buffer.rope replacement range <;> simp [different]
  unfold scanMatch
  simp only [except_bind_ok_iff, pollAt_ok_iff, except_guard_ok_iff, refusing_ok_iff,
    except_mapError_ok_iff, pure, Except.pure, Except.ok.injEq]
  constructor
  · rintro ⟨_, ⟨rfl, goesOn⟩, inOrder, _, valid, _, _, _, _, unchanged, compared, rfl⟩
    obtain ⟨ordered, first, last⟩ := (RopeBuffer.validateRange_ok_iff _ _).mp valid
    rw [isUnchanged_eq buffer replacement ordered first last] at compared
    refine ⟨⟨by omega, ordered, first, last⟩, goesOn, ?_⟩
    rw [kept unchanged (Except.ok.inj compared).symm]
  · rintro ⟨⟨behind, ordered, first, last⟩, goesOn, rfl⟩
    refine ⟨_, ⟨rfl, goesOn⟩, by omega, (), ?_, (), ?_, (), ?_,
      !differs buffer.rope replacement range, ?_, ?_⟩
    · exact (RopeBuffer.validateRange_ok_iff _ _).mpr ⟨ordered, first, last⟩
    · exact (RopeBuffer.validateOffset_ok_iff _ _).mpr first
    · exact (RopeBuffer.validateOffset_ok_iff _ _).mpr last
    · exact isUnchanged_eq buffer replacement ordered first last
    · rw [kept _ rfl]

def lastEnd (previousEnd : Nat) (ranges : List SourceRange) : Nat :=
  ranges.foldl (fun _ range => range.stop) previousEnd

/-- The first loop collects the matches that change, by induction on the matches. -/
theorem scanMatches_ok_iff (base index previousEnd : Nat) (changed ranges : List SourceRange)
    (next : MatchScan)
    : scanMatches buffer replacement isCancelled index ranges
          ⟨previousEnd, changed, base + pollsIn index⟩
        = .ok next
      ↔ OrderedFrom buffer.rope previousEnd ranges
        ∧ GoesOn isCancelled (base + pollsIn index) (base + pollsIn (index + ranges.length))
        ∧ next = ⟨lastEnd previousEnd ranges,
            changed ++ ranges.filter (differs buffer.rope replacement),
            base + pollsIn (index + ranges.length)⟩ := by
  induction ranges generalizing index previousEnd changed with
  | nil =>
      have goesOn := GoesOn.refl isCancelled (base + pollsIn index)
      simp [scanMatches, OrderedFrom, lastEnd, goesOn, pure, Except.pure, eq_comm]
  | cons range rest ih =>
      have early := pollsIn_mono (Nat.le_add_right index 1)
      have late := pollsIn_mono (by omega : index + 1 ≤ index + 1 + rest.length)
      have split := goesOn_append_iff isCancelled
        (Nat.add_le_add_left early base) (Nat.add_le_add_left late base)
      have cut : (range :: rest).filter (differs buffer.rope replacement)
          = [range].filter (differs buffer.rope replacement)
            ++ rest.filter (differs buffer.rope replacement) :=
        List.filter_append [range] rest
      simp only [scanMatches, except_bind_ok_iff, scanMatch_ok_iff, OrderedFrom, lastEnd,
        List.foldl_cons, List.length_cons, ← Nat.add_assoc, Nat.add_right_comm index _ 1]
      rw [split, cut, ← List.append_assoc]
      constructor
      · rintro ⟨_, ⟨valid, first, rfl⟩, rest⟩
        obtain ⟨ordered, later, rfl⟩ := (ih (index + 1) range.stop _).mp rest
        exact ⟨by tauto, ⟨first, later⟩, rfl⟩
      · rintro ⟨⟨behind, ordered, starts, stops, rest⟩, ⟨first, later⟩, rfl⟩
        exact ⟨_, ⟨⟨behind, ordered, starts, stops⟩, first, rfl⟩,
          (ih (index + 1) range.stop _).mpr ⟨rest, later, rfl⟩⟩

end Scanning

-- Replacing every range independently

/-- The text with the replacement in place of every range and everything else kept. -/
def substitute (text replacement : Text) : Nat → List SourceRange → Text
  | position, [] => substring text position (utf8Len text)
  | position, range :: rest =>
      substring text position range.start ++ replacement
        ++ substitute text replacement range.stop rest

/-- The replaced ranges with the gaps in front of them. -/
def spliced (text replacement : Text) : Nat → List SourceRange → Text
  | _, [] => []
  | position, range :: rest =>
      substring text position range.start ++ replacement
        ++ spliced text replacement range.stop rest

section Substituting

variable {text : Text} (replacement : Text)

theorem substitute_eq (position : Nat) (ranges : List SourceRange)
    : substitute text replacement position ranges
      = spliced text replacement position ranges
        ++ substring text (lastEnd position ranges) (utf8Len text) := by
  induction ranges generalizing position with
  | nil => rfl
  | cons range rest ih =>
      simp only [substitute, spliced, ih range.stop, List.append_assoc]
      rfl

theorem substring_append_substitute {position middle : Nat} {ranges : List SourceRange}
    (first : Boundary text position) (second : Boundary text middle) (ordered : position ≤ middle)
    (behind : OrderedFrom text middle ranges)
    : substring text position middle ++ substitute text replacement middle ranges
      = substitute text replacement position ranges := by
  cases ranges with
  | nil =>
      exact substring_append_substring first second (Boundary.utf8Len text) ordered second.le
  | cons range rest =>
      obtain ⟨follows, _, starts, _, _⟩ := behind
      have gap := substring_append_substring first second starts ordered follows
      simp only [substitute, ← gap, List.append_assoc]

/-- Ranges that read as the replacement already may be left out, by induction on the ranges. -/
theorem substitute_filter {position : Nat} {ranges : List SourceRange}
    (first : Boundary text position) (ordered : OrderedFrom text position ranges)
    : OrderedFrom text position (ranges.filter (differs text replacement))
      ∧ substitute text replacement position (ranges.filter (differs text replacement))
        = substitute text replacement position ranges := by
  induction ranges generalizing position with
  | nil => exact ⟨ordered, rfl⟩
  | cons range rest ih =>
      obtain ⟨behind, forward, starts, stops, later⟩ := ordered
      obtain ⟨kept, same⟩ := ih stops later
      cases different : differs text replacement range with
      | true =>
          rw [List.filter_cons_of_pos different]
          refine ⟨⟨behind, forward, starts, stops, kept⟩, ?_⟩
          simp only [substitute, same]
      | false =>
          have reads : substring text range.start range.stop = replacement := by
            simpa [differs] using different
          have gap := substring_append_substring first starts stops behind forward
          have whole := substring_append_substitute replacement first stops (by omega) kept
          rw [List.filter_cons_of_neg (by simp [different])]
          refine ⟨kept.weaken (by omega), ?_⟩
          rw [← whole, same, ← gap, reads]
          rfl

def deletedIn (ranges : List SourceRange) : Nat := (ranges.map SourceRange.lenBytes).sum

/-- What the ranges take from the text and what their replacement adds, by induction on the
ranges.
-/
theorem spliced_sizes {position : Nat} {ranges : List SourceRange}
    (first : Boundary text position) (ordered : OrderedFrom text position ranges)
    : Boundary text (lastEnd position ranges)
      ∧ position + deletedIn ranges ≤ lastEnd position ranges
      ∧ position + utf8Len (spliced text replacement position ranges) + deletedIn ranges
        = lastEnd position ranges + ranges.length * utf8Len replacement := by
  induction ranges generalizing position with
  | nil => simp [lastEnd, deletedIn, spliced, first]
  | cons range rest ih =>
      obtain ⟨behind, forward, starts, stops, later⟩ := ordered
      obtain ⟨ends, taken, sizes⟩ := ih stops later
      have gap := utf8Len_substring first starts behind
      have total : lastEnd position (range :: rest) = lastEnd range.stop rest := rfl
      have deleted : deletedIn (range :: rest)
          = (range.stop - range.start) + deletedIn rest := by
        simp [deletedIn, SourceRange.lenBytes]
      rw [total, deleted]
      refine ⟨ends, by omega, ?_⟩
      simp only [spliced, utf8Len_append, List.length_cons, Nat.add_mul, Nat.one_mul]
      omega

theorem utf8Len_substitute {ranges : List SourceRange} (ordered : OrderedFrom text 0 ranges)
    : utf8Len (substitute text replacement 0 ranges)
      = utf8Len text - deletedIn ranges + ranges.length * utf8Len replacement := by
  obtain ⟨ends, taken, sizes⟩ := spliced_sizes replacement (Boundary.zero text) ordered
  have tail := utf8Len_substring ends (Boundary.utf8Len text) ends.le
  rw [substitute_eq, utf8Len_append]
  have inside := ends.le
  omega

end Substituting

-- The second loop

section Assembling

variable (buffer : RopeBuffer) (replacement : Text) (isCancelled : Cancellation)

theorem gapBefore_eq {cursor : Nat} {range : SourceRange}
    (first : Boundary buffer.rope cursor) (starts : Boundary buffer.rope range.start)
    (behind : cursor ≤ range.start)
    : gapBefore buffer cursor range = .ok (substring buffer.rope cursor range.start) := by
  have read := RopeBuffer.text_eq behind first starts
  unfold gapBefore
  split
  · rw [read]
    rfl
  · have same : cursor = range.start := by omega
    rw [← same, substring_self first]
    rfl

theorem assembleMatch_ok_iff (base index : Nat) {cursor : Nat} {range : SourceRange}
    (output : Text) (next : Assembly)
    (first : Boundary buffer.rope cursor) (starts : Boundary buffer.rope range.start)
    (behind : cursor ≤ range.start)
    : assembleMatch buffer replacement isCancelled index range
          ⟨cursor, output, base + pollsIn index⟩
        = .ok next
      ↔ GoesOn isCancelled (base + pollsIn index) (base + pollsIn (index + 1))
        ∧ next = ⟨range.stop,
            output ++ (substring buffer.rope cursor range.start ++ replacement),
            base + pollsIn (index + 1)⟩ := by
  have gap := gapBefore_eq buffer first starts behind
  unfold assembleMatch
  simp only [except_bind_ok_iff, pollAt_ok_iff, gap, pure, Except.pure, Except.ok.injEq]
  constructor
  · rintro ⟨_, ⟨rfl, goesOn⟩, _, rfl, rfl⟩
    exact ⟨goesOn, by rw [List.append_assoc]⟩
  · rintro ⟨goesOn, rfl⟩
    exact ⟨_, ⟨rfl, goesOn⟩, _, rfl, by rw [List.append_assoc]⟩

/-- The second loop writes the replaced ranges and the gaps between them, by induction on the
ranges.
-/
theorem assemble_ok_iff (base index : Nat) {cursor : Nat} {ranges : List SourceRange}
    (output : Text) (next : Assembly)
    (first : Boundary buffer.rope cursor) (ordered : OrderedFrom buffer.rope cursor ranges)
    : assemble buffer replacement isCancelled index ranges
          ⟨cursor, output, base + pollsIn index⟩
        = .ok next
      ↔ GoesOn isCancelled (base + pollsIn index) (base + pollsIn (index + ranges.length))
        ∧ next = ⟨lastEnd cursor ranges,
            output ++ spliced buffer.rope replacement cursor ranges,
            base + pollsIn (index + ranges.length)⟩ := by
  induction ranges generalizing index cursor output with
  | nil =>
      have goesOn := GoesOn.refl isCancelled (base + pollsIn index)
      simp [assemble, lastEnd, spliced, goesOn, pure, Except.pure, eq_comm]
  | cons range rest ih =>
      obtain ⟨behind, _, starts, stops, later⟩ := ordered
      have early := pollsIn_mono (Nat.le_add_right index 1)
      have late := pollsIn_mono (by omega : index + 1 ≤ index + 1 + rest.length)
      have split := goesOn_append_iff isCancelled
        (Nat.add_le_add_left early base) (Nat.add_le_add_left late base)
      simp only [assemble, except_bind_ok_iff,
        assembleMatch_ok_iff buffer replacement isCancelled base index output _ first starts
          behind, spliced, List.length_cons, ← Nat.add_assoc, Nat.add_right_comm index _ 1]
      have joined := List.append_assoc output
        (substring buffer.rope cursor range.start ++ replacement)
        (spliced buffer.rope replacement range.stop rest)
      rw [split, ← joined]
      constructor
      · rintro ⟨_, ⟨asked, rfl⟩, rest⟩
        obtain ⟨more, rfl⟩ := (ih (index + 1) _ stops later).mp rest
        exact ⟨⟨asked, more⟩, rfl⟩
      · rintro ⟨⟨asked, more⟩, rfl⟩
        exact ⟨_, ⟨asked, rfl⟩, (ih (index + 1) _ stops later).mpr ⟨more, rfl⟩⟩

end Assembling

-- The plan

/-- The bytes from the start of the first range to the end of the last one. -/
def spanBytes (ranges : List SourceRange) : Nat :=
  match ranges.head?, ranges.getLast? with
  | some first, some last => last.stop - first.start
  | _, _ => 0

/-- The totals over the changed ranges stay below the word size, and the text to write below the
largest allocation.
-/
structure SizesFit (sourceLen : Nat) (changed : List SourceRange) (replacement : Text) : Prop where
  deleted : deletedIn changed < 2 ^ 64
  inserted : changed.length * utf8Len replacement < 2 ^ 64
  result : sourceLen - deletedIn changed + changed.length * utf8Len replacement < 2 ^ 64
  output : spanBytes changed - deletedIn changed + changed.length * utf8Len replacement < 2 ^ 63

theorem checkedAdd_ok_iff (left right sum : Nat)
    : checkedAdd left right = .ok sum ↔ left + right < 2 ^ 64 ∧ sum = left + right := by
  by_cases small : left + right < 2 ^ 64
  · rw [checkedAdd, if_pos small, Except.ok.injEq]
    exact ⟨fun same => ⟨small, same.symm⟩, fun fits => fits.2.symm⟩
  · rw [checkedAdd, if_neg small]
    exact ⟨(fun wrong => nomatch wrong), fun fits => absurd fits.1 small⟩

/-- Adding up the sizes succeeds when the totals fit, by induction on the ranges. -/
theorem addSizes_ok_iff (replacement : Text) (ranges : List SourceRange)
    {deleted inserted : Nat} (totals : Nat × Nat)
    (smallDeleted : deleted < 2 ^ 64) (smallInserted : inserted < 2 ^ 64)
    : addSizes replacement ranges deleted inserted = .ok totals
      ↔ deleted + deletedIn ranges < 2 ^ 64
        ∧ inserted + ranges.length * utf8Len replacement < 2 ^ 64
        ∧ totals = (deleted + deletedIn ranges,
            inserted + ranges.length * utf8Len replacement) := by
  induction ranges generalizing deleted inserted with
  | nil =>
      simp only [addSizes, deletedIn, List.map_nil, List.sum_nil, List.length_nil, Nat.zero_mul,
        Nat.add_zero, pure, Except.pure, Except.ok.injEq]
      exact ⟨fun same => ⟨smallDeleted, smallInserted, same.symm⟩, fun fits => fits.2.2.symm⟩
  | cons range rest ih =>
      have total : deletedIn (range :: rest) = range.lenBytes + deletedIn rest := by
        simp [deletedIn]
      simp only [addSizes, except_bind_ok_iff, checkedAdd_ok_iff, total, List.length_cons,
        Nat.add_mul, Nat.one_mul]
      constructor
      · rintro ⟨_, ⟨fits, rfl⟩, _, ⟨also, rfl⟩, rest⟩
        obtain ⟨low, high, rfl⟩ := (ih fits also).mp rest
        refine ⟨by omega, by omega, ?_⟩
        congr 1 <;> omega
      · rintro ⟨low, high, rfl⟩
        have fits : deleted + range.lenBytes < 2 ^ 64 := by omega
        have also : inserted + utf8Len replacement < 2 ^ 64 := by omega
        refine ⟨_, ⟨fits, rfl⟩, _, ⟨also, rfl⟩, ?_⟩
        refine (ih fits also).mpr ⟨by omega, by omega, ?_⟩
        congr 1 <;> omega

section Planning

variable (buffer : RopeBuffer) (replacement : Text) (isCancelled : Cancellation)

theorem lastEnd_eq {first last : SourceRange} {rest : List SourceRange} (position : Nat)
    (final : (first :: rest).getLast? = some last)
    : lastEnd position (first :: rest) = last.stop := by
  obtain ⟨front, split⟩ := List.getLast?_eq_some_iff.mp final
  rw [split, lastEnd, List.foldl_append]
  rfl

/-- The plan for changed matches in order. -/
theorem planChanged_ok_iff (matched previousEnd base : Nat) {first last : SourceRange}
    {rest : List SourceRange} (plan : ReplacePlan)
    (final : (first :: rest).getLast? = some last)
    (ordered : OrderedFrom buffer.rope 0 (first :: rest))
    : planChanged buffer replacement isCancelled matched
          ⟨previousEnd, first :: rest, base⟩ first last
        = .ok plan
      ↔ GoesOn isCancelled base (base + pollsIn (first :: rest).length)
        ∧ SizesFit buffer.lenBytes (first :: rest) replacement
        ∧ plan = {
            matched
            changed := (first :: rest).length
            sourceLen := buffer.lenBytes
            range := some ⟨first.start, last.stop⟩
            replacement := spliced buffer.rope replacement first.start (first :: rest)
            insertedBytes := (first :: rest).length * utf8Len replacement
            deletedBytes := deletedIn (first :: rest) } := by
  have inside : OrderedFrom buffer.rope first.start (first :: rest) :=
    ⟨Nat.le_refl _, ordered.2⟩
  have starts := ordered.2.2.1
  have ending := lastEnd_eq first.start final
  obtain ⟨ends, taken, sizes⟩ := spliced_sizes replacement starts inside
  have span : spanBytes (first :: rest) = last.stop - first.start := by
    rw [spanBytes, final]
    rfl
  have within : last.stop ≤ buffer.lenBytes := by
    rw [← ending]
    exact ends.le
  have gap : deletedIn (first :: rest) ≤ last.stop - first.start := by omega
  have whole : deletedIn (first :: rest) ≤ buffer.lenBytes := by omega
  have assembled : ∀ output done,
      assemble buffer replacement isCancelled 0 (first :: rest) ⟨first.start, output, base⟩
        = .ok done
      ↔ GoesOn isCancelled base (base + pollsIn (first :: rest).length)
        ∧ done = ⟨last.stop,
            output ++ spliced buffer.rope replacement first.start (first :: rest),
            base + pollsIn (first :: rest).length⟩ := by
    intro output done
    have written := assemble_ok_iff buffer replacement isCancelled base 0 output done starts inside
    rwa [Nat.zero_add, ending] at written
  have added : ∀ totals, addSizes replacement (first :: rest) 0 0 = .ok totals
      ↔ deletedIn (first :: rest) < 2 ^ 64
        ∧ (first :: rest).length * utf8Len replacement < 2 ^ 64
        ∧ totals = (deletedIn (first :: rest), (first :: rest).length * utf8Len replacement) := by
    intro totals
    have sums := addSizes_ok_iff replacement (first :: rest) totals (Nat.two_pow_pos 64)
      (Nat.two_pow_pos 64)
    simpa only [Nat.zero_add] using sums
  unfold planChanged
  simp only [except_bind_ok_iff, added, checkedAdd_ok_iff, pure, Except.pure, Except.ok.injEq]
  constructor
  · rintro ⟨_, ⟨small, short, rfl⟩, _, gapped, _, ⟨fits, rfl⟩, _, kept, _, ⟨result, rfl⟩,
      output, room, done, written, rfl⟩
    rw [checkedSub, SourceRange.lenBytes, if_pos gap] at gapped
    rw [checkedSub, if_pos whole] at kept
    cases gapped
    cases kept
    rw [withCapacity] at room
    split at room
    · rename_i capacity
      cases room
      obtain ⟨goesOn, rfl⟩ := (assembled [] done).mp written
      exact ⟨goesOn, ⟨small, short, result, by rw [span]; exact capacity⟩, rfl⟩
    · cases room
  · rintro ⟨goesOn, fits, rfl⟩
    have capacity := fits.output
    rw [span] at capacity
    refine ⟨_, ⟨fits.deleted, fits.inserted, rfl⟩, _, if_pos gap, _,
      ⟨Nat.lt_trans capacity (by decide), rfl⟩, _,
      if_pos whole, _, ⟨fits.result, rfl⟩, [], if_pos capacity, _,
      (assembled [] _).mpr ⟨goesOn, rfl⟩, rfl⟩

/-- A plan exists exactly for valid ordered matches whose sizes fit, and is the covering edit of
those that change.
-/
theorem planReplaceAll_ok_iff (ranges : List SourceRange) (plan : ReplacePlan)
    : planReplaceAll buffer ranges replacement isCancelled = .ok plan
      ↔ let changed := ranges.filter (differs buffer.rope replacement)
        OrderedFrom buffer.rope 0 ranges
        ∧ GoesOn isCancelled 0 (pollsIn ranges.length + pollsIn changed.length)
        ∧ (changed = [] ∨ SizesFit buffer.lenBytes changed replacement)
        ∧ plan = {
            matched := ranges.length
            changed := changed.length
            sourceLen := buffer.lenBytes
            range := changed.head?.bind fun first => changed.getLast?.map fun last =>
              ⟨first.start, last.stop⟩
            replacement := (changed.head?.map fun first =>
              spliced buffer.rope replacement first.start changed).getD []
            insertedBytes := changed.length * utf8Len replacement
            deletedBytes := deletedIn changed } := by
  have scanned : ∀ scan, scanMatches buffer replacement isCancelled 0 ranges ⟨0, [], 0⟩ = .ok scan
      ↔ OrderedFrom buffer.rope 0 ranges ∧ GoesOn isCancelled 0 (pollsIn ranges.length)
        ∧ scan = ⟨lastEnd 0 ranges, ranges.filter (differs buffer.rope replacement),
            pollsIn ranges.length⟩ := by
    intro scan
    have passes := scanMatches_ok_iff buffer replacement isCancelled 0 0 0 [] ranges scan
    have none : pollsIn 0 = 0 := rfl
    simpa only [Nat.zero_add, List.nil_append, none] using passes
  have filtered : OrderedFrom buffer.rope 0 ranges →
      OrderedFrom buffer.rope 0 (ranges.filter (differs buffer.rope replacement)) :=
    fun ordered => (substitute_filter replacement (Boundary.zero _) ordered).1
  unfold planReplaceAll
  simp only [except_bind_ok_iff, scanned]
  cases found : ranges.filter (differs buffer.rope replacement) with
  | nil =>
      constructor
      · rintro ⟨_, ⟨ordered, goesOn, rfl⟩, planned⟩
        cases planned
        exact ⟨ordered, goesOn, .inl rfl, by simp [deletedIn]⟩
      · rintro ⟨ordered, goesOn, _, rfl⟩
        exact ⟨_, ⟨ordered, goesOn, rfl⟩, by simp [deletedIn, pure, Except.pure]⟩
  | cons first rest =>
      have final := List.getLast?_eq_some_getLast (List.cons_ne_nil first rest)
      have asked := pollsIn_mono (Nat.zero_le ranges.length)
      have split := goesOn_append_iff isCancelled
        (Nat.zero_le (pollsIn ranges.length))
        (Nat.le_add_right (pollsIn ranges.length) (pollsIn (first :: rest).length))
      rw [found] at filtered
      constructor
      · rintro ⟨_, ⟨ordered, goesOn, rfl⟩, planned⟩
        simp only [List.head?_cons, final] at planned
        obtain ⟨more, fits, rfl⟩ := (planChanged_ok_iff buffer replacement isCancelled _ _ _ plan
          final (filtered ordered)).mp planned
        refine ⟨ordered, split.mpr ⟨goesOn, more⟩, .inr fits, ?_⟩
        simp [final]
      · rintro ⟨ordered, goesOn, fits, rfl⟩
        obtain ⟨early, late⟩ := split.mp goesOn
        refine ⟨_, ⟨ordered, early, rfl⟩, ?_⟩
        simp only [List.head?_cons, final]
        refine (planChanged_ok_iff buffer replacement isCancelled _ _ _ _ final
          (filtered ordered)).mpr ⟨late, fits.resolve_left (List.cons_ne_nil _ _), ?_⟩
        simp

end Planning

def ReplacePlan.applyTo (plan : ReplacePlan) (buffer : RopeBuffer) : Except BufferError Text :=
  match plan.range with
  | none => .ok buffer.rope
  | some range => (buffer.edit range plan.replacement).map fun (_, edited) => edited.rope

theorem edit_spliced (buffer : RopeBuffer) (replacement : Text) {first last : SourceRange}
    {rest : List SourceRange} (final : (first :: rest).getLast? = some last)
    (ordered : OrderedFrom buffer.rope 0 (first :: rest))
    : (buffer.edit ⟨first.start, last.stop⟩
          (spliced buffer.rope replacement first.start (first :: rest))).map
        (fun (_, edited) => edited.rope)
      = .ok (substitute buffer.rope replacement 0 (first :: rest)) := by
  obtain ⟨behind, others⟩ := ordered
  have inside : OrderedFrom buffer.rope first.start (first :: rest) := ⟨Nat.le_refl _, others⟩
  have starts : Boundary buffer.rope first.start := others.2.1
  obtain ⟨ends, taken, _⟩ := spliced_sizes replacement starts inside
  have ending := lastEnd_eq first.start final
  rw [ending] at ends taken
  have whole := substring_append_substitute replacement (Boundary.zero _) starts behind inside
  rw [substitute_eq replacement first.start, ending] at whole
  have split := substring_partition starts ends (by omega)
  have before := utf8Len_substring (Boundary.zero buffer.rope) starts behind
  have length := utf8Len_substring starts ends (by omega)
  have edited := RopeBuffer.edit_append buffer _ _ _
    (spliced buffer.rope replacement first.start (first :: rest)) split
  rw [Nat.zero_add] at before
  rw [before, length] at edited
  rw [edited, ← whole]
  rfl

def changedMatches (buffer : RopeBuffer) (ranges : List SourceRange) (replacement : Text)
    : List SourceRange :=
  ranges.filter (differs buffer.rope replacement)

/-- What a plan promises: applied to its buffer it replaces every listed range, and its numbers
describe that replacement.
-/
structure ReplacePlan.Describes (plan : ReplacePlan) (buffer : RopeBuffer)
    (ranges : List SourceRange) (replacement : Text) : Prop where
  applied : plan.applyTo buffer = .ok (substitute buffer.rope replacement 0 ranges)
  nothing : plan.range = none
    ↔ ∀ range ∈ ranges, substring buffer.rope range.start range.stop = replacement
  length : utf8Len (substitute buffer.rope replacement 0 ranges) = plan.resultLen
  changed : plan.changed = (changedMatches buffer ranges replacement).length
  matched : plan.matched = ranges.length

theorem changedMatches_eq_nil_iff (buffer : RopeBuffer) (ranges : List SourceRange)
    (replacement : Text)
    : changedMatches buffer ranges replacement = []
      ↔ ∀ range ∈ ranges, substring buffer.rope range.start range.stop = replacement := by
  simp [changedMatches, List.filter_eq_nil_iff, differs]

theorem ReplacePlan.describes {buffer : RopeBuffer} {ranges : List SourceRange}
    {replacement : Text} {isCancelled : Cancellation} {plan : ReplacePlan}
    (planned : planReplaceAll buffer ranges replacement isCancelled = .ok plan)
    : plan.Describes buffer ranges replacement := by
  obtain ⟨ordered, _, _, rfl⟩ :=
    (planReplaceAll_ok_iff buffer replacement isCancelled ranges plan).mp planned
  obtain ⟨filtered, same⟩ := substitute_filter replacement (Boundary.zero buffer.rope) ordered
  have none := changedMatches_eq_nil_iff buffer ranges replacement
  have length := utf8Len_substitute replacement filtered
  rw [same] at length
  cases found : ranges.filter (differs buffer.rope replacement) with
  | nil =>
      rw [found] at same length
      exact {
        applied := by
          rw [← same]
          simp [applyTo, substitute]
        nothing := by simpa [changedMatches, found] using none
        length := by simpa [resultLen, RopeBuffer.lenBytes, Rope.lenBytes] using length
        changed := by simp [changedMatches, found]
        matched := rfl }
  | cons first rest =>
      have final := List.getLast?_eq_some_getLast (List.cons_ne_nil first rest)
      rw [found] at same length filtered
      have edited := edit_spliced buffer replacement final filtered
      exact {
        applied := by
          rw [← same, ← edited]
          simp [applyTo, final]
        nothing := by simpa [changedMatches, found, final] using none
        length := by simpa [resultLen, RopeBuffer.lenBytes, Rope.lenBytes] using length
        changed := by simp [changedMatches, found]
        matched := rfl }

/-- Planning succeeds exactly for valid matches in source order that do not overlap, when it is
not cancelled and the sizes fit, and the plan then replaces every listed range.
-/
theorem planReplaceAll_replaces (buffer : RopeBuffer) (ranges : List SourceRange)
    (replacement : Text) (isCancelled : Cancellation)
    : ((∃ plan, planReplaceAll buffer ranges replacement isCancelled = .ok plan)
        ↔ (∀ range ∈ ranges, buffer.validateRange range = .ok ())
          ∧ ranges.Pairwise (fun left right => left.stop ≤ right.start)
          ∧ GoesOn isCancelled 0
            (pollsIn ranges.length + pollsIn (changedMatches buffer ranges replacement).length)
          ∧ (changedMatches buffer ranges replacement = []
            ∨ SizesFit buffer.lenBytes (changedMatches buffer ranges replacement) replacement))
      ∧ ∀ plan, planReplaceAll buffer ranges replacement isCancelled = .ok plan
        → plan.Describes buffer ranges replacement := by
  have inOrder := orderedFrom_iff buffer 0 ranges
  refine ⟨⟨?_, ?_⟩, fun _ planned => ReplacePlan.describes planned⟩
  · rintro ⟨plan, planned⟩
    obtain ⟨ordered, goesOn, fits, _⟩ :=
      (planReplaceAll_ok_iff buffer replacement isCancelled ranges plan).mp planned
    obtain ⟨_, valid, pairwise⟩ := inOrder.mp ordered
    exact ⟨valid, pairwise, goesOn, fits⟩
  · rintro ⟨valid, pairwise, goesOn, fits⟩
    have ordered := inOrder.mpr ⟨fun _ _ => Nat.zero_le _, valid, pairwise⟩
    exact ⟨_, (planReplaceAll_ok_iff buffer replacement isCancelled ranges _).mpr
      ⟨ordered, goesOn, fits, rfl⟩⟩

/-- Witness: of two matches one reads as the replacement already. -/
theorem planReplaceAll_replaces_one
    : ((∃ plan,
          planReplaceAll (.fromText ['a', 'b', 'c']) [⟨0, 1⟩, ⟨1, 2⟩] ['b'] (fun _ => false)
            = .ok plan)
        ↔ (∀ range ∈ [(⟨0, 1⟩ : SourceRange), ⟨1, 2⟩],
            (RopeBuffer.fromText ['a', 'b', 'c']).validateRange range = .ok ())
          ∧ [(⟨0, 1⟩ : SourceRange), ⟨1, 2⟩].Pairwise
            (fun left right => left.stop ≤ right.start)
          ∧ GoesOn (fun _ => false) 0
            (pollsIn 2
              + pollsIn (changedMatches (.fromText ['a', 'b', 'c']) [⟨0, 1⟩, ⟨1, 2⟩] ['b']).length)
          ∧ (changedMatches (.fromText ['a', 'b', 'c']) [⟨0, 1⟩, ⟨1, 2⟩] ['b'] = []
            ∨ SizesFit 3 (changedMatches (.fromText ['a', 'b', 'c']) [⟨0, 1⟩, ⟨1, 2⟩] ['b'])
              ['b']))
      ∧ ∀ plan,
          planReplaceAll (.fromText ['a', 'b', 'c']) [⟨0, 1⟩, ⟨1, 2⟩] ['b'] (fun _ => false)
            = .ok plan
          → plan.Describes (.fromText ['a', 'b', 'c']) [⟨0, 1⟩, ⟨1, 2⟩] ['b'] :=
  planReplaceAll_replaces (.fromText ['a', 'b', 'c']) [⟨0, 1⟩, ⟨1, 2⟩] ['b'] fun _ => false

/-- Replacing three empty matches by more than a third of the word size does not fit. -/
theorem planReplaceAll_refuses {length : Nat} (large : 2 ^ 64 ≤ 3 * length) (plan : ReplacePlan)
    : planReplaceAll (.fromText []) (List.replicate 3 ⟨0, 0⟩) (List.replicate length 'a')
        (fun _ => false)
      ≠ .ok plan := by
  intro planned
  obtain ⟨_, _, fits, _⟩ := (planReplaceAll_ok_iff _ _ _ _ plan).mp planned
  have sizes (count : Nat) : utf8Len (List.replicate count 'a') = count := by
    induction count with
    | zero => rfl
    | succ count ih =>
        have one : ('a' : Char).utf8Size = 1 := rfl
        rw [List.replicate_succ, utf8Len_cons, ih, one, Nat.add_comm]
  have size := sizes length
  have reads : substring (RopeBuffer.fromText []).rope 0 0 = [] := rfl
  have other : List.replicate length 'a' ≠ [] := by
    simp only [ne_eq, List.replicate_eq_nil_iff]
    omega
  have differ : differs (RopeBuffer.fromText []).rope (List.replicate length 'a') ⟨0, 0⟩
      = true := by
    simpa [differs, reads] using other.symm
  have all : (List.replicate 3 (⟨0, 0⟩ : SourceRange)).filter
        (differs (RopeBuffer.fromText []).rope (List.replicate length 'a'))
      = List.replicate 3 ⟨0, 0⟩ :=
    List.filter_replicate_of_pos differ
  rw [all] at fits
  rcases fits with none | fits
  · cases none
  · have inserted := fits.inserted
    rw [List.length_replicate, size] at inserted
    omega

/-- Three empty matches, each replaced by the longest text there can be, overflow the size of the
result although they are valid, in order and do not overlap.
-/
theorem planReplaceAll_overflows
    : ¬((∃ plan,
          planReplaceAll (.fromText []) (List.replicate 3 ⟨0, 0⟩)
            (List.replicate (2 ^ 63 - 1) 'a') (fun _ => false) = .ok plan)
        ↔ (∀ range ∈ List.replicate 3 (⟨0, 0⟩ : SourceRange),
            (RopeBuffer.fromText []).validateRange range = .ok ())
          ∧ (List.replicate 3 (⟨0, 0⟩ : SourceRange)).Pairwise
            (fun left right => left.stop ≤ right.start)
          ∧ ∀ poll, (fun _ : Nat => false) poll = false) := by
  intro claimed
  obtain ⟨plan, planned⟩ := claimed.mpr ⟨by decide, by decide, fun _ => rfl⟩
  have large : 2 ^ 64 ≤ 3 * (2 ^ 63 - 1) := by decide
  exact planReplaceAll_refuses large plan planned

end Hane.Editing
