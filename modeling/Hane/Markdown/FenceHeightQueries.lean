import Hane.Markdown.FenceHeightCounts

/-! Both queries of the fence index, compared with a look at every row. -/

namespace Hane.Markdown.FenceHeight

open Hane.Document
open Hane.Foundations
open Hane.Foundations.Cuts

-- A row in offsets of its block

theorem mem_sortOwners {owner : SourceRange} {owners : List SourceRange}
    : owner ∈ sortOwners owners ↔ owner ∈ owners := by
  rw [sortOwners, mem_dedupRuns, List.mem_mergeSort]

theorem quoted_normalizeRow (block : SourceRange) (row : QuotedRow)
    : (normalizeRow block row).quoted = false ↔ row.quoteOwners = [] := by
  simp only [QuotedRow.quoted, normalizeRow, Bool.not_eq_false', List.isEmpty_iff,
    List.eq_nil_iff_forall_not_mem, mem_sortOwners, List.mem_map]
  constructor
  · intro none owner member
    exact none _ ⟨owner, member, rfl⟩
  · rintro none _ ⟨owner, member, rfl⟩
    exact none owner member

theorem intersects_iff {range other : SourceRange}
    : range.intersects other = true ↔ range.start < other.stop ∧ other.start < range.stop := by
  rw [SourceRange.intersects, Bool.and_eq_true, decide_eq_true_eq, decide_eq_true_eq]

theorem ownsCaret_iff {row : QuotedRow} {caret : Nat}
    : row.heightRow.ownsCaret caret = true
        ↔ row.range.start ≤ caret
          ∧ (caret < row.range.stop ∨ (row.ownsEnd = true ∧ caret = row.range.stop)) := by
  simp only [ownsCaret_heightRow, Bool.and_eq_true, Bool.or_eq_true, decide_eq_true_eq,
    beq_iff_eq]

theorem touchesDirectly_caret {row : QuotedRow} {disclosure : SourceRange}
    (caret : disclosure.isEmpty = true)
    : touchesDirectly row disclosure = true
        ↔ row.range.start ≤ disclosure.start
          ∧ (disclosure.start < row.range.stop
            ∨ (row.ownsEnd = true ∧ disclosure.start = row.range.stop)) := by
  rw [touchesDirectly, if_pos caret]
  simp only [Bool.and_eq_true, Bool.or_eq_true, decide_eq_true_eq, beq_iff_eq]

theorem touchesQuote_caret {block owner disclosure : SourceRange} {blockIsFinal : Bool}
    (caret : disclosure.isEmpty = true)
    : touchesQuote block blockIsFinal owner disclosure = true
        ↔ (owner.start ≤ disclosure.start ∧ disclosure.start ≤ owner.stop)
          ∧ (disclosure.start < block.stop
            ∨ (blockIsFinal = true ∧ disclosure.start = block.stop)) := by
  rw [touchesQuote, if_pos caret]
  simp only [Bool.and_eq_true, Bool.or_eq_true, decide_eq_true_eq, beq_iff_eq]

theorem ownerTouched_caret {disclosure owner : SourceRange} {allowOwnerEnd : Bool}
    (caret : disclosure.isEmpty = true)
    : ownerTouched disclosure allowOwnerEnd owner = true
        ↔ owner.start ≤ disclosure.start
          ∧ (disclosure.start < owner.stop
            ∨ (allowOwnerEnd = true ∧ owner.stop = disclosure.start)) := by
  rw [ownerTouched, if_pos caret]
  simp only [Bool.and_eq_true, Bool.or_eq_true, decide_eq_true_eq, beq_iff_eq]

theorem ownerTouched_selection {disclosure owner : SourceRange} {allowOwnerEnd : Bool}
    (selection : disclosure.isEmpty = false)
    : ownerTouched disclosure allowOwnerEnd owner = true
        ↔ owner.start < disclosure.stop ∧ disclosure.start < owner.stop := by
  rw [ownerTouched, if_neg (by simp [selection])]
  simp only [Bool.and_eq_true, decide_eq_true_eq]

/-- Touching a quote is touching the quotes around it. -/
theorem ownerTouched_mono {disclosure inner outer : SourceRange} {allowOwnerEnd : Bool}
    (starts : outer.start ≤ inner.start) (stops : inner.stop ≤ outer.stop)
    (touched : ownerTouched disclosure allowOwnerEnd inner = true)
    : ownerTouched disclosure allowOwnerEnd outer = true := by
  cases caret : disclosure.isEmpty with
  | true =>
      obtain ⟨begun, inside | ⟨allowed, atEnd⟩⟩ := (ownerTouched_caret caret).mp touched
      · exact (ownerTouched_caret caret).mpr ⟨by omega, .inl (by omega)⟩
      · refine (ownerTouched_caret caret).mpr ⟨by omega, ?_⟩
        rcases Nat.lt_or_ge disclosure.start outer.stop with below | reached
        · exact .inl below
        · exact .inr ⟨allowed, by omega⟩
  | false =>
      have both := (ownerTouched_selection caret).mp touched
      exact (ownerTouched_selection caret).mpr (by omega)

section Rows

variable {block : SourceRange} {rows : List QuotedRow}

theorem FenceRows.touchedThroughOutermost_eq (fits : FenceRows block rows) {row : QuotedRow}
    (member : row ∈ rows) (disclosure : SourceRange) (allowOwnerEnd : Bool)
    : (normalizeRow block row).touchedThroughOutermost disclosure allowOwnerEnd
        = row.quoteOwners.any fun owner =>
            ownerTouched disclosure allowOwnerEnd (relativeTo block owner) := by
  rw [QuotedRow.touchedThroughOutermost]
  cases owned : outermostOwner (normalizeRow block row).quoteOwners with
  | none =>
      have plain : (normalizeRow block row).quoted = false := by
        rw [QuotedRow.quoted, ← outermostOwner_isSome, owned]
        rfl
      rw [(quoted_normalizeRow block row).mp plain]
      rfl
  | some outermost =>
      obtain ⟨inside, lowest⟩ := outermostOwner_spec owned
      obtain ⟨outer, present, rfl⟩ := List.mem_map.mp (mem_sortOwners.mp inside)
      rw [Option.any_some, Bool.eq_iff_iff, List.any_eq_true]
      refine ⟨fun touched => ⟨outer, present, touched⟩, ?_⟩
      rintro ⟨inner, within, touched⟩
      have low := lowest (relativeTo block inner)
        (mem_sortOwners.mpr (List.mem_map.mpr ⟨inner, within, rfl⟩))
      have bounds := fits.enclosed row member inner within
      have bounds' := fits.enclosed row member outer present
      have either := fits.nested row member inner within outer present
      simp only [relativeTo] at low
      refine ownerTouched_mono ?_ ?_ touched
      · simp only [relativeTo]
        omega
      · simp only [relativeTo]
        omega

variable (fits : FenceRows block rows) {row : QuotedRow} (member : row ∈ rows)
  {disclosure : SourceRange}

include fits member

theorem FenceRows.direct_caret (caret : disclosure.isEmpty = true)
    (inside : block.start ≤ disclosure.start)
    : (normalizeRow block row).heightRow.ownsCaret (disclosure.start - block.start)
        = touchesDirectly row disclosure := by
  have bounds := fits.inside row member
  have filled := fits.filled row member
  rw [Bool.eq_iff_iff, ownsCaret_iff, touchesDirectly_caret caret]
  simp only [normalizeRow, relativeTo]
  refine and_congr (by omega) (or_congr (by omega) (and_congr_right' (by omega)))

theorem FenceRows.through_caret (caret : disclosure.isEmpty = true)
    (inside : block.start ≤ disclosure.start) (blockIsFinal : Bool)
    : (normalizeRow block row).touchedThroughOutermost
          (.empty (disclosure.start - block.start))
          (decide (block.start + (disclosure.start - block.start) < block.stop)
            || (blockIsFinal && block.start + (disclosure.start - block.start) == block.stop))
        = touchesThroughQuote block blockIsFinal row disclosure := by
  have empty : (SourceRange.empty (disclosure.start - block.start)).isEmpty = true := by
    simp [SourceRange.isEmpty, SourceRange.empty]
  rw [fits.touchedThroughOutermost_eq member, touchesThroughQuote, Bool.eq_iff_iff,
    List.any_eq_true, List.any_eq_true]
  refine exists_congr fun owner => and_congr_right fun present => ?_
  have bounds := fits.enclosed row member owner present
  rw [ownerTouched_caret empty, touchesQuote_caret caret, Nat.add_sub_cancel' inside]
  simp only [relativeTo, SourceRange.empty, Bool.and_eq_true, Bool.or_eq_true, decide_eq_true_eq,
    beq_iff_eq]
  constructor
  · rintro ⟨begun, within | ⟨allowed, atEnd⟩⟩
    · exact ⟨by omega, .inl (by omega)⟩
    · exact ⟨by omega, allowed⟩
  · rintro ⟨within, allowed⟩
    rcases Nat.lt_or_ge disclosure.start owner.stop with below | reached
    · exact ⟨by omega, .inl (by omega)⟩
    · exact ⟨by omega, .inr ⟨allowed, by omega⟩⟩

theorem FenceRows.direct_selection (selection : disclosure.isEmpty = false)
    (meets : block.intersects disclosure = true)
    : (normalizeRow block row).range.intersects (clipTo block disclosure)
        = touchesDirectly row disclosure := by
  have bounds := fits.inside row member
  have filled := fits.filled row member
  rw [touchesDirectly, if_neg (by simp [selection]), Bool.eq_iff_iff, intersects_iff,
    intersects_iff]
  rw [intersects_iff] at meets
  simp only [normalizeRow, relativeTo, clipTo]
  omega

theorem FenceRows.through_selection (selection : disclosure.isEmpty = false)
    (meets : block.intersects disclosure = true) (blockIsFinal : Bool)
    : (normalizeRow block row).touchedThroughOutermost (clipTo block disclosure) false
        = touchesThroughQuote block blockIsFinal row disclosure := by
  have different : disclosure.start ≠ disclosure.stop := by
    simpa [SourceRange.isEmpty] using selection
  rw [intersects_iff] at meets
  have bounds := fits.inside row member
  have filled := fits.filled row member
  have clipped : (clipTo block disclosure).isEmpty = false := by
    simp only [SourceRange.isEmpty, clipTo, beq_eq_false_iff_ne]
    omega
  rw [fits.touchedThroughOutermost_eq member, touchesThroughQuote, Bool.eq_iff_iff,
    List.any_eq_true, List.any_eq_true]
  refine exists_congr fun owner => and_congr_right fun present => ?_
  have within := fits.enclosed row member owner present
  rw [ownerTouched_selection clipped, touchesQuote, if_neg (by simp [selection]), intersects_iff]
  simp only [relativeTo, clipTo]
  omega

theorem FenceRows.untouched
    (outside : (disclosure.isEmpty = true
        ∧ (disclosure.start < block.start ∨ block.stop < disclosure.start))
      ∨ (disclosure.isEmpty = false ∧ block.intersects disclosure = false))
    (blockIsFinal : Bool)
    : touchesDirectly row disclosure = false
      ∧ touchesThroughQuote block blockIsFinal row disclosure = false := by
  have bounds := fits.inside row member
  have filled := fits.filled row member
  rcases outside with ⟨caret, away⟩ | ⟨selection, apart⟩
  · constructor
    · rw [← Bool.not_eq_true, touchesDirectly_caret caret]
      omega
    · refine List.any_eq_false.mpr fun owner present => ?_
      have within := fits.enclosed row member owner present
      rw [touchesQuote_caret caret]
      omega
  · rw [← Bool.not_eq_true, intersects_iff] at apart
    constructor
    · rw [← Bool.not_eq_true, touchesDirectly, if_neg (by simp [selection]), intersects_iff]
      omega
    · refine List.any_eq_false.mpr fun owner present => ?_
      have within := fits.enclosed row member owner present
      rw [touchesQuote, if_neg (by simp [selection]), intersects_iff]
      omega

end Rows

-- Counts compared

/-- Two tests of rows in offsets of the block that answer as the disclosure touches the rows. -/
structure Mirrors (block : SourceRange) (rows : List QuotedRow) (disclosure : SourceRange)
    (blockIsFinal : Bool) (direct through : QuotedRow → Bool)
    : Prop where
  direct : ∀ row ∈ rows, direct (normalizeRow block row) = touchesDirectly row disclosure
  through : ∀ row ∈ rows,
    through (normalizeRow block row) = touchesThroughQuote block blockIsFinal row disclosure

section Compared

variable {block : SourceRange} {rows : List QuotedRow} (fits : FenceRows block rows)
  {queried relative : QuotedRow → Bool}
  (same : ∀ row ∈ rows, relative (normalizeRow block row) = queried row)

include fits same

theorem FenceRows.untouchedRows_eq {disclosure : SourceRange} {blockIsFinal : Bool}
    {direct through : QuotedRow → Bool}
    (mirrors : Mirrors block rows disclosure blockIsFinal direct through)
    : untouchedRows block rows queried (some disclosure) blockIsFinal
        = ((deduplicated block rows).filter relative).countP fun row =>
            !(direct row || through row) := by
  rw [untouchedRows, List.countP_filter, fits.deduplicated_perm.1.countP_eq, List.countP_map]
  refine List.countP_congr fun row member => ?_
  simp only [Function.comp_def, same row member, mirrors.direct row member, mirrors.through row member,
    Option.any_some, Bool.and_comm]

theorem FenceRows.countsTouched_iff {disclosure : SourceRange} {blockIsFinal : Bool}
    {direct through : QuotedRow → Bool}
    (mirrors : Mirrors block rows disclosure blockIsFinal direct through)
    : Uncounted ((deduplicated block rows).filter relative) direct through disclosure.isEmpty
        ↔ CountsTouched block rows queried (some disclosure) blockIsFinal := by
  have members : ∀ row, row ∈ (deduplicated block rows).filter relative
      ↔ ∃ given ∈ rows, queried given = true ∧ normalizeRow block given = row := by
    intro row
    rw [List.mem_filter, fits.deduplicated_perm.1.mem_iff, List.mem_map]
    constructor
    · rintro ⟨⟨given, present, rfl⟩, asked⟩
      exact ⟨given, present, same given present ▸ asked, rfl⟩
    · rintro ⟨given, present, asked, rfl⟩
      exact ⟨⟨given, present, rfl⟩, (same given present).symm ▸ asked⟩
  constructor
  · intro uncounted disclosed given row member asked touched apart
    obtain rfl := Option.mem_some_iff.mp given
    obtain ⟨plain, front⟩ := uncounted (normalizeRow block row)
      ((members _).mpr ⟨row, member, asked, rfl⟩) (mirrors.direct row member ▸ touched)
      (mirrors.through row member ▸ apart)
    refine ⟨(quoted_normalizeRow block row).mp plain, fun caret other member' asked' touched' => ?_⟩
    have le := front caret (normalizeRow block other)
      ((members _).mpr ⟨other, member', asked', rfl⟩) (mirrors.direct other member' ▸ touched')
    have := fits.inside row member
    have := fits.inside other member'
    have := fits.filled other member'
    simp only [normalizeRow, relativeTo] at le
    omega
  · intro counts row member touched apart
    obtain ⟨given, present, asked, rfl⟩ := (members _).mp member
    obtain ⟨plain, front⟩ := counts disclosure rfl given present asked
      (mirrors.direct given present ▸ touched) (mirrors.through given present ▸ apart)
    refine ⟨(quoted_normalizeRow block given).mpr plain, fun caret other member' touched' => ?_⟩
    obtain ⟨given', present', asked', rfl⟩ := (members _).mp member'
    have le := front caret given' present' asked' (mirrors.direct given' present' ▸ touched')
    simp only [normalizeRow, relativeTo]
    omega

theorem FenceRows.untouchedRows_all {disclosure : Option SourceRange} {blockIsFinal : Bool}
    (apart : ∀ disclosed ∈ disclosure, ∀ row ∈ rows, touchesDirectly row disclosed = false
      ∧ touchesThroughQuote block blockIsFinal row disclosed = false)
    : untouchedRows block rows queried disclosure blockIsFinal
        = ((deduplicated block rows).filter relative).length := by
  rw [untouchedRows, ← List.countP_eq_length_filter, fits.deduplicated_perm.1.countP_eq,
    List.countP_map]
  refine List.countP_congr fun row member => ?_
  cases disclosure with
  | none => simp [same row member]
  | some disclosed =>
      obtain ⟨direct, through⟩ := apart disclosed rfl row member
      simp [same row member, direct, through]

/-- A window of the index is counted rightly when the count takes off every touched row. -/
theorem FenceRows.inactiveRowsInIndices_iff {start stop : Nat}
    (window : Window (deduplicated block rows) start stop relative)
    {disclosure : Option SourceRange}
    (ordered : ∀ disclosed ∈ disclosure, disclosed.start ≤ disclosed.stop) (blockIsFinal : Bool)
    : inactiveRowsInIndices (fromAbsoluteRows block rows) block start stop disclosure blockIsFinal
          = some (untouchedRows block rows queried disclosure blockIsFinal)
        ↔ CountsTouched block rows queried disclosure blockIsFinal := by
  have arranged := fits.deduplicated_perm.2
  have part := arranged.sublist
    (List.filter_sublist (l := deduplicated block rows) (p := relative))
  rw [inactiveRowsInIndices, rows_built, window.slice_rows]
  simp only [Option.bind_eq_bind, Option.bind_some, List.length_map]
  cases disclosure with
  | none =>
      rw [fits.untouchedRows_all same fun disclosed given => by cases given]
      exact iff_of_true rfl fun disclosed given => by cases given
  | some disclosure =>
      have outside_iff : ∀ (_ : (disclosure.isEmpty = true
            ∧ (disclosure.start < block.start ∨ block.stop < disclosure.start))
          ∨ (disclosure.isEmpty = false ∧ block.intersects disclosure = false)),
          (some ((deduplicated block rows).filter relative).length
            = some (untouchedRows block rows queried (some disclosure) blockIsFinal)
          ↔ CountsTouched block rows queried (some disclosure) blockIsFinal) := by
        intro outside
        rw [fits.untouchedRows_all same fun disclosed given row member => by
          obtain rfl := Option.mem_some_iff.mp given
          exact fits.untouched member outside blockIsFinal]
        refine iff_of_true rfl fun disclosed given row member _ touched => ?_
        obtain rfl := Option.mem_some_iff.mp given
        rw [(fits.untouched member outside blockIsFinal).1] at touched
        cases touched
      dsimp only
      cases caret : disclosure.isEmpty with
      | true =>
          rw [if_pos rfl]
          split
          next outside => exact outside_iff (.inl ⟨caret, outside⟩)
          next inside =>
            rw [not_or, Nat.not_lt, Nat.not_lt] at inside
            have mirrors : Mirrors block rows disclosure blockIsFinal
                (·.heightRow.ownsCaret (disclosure.start - block.start))
                (·.touchedThroughOutermost (.empty (disclosure.start - block.start))
                  (decide (block.start + (disclosure.start - block.start) < block.stop)
                    || (blockIsFinal
                      && block.start + (disclosure.start - block.start) == block.stop))) :=
              ⟨fun row member => fits.direct_caret member caret inside.1,
                fun row member => fits.through_caret member caret inside.1 blockIsFinal⟩
            rw [inactiveRowsAtCaret_eq window arranged, Option.some.injEq,
              fits.untouchedRows_eq same mirrors,
              ← fits.countsTouched_iff same mirrors, caret,
              length_sub_eq_iff (taken_caret part fun _ => QuotedRow.quoted_of_touched).1,
              (taken_caret part fun _ => QuotedRow.quoted_of_touched).2]
      | false =>
          rw [if_neg Bool.false_ne_true]
          cases meets : block.intersects disclosure with
          | false =>
              simp only [Bool.not_false, if_true]
              exact outside_iff (.inr ⟨caret, meets⟩)
          | true =>
              simp only [Bool.not_true, Bool.false_eq_true, if_false]
              have mirrors : Mirrors block rows disclosure blockIsFinal
                  (·.range.intersects (clipTo block disclosure))
                  (·.touchedThroughOutermost (clipTo block disclosure) false) :=
                ⟨fun row member => fits.direct_selection member caret meets,
                  fun row member => fits.through_selection member caret meets blockIsFinal⟩
              have clipped : (clipTo block disclosure).start ≤ (clipTo block disclosure).stop := by
                have := ordered disclosure rfl
                simp only [clipTo]
                omega
              rw [inactiveRowsInSelection_eq window arranged clipped, Option.some.injEq,
                fits.untouchedRows_eq same mirrors,
                ← fits.countsTouched_iff same mirrors, caret,
                length_sub_eq_iff (taken_selection fun _ => QuotedRow.quoted_of_touched).1,
                (taken_selection fun _ => QuotedRow.quoted_of_touched).2]

end Compared

/-- Each of the two queries gives the number of the rows that the disclosure leaves untouched exactly
when every queried row touched directly and through no quote has no quote, and at a caret is the
first one touched. Witness: the rows in the order of the index, and the count of what is taken off.
-/
theorem inactiveRows_iff {block : SourceRange} {rows : List QuotedRow}
    (fits : FenceRows block rows) {disclosure : Option SourceRange}
    (ordered : ∀ disclosed ∈ disclosure, disclosed.start ≤ disclosed.stop) (blockIsFinal : Bool)
    : (∀ range : SourceRange, range.start ≤ range.stop →
        (inactiveRowsIn (fromAbsoluteRows block rows) block range disclosure blockIsFinal
            = some (untouchedRows block rows (queriedIn range) disclosure blockIsFinal)
          ↔ CountsTouched block rows (queriedIn range) disclosure blockIsFinal))
      ∧ ∀ line : Nat,
        (inactiveRowsBeforeLine (fromAbsoluteRows block rows) block line disclosure blockIsFinal
            = some (untouchedRows block rows (queriedBefore line) disclosure blockIsFinal)
          ↔ CountsTouched block rows (queriedBefore line) disclosure blockIsFinal) := by
  have arranged := fits.deduplicated_perm.2
  constructor
  · intro range forward
    rw [inactiveRowsIn]
    split
    next trivial_ =>
      have unasked : ∀ row ∈ rows, queriedIn range row = false := by
        intro row member
        rcases Bool.or_eq_true_iff.mp trivial_ with empty | none
        · simp [queriedIn, empty]
        · rw [rows_built, List.isEmpty_iff, List.map_eq_nil_iff] at none
          have bare := fits.deduplicated_perm.1
          rw [none, List.nil_perm, List.map_eq_nil_iff] at bare
          rw [bare] at member
          cases member
      have zero : untouchedRows block rows (queriedIn range) disclosure blockIsFinal = 0 :=
        List.countP_eq_zero.mpr fun row member => by simp [unasked row member]
      rw [zero]
      refine iff_of_true rfl fun disclosed given row member asked => ?_
      rw [unasked row member] at asked
      cases asked
    next asked =>
      rw [Bool.or_eq_true, not_or] at asked
      have window := @Arranged.window_range _ arranged (relativeTo block range)
        (Nat.sub_le_sub_right forward block.start)
      dsimp only
      rw [rows_built, partitionPoint_map, partitionPoint_map]
      refine fits.inactiveRowsInIndices_iff (fun row member => ?_) window ordered blockIsFinal
      have bounds := fits.inside row member
      have filled := fits.filled row member
      rw [queriedIn, Bool.not_eq_true _ |>.mp asked.1, Bool.not_false, Bool.true_and,
        Bool.eq_iff_iff, intersects_iff, intersects_iff]
      simp only [normalizeRow, relativeTo]
      omega
  · intro line
    have window := arranged.window_line line
    rw [inactiveRowsBeforeLine, rows_built, partitionPoint_map]
    exact fits.inactiveRowsInIndices_iff (fun _ _ => rfl) window ordered blockIsFinal

/-- Two fence rows in a quote with the caret in the first of them. -/
theorem inactiveRows_iff_quoted
    : inactiveRowsIn
          (fromAbsoluteRows ⟨0, 12⟩ [⟨⟨0, 6⟩, false, [⟨0, 12⟩], 0⟩, ⟨⟨6, 12⟩, false, [⟨0, 12⟩], 1⟩])
          ⟨0, 12⟩ ⟨0, 12⟩ (some (.empty 2)) true
        = some (untouchedRows ⟨0, 12⟩
          [⟨⟨0, 6⟩, false, [⟨0, 12⟩], 0⟩, ⟨⟨6, 12⟩, false, [⟨0, 12⟩], 1⟩]
          (queriedIn ⟨0, 12⟩) (some (.empty 2)) true) := by
  refine ((inactiveRows_iff ⟨by decide, by decide, by decide, by decide, by decide, by decide⟩
    (fun disclosed given => ?_) true).1 ⟨0, 12⟩ (by decide)).mpr fun disclosed given => ?_
  · obtain rfl := Option.mem_some_iff.mp given
    decide
  · obtain rfl := Option.mem_some_iff.mp given
    decide

/-- The opening row of a fence in an indented quote, with the caret before the quote marker: the row
is touched directly, the quote is not, and the row is counted as collapsed.
-/
theorem inactiveRows_not_untouched
    : ¬∀ (block : SourceRange) (rows : List QuotedRow), FenceRows block rows →
        ∀ disclosure : Option SourceRange,
          (∀ disclosed ∈ disclosure, disclosed.start ≤ disclosed.stop) →
          ∀ blockIsFinal : Bool,
          (∀ range : SourceRange, range.start ≤ range.stop →
            inactiveRowsIn (fromAbsoluteRows block rows) block range disclosure blockIsFinal
              = some (untouchedRows block rows (queriedIn range) disclosure blockIsFinal))
          ∧ ∀ line : Nat,
            inactiveRowsBeforeLine (fromAbsoluteRows block rows) block line disclosure blockIsFinal
              = some (untouchedRows block rows (queriedBefore line) disclosure blockIsFinal) := by
  intro always
  have single := (always ⟨0, 9⟩ [⟨⟨0, 9⟩, false, [⟨3, 9⟩], 0⟩]
    ⟨by decide, by decide, by decide, by decide, by decide, by decide⟩ (some (.empty 0))
    (fun disclosed given => by
      obtain rfl := Option.mem_some_iff.mp given
      decide) true).2 1
  revert single
  decide +kernel

end Hane.Markdown.FenceHeight
