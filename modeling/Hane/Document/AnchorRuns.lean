import Hane.Document.Boundaries
import Hane.Document.Coverage

/-! Anchors through any number of edits: they keep their order, and they never cross text that no
edit touches.
-/

namespace Hane.Document

open Hane.Document.RopeBuffer Hane.Foundations

-- One edit

/-- Where an edit of a range leaves an offset. -/
def movedOffset (edit : SourceRange) (inserted : Nat) (offset : Nat) (bias : Bias) : Nat :=
  if offset < edit.start ∨ offset = edit.start ∧ bias = .before then
    offset
  else if edit.stop < offset ∨ offset = edit.stop ∧ edit.start < edit.stop then
    offset + inserted - edit.lenBytes
  else if bias = .before then
    edit.start
  else
    edit.start + inserted

theorem transformOffset_editDelta (revision : Nat) {edit : SourceRange}
    (ordered : edit.start ≤ edit.stop) (text : Text) (offset : Nat) (bias : Bias)
    : (editDelta revision edit text).transformOffset offset bias
      = some (movedOffset edit (utf8Len text) offset bias) := by
  rw [movedOffset]
  split
  · rename_i front
    exact transformOffset_front revision text front
  · rename_i front
    split
    · rename_i back
      exact transformOffset_back revision text ordered back
    · rename_i back
      have inside : ¬(offset > edit.stop ∨ offset = edit.stop ∧ edit.isEmpty = false) := by
        rw [SourceRange.isEmpty, beq_eq_false_iff_ne]
        omega
      refine (if_neg front).trans ((if_neg inside).trans ?_)
      cases bias <;> rfl

def InOrder (first last : Anchor) : Prop :=
  first.offset ≤ last.offset ∧ (first.bias = last.bias ∨ first.bias = .before)

theorem movedOffset_mono {edit : SourceRange} (ordered : edit.start ≤ edit.stop) (inserted : Nat)
    {first last : Anchor} (inOrder : InOrder first last)
    : movedOffset edit inserted first.offset first.bias
      ≤ movedOffset edit inserted last.offset last.bias := by
  obtain ⟨first, bias⟩ := first
  obtain ⟨last, bias'⟩ := last
  obtain ⟨le, biases⟩ := inOrder
  simp only at le biases
  simp only [movedOffset, SourceRange.lenBytes]
  cases bias <;> cases bias' <;> simp at biases ⊢ <;> split_ifs <;> omega

theorem movedOffset_boundary {before deleted after replacement : Text} {offset : Nat}
    (boundary : Boundary (before ++ (deleted ++ after)) offset) (bias : Bias)
    : Boundary (before ++ (replacement ++ after))
        (movedOffset ⟨utf8Len before, utf8Len before + utf8Len deleted⟩ (utf8Len replacement)
          offset bias) := by
  have start : Boundary (before ++ (replacement ++ after)) (utf8Len before) :=
    Boundary.of_append before (replacement ++ after)
  have stop : Boundary (before ++ (replacement ++ after))
      (utf8Len before + utf8Len replacement) :=
    ⟨before ++ replacement, after, by rw [List.append_assoc], utf8Len_append _ _⟩
  rw [movedOffset]
  split
  · rename_i front
    simp only at front
    obtain ⟨left, right, split, rfl⟩ := boundary
    obtain ⟨between, rfl, -⟩ := append_split_of_utf8Len_le split.symm (by omega)
    exact ⟨left, between ++ (replacement ++ after), by rw [List.append_assoc], rfl⟩
  · split
    · rename_i back
      simp only at back
      obtain ⟨left, right, split, rfl⟩ := boundary
      rw [← List.append_assoc] at split
      obtain ⟨between, rfl, rfl⟩ :=
        append_split_of_utf8Len_le split (by rw [utf8Len_append]; omega)
      refine ⟨before ++ (replacement ++ between), right, by simp, ?_⟩
      simp only [utf8Len_append, SourceRange.lenBytes]
      omega
    · split
      · exact start
      · exact stop

/-- An edit leaves an offset in front of it or behind it, or puts it around what is inserted. -/
theorem movedOffset_cases {edit : SourceRange} (ordered : edit.start ≤ edit.stop)
    (inserted offset : Nat) (bias : Bias)
    : (offset ≤ edit.start ∧ movedOffset edit inserted offset bias = offset)
      ∨ (edit.stop ≤ offset
        ∧ movedOffset edit inserted offset bias + edit.lenBytes = offset + inserted)
      ∨ (edit.start ≤ offset
        ∧ offset ≤ edit.stop
        ∧ edit.start ≤ movedOffset edit inserted offset bias
        ∧ movedOffset edit inserted offset bias ≤ edit.start + inserted) := by
  rw [movedOffset]
  split
  · omega
  · split
    · rw [SourceRange.lenBytes]
      omega
    · have inside : edit.start ≤ offset ∧ offset ≤ edit.stop := by omega
      split <;> omega

/-- An edit that does not touch some text leaves an offset on its side of the text. -/
theorem movedOffset_sides {edit range : SourceRange} (ordered : edit.start ≤ edit.stop)
    (inserted offset : Nat) (bias : Bias) (filled : range.start < range.stop)
    : (edit.stop ≤ range.start
        → (range.stop ≤ offset
            → range.stop + inserted ≤ movedOffset edit inserted offset bias + edit.lenBytes)
          ∧ (offset ≤ range.start
            → movedOffset edit inserted offset bias + edit.lenBytes ≤ range.start + inserted))
      ∧ (range.stop ≤ edit.start
        → (range.stop ≤ offset → range.stop ≤ movedOffset edit inserted offset bias)
          ∧ (offset ≤ range.start → movedOffset edit inserted offset bias ≤ range.start)) := by
  have size : edit.start + edit.lenBytes = edit.stop := by
    rw [SourceRange.lenBytes]
    omega
  rcases movedOffset_cases ordered inserted offset bias with front | back | inside <;> omega

-- Several edits

/-- An offset on a boundary goes to a boundary, by induction on the edits. -/
theorem RopeBuffer.Rewrites.transformOffsets {start final : Text} {deltas : List RevisionDelta}
    (rewrites : Rewrites start deltas final) {offset : Nat} (boundary : Boundary start offset)
    (bias : Bias)
    : ∃ moved, transformOffsets deltas bias offset = some moved ∧ Boundary final moved := by
  induction deltas generalizing start offset with
  | nil =>
      obtain rfl := rewrites
      exact ⟨offset, rfl, boundary⟩
  | cons delta deltas ih =>
      obtain ⟨before, deleted, after, replacement, rfl, same, rest⟩ := rewrites
      obtain ⟨moved, moves, last⟩ := ih rest (movedOffset_boundary boundary bias)
      refine ⟨moved, ?_, last⟩
      have ordered : (⟨utf8Len before, utf8Len before + utf8Len deleted⟩ : SourceRange).start
          ≤ utf8Len before + utf8Len deleted :=
        Nat.le_add_right _ _
      have first := transformOffset_editDelta delta.fromRevision ordered replacement offset bias
      rw [← same] at first
      rw [RopeBuffer.transformOffsets, List.foldlM_cons, first]
      exact moves

/-- The first of several edits, and where it leaves an offset. -/
theorem RopeBuffer.Rewrites.transformOffsets_cons {start final : Text} {delta : RevisionDelta}
    {deltas : List RevisionDelta} (rewrites : Rewrites start (delta :: deltas) final)
    : ∃ (middle : Text) (inserted : Nat), Rewrites middle deltas final
        ∧ delta.editedSourceRangeBefore.start ≤ delta.editedSourceRangeBefore.stop
        ∧ delta.byteDelta = (inserted : Int) - delta.editedSourceRangeBefore.lenBytes
        ∧ ∀ bias offset, RopeBuffer.transformOffsets (delta :: deltas) bias offset
          = RopeBuffer.transformOffsets deltas bias
            (movedOffset delta.editedSourceRangeBefore inserted offset bias) := by
  obtain ⟨before, deleted, after, replacement, -, same, rest⟩ := rewrites
  have ordered : delta.editedSourceRangeBefore.start ≤ delta.editedSourceRangeBefore.stop := by
    rw [same]
    exact Nat.le_add_right _ _
  refine ⟨_, utf8Len replacement, rest, ordered, by rw [same]; rfl, fun bias offset => ?_⟩
  have first := transformOffset_editDelta delta.fromRevision ordered replacement offset bias
  have again : editDelta delta.fromRevision delta.editedSourceRangeBefore replacement = delta := by
    rw [same]
    rfl
  rw [again] at first
  rw [RopeBuffer.transformOffsets, List.foldlM_cons, first]
  rfl

/-- Edits keep the order of two anchors, by induction on them. -/
theorem RopeBuffer.Rewrites.inOrder {start final : Text} {deltas : List RevisionDelta}
    (rewrites : Rewrites start deltas final) {first last : Anchor} (ordered : InOrder first last)
    {moved moved' : Nat}
    (moves : RopeBuffer.transformOffsets deltas first.bias first.offset = some moved)
    (moves' : RopeBuffer.transformOffsets deltas last.bias last.offset = some moved')
    : moved ≤ moved' := by
  induction deltas generalizing start first last with
  | nil =>
      obtain rfl := Option.some.inj moves
      obtain rfl := Option.some.inj moves'
      exact ordered.1
  | cons delta deltas ih =>
      obtain ⟨middle, inserted, rest, range, -, step⟩ := rewrites.transformOffsets_cons
      rw [step] at moves moves'
      have later : InOrder
          ⟨movedOffset delta.editedSourceRangeBefore inserted first.offset first.bias, first.bias⟩
          ⟨movedOffset delta.editedSourceRangeBefore inserted last.offset last.bias, last.bias⟩ :=
        ⟨movedOffset_mono range inserted ordered, ordered.2⟩
      exact ih rest later moves moves'

/-- An offset stays on its side of text that no edit touches, by induction on the edits. -/
theorem RopeBuffer.Rewrites.sides {start final : Text} {deltas : List RevisionDelta}
    (rewrites : Rewrites start deltas final) {range : SourceRange} {place : Nat}
    (filled : range.start < range.stop) (untouched : Moves deltas range place) {offset moved : Nat}
    {bias : Bias} (moves : RopeBuffer.transformOffsets deltas bias offset = some moved)
    : (range.stop ≤ offset → place + range.lenBytes ≤ moved)
      ∧ (offset ≤ range.start → moved ≤ place) := by
  induction deltas generalizing start range offset with
  | nil =>
      obtain rfl := Option.some.inj moves
      have same : range.start = place := untouched
      rw [SourceRange.lenBytes]
      omega
  | cons delta deltas ih =>
      obtain ⟨middle, inserted, rest, ordered, change, step⟩ := rewrites.transformOffsets_cons
      rw [step] at moves
      obtain ⟨behind, front⟩ := movedOffset_sides ordered inserted offset bias filled
      rcases untouched with ⟨apart, next, place', later⟩ | ⟨apart, later⟩
      · have wide : range.lenBytes = range.stop - range.start := rfl
        have some : (⟨next, next + range.lenBytes⟩ : SourceRange).start < next + range.lenBytes := by
          simp only
          omega
        have found := ih rest some later moves
        have same : SourceRange.lenBytes ⟨next, next + range.lenBytes⟩ = range.lenBytes :=
          Nat.add_sub_cancel_left _ _
        rw [same] at found
        obtain ⟨after, before⟩ := behind apart
        refine ⟨fun side => found.1 ?_, fun side => found.2 ?_⟩
        · have bound := after side
          simp only
          omega
        · have bound := before side
          simp only
          omega
      · have found := ih rest filled later moves
        obtain ⟨after, before⟩ := front apart
        exact ⟨fun side => found.1 (after side), fun side => found.2 (before side)⟩

/-- Text that no edit touches is still there, by induction on the edits. -/
theorem RopeBuffer.Rewrites.covers {start final : Text} {deltas : List RevisionDelta}
    (rewrites : Rewrites start deltas final) {range : SourceRange} {place : Nat} {covered : Text}
    (covers : Covers start range covered) (untouched : Moves deltas range place)
    : Covers final ⟨place, place + range.lenBytes⟩ covered := by
  induction deltas generalizing start range with
  | nil =>
      obtain rfl := rewrites
      obtain ⟨before, after, text, rfl⟩ := covers
      obtain rfl : utf8Len before = place := untouched
      exact ⟨before, after, text, by rw [SourceRange.lenBytes, Nat.add_sub_cancel_left]⟩
  | cons delta deltas ih =>
      obtain ⟨before, deleted, after, replacement, rfl, same, rest⟩ := rewrites
      obtain ⟨front, back, text, rfl⟩ := covers
      rcases untouched with ⟨apart, next, moved, later⟩ | ⟨apart, later⟩
      · rw [same] at apart moved
        simp only [editDelta, SourceRange.lenBytes] at apart moved
        rw [← List.append_assoc] at text
        obtain ⟨between, rfl, rfl⟩ :=
          append_split_of_utf8Len_le text (by rw [utf8Len_append]; omega)
        have size : next = utf8Len (before ++ (replacement ++ between)) := by
          simp only [utf8Len_append] at moved ⊢
          omega
        have found := ih rest ⟨before ++ (replacement ++ between), back, by simp, by
          rw [size, SourceRange.lenBytes, Nat.add_sub_cancel_left]⟩ later
        simpa [SourceRange.lenBytes] using found
      · rw [same] at apart
        simp only [editDelta] at apart
        have text' : front ++ covered ++ back = before ++ (deleted ++ after) := by
          rw [text, List.append_assoc]
        obtain ⟨between, rfl, rfl⟩ :=
          append_split_of_utf8Len_le text' (by rw [utf8Len_append]; omega)
        exact ih rest ⟨front, between ++ (replacement ++ after), by simp, rfl⟩ later

-- Anchors of an earlier revision

theorem resolveAnchor_since {chunks : List Text} {earlier later : RopeBuffer}
    (past : Edits (fromRope chunks) earlier) (since : Edits earlier later)
    : ∃ deltas, Rewrites earlier.rope deltas later.rope
        ∧ later.deltasSince earlier.revision
          = (if later.revision - earlier.revision ≤ later.deltaCapacity then
              .ok deltas
            else
              .error (.revisionHistoryUnavailable earlier.revision later.revision))
        ∧ ∀ anchor, Boundary earlier.rope anchor.offset
          → ∃ offset, RopeBuffer.transformOffsets deltas anchor.bias anchor.offset = some offset
            ∧ Boundary later.rope offset
            ∧ later.resolveAnchor anchor earlier.revision
              = if later.revision - earlier.revision ≤ later.deltaCapacity then
                  .ok offset
                else
                  .error (.revisionHistoryUnavailable earlier.revision later.revision) := by
  obtain ⟨full, logged, -⟩ := (Logged.fromRope chunks).rewrites past
  rw [List.nil_append] at logged
  obtain ⟨deltas, loggedLater, rewrites⟩ := logged.rewrites since
  have capacity : later.deltaCapacity = 4096 := by
    rw [since.deltaCapacity, past.deltaCapacity]
    rfl
  have positive : 0 < later.deltaCapacity := by
    rw [capacity]
    decide
  have size : later.revision - earlier.revision = deltas.length := by
    rw [loggedLater.revision, logged.revision, List.length_append, Nat.add_sub_cancel_left]
  have held := loggedLater.deltasSince earlier.revision since.revision_le positive
  rw [logged.revision, List.drop_left, ← logged.revision] at held
  refine ⟨deltas, rewrites, held, fun anchor boundary => ?_⟩
  obtain ⟨offset, moves, last⟩ := rewrites.transformOffsets boundary anchor.bias
  refine ⟨offset, moves, last, ?_⟩
  rw [size, logged.revision]
  split
  · rename_i held
    exact loggedLater.resolveAnchor held positive moves last
  · rename_i lost
    exact loggedLater.resolveAnchor_lost anchor (Nat.lt_of_not_le lost) positive

/-- Anchors of any earlier revision: they resolve to boundaries of the current text, in their
order and on their side of text that no edit touched, while the log reaches back to them, and are
refused when it does not or when their revision is still to come.
Witness: `resolveAnchor_run_fresh`.
-/
theorem resolveAnchor_run {chunks : List Text} {earlier later : RopeBuffer}
    (past : Edits (fromRope chunks) earlier) (since : Edits earlier later)
    : (∀ anchor, Boundary earlier.rope anchor.offset
        → (later.revision - earlier.revision ≤ later.deltaCapacity
            → ∃ offset, later.resolveAnchor anchor earlier.revision = .ok offset
              ∧ Boundary later.rope offset)
          ∧ (later.deltaCapacity < later.revision - earlier.revision
            → later.resolveAnchor anchor earlier.revision
              = .error (.revisionHistoryUnavailable earlier.revision later.revision)))
      ∧ (∀ first last offset offset',
          Boundary earlier.rope first.offset
          → Boundary earlier.rope last.offset
          → InOrder first last
          → later.resolveAnchor first earlier.revision = .ok offset
          → later.resolveAnchor last earlier.revision = .ok offset'
          → offset ≤ offset')
      ∧ (∀ deltas range place covered,
          later.deltasSince earlier.revision = .ok deltas
          → range.start < range.stop
          → Covers earlier.rope range covered
          → Moves deltas range place
          → Covers later.rope ⟨place, place + range.lenBytes⟩ covered
            ∧ ∀ anchor offset,
              Boundary earlier.rope anchor.offset
              → later.resolveAnchor anchor earlier.revision = .ok offset
              → (range.stop ≤ anchor.offset → place + range.lenBytes ≤ offset)
                ∧ (anchor.offset ≤ range.start → offset ≤ place))
      ∧ ∀ revision anchor, later.revision < revision
        → later.resolveAnchor anchor revision
          = .error (.revisionHistoryUnavailable revision later.revision) := by
  obtain ⟨deltas, rewrites, held, resolves⟩ := resolveAnchor_since past since
  have moves {anchor : Anchor} {offset : Nat} (boundary : Boundary earlier.rope anchor.offset)
      (resolved : later.resolveAnchor anchor earlier.revision = .ok offset)
      : RopeBuffer.transformOffsets deltas anchor.bias anchor.offset = some offset := by
    obtain ⟨moved, moves, -, result⟩ := resolves anchor boundary
    rw [result] at resolved
    split at resolved
    · exact Except.ok.inj resolved ▸ moves
    · cases resolved
  refine ⟨fun anchor boundary => ?_, ?_, ?_, ?_⟩
  · obtain ⟨offset, -, last, result⟩ := resolves anchor boundary
    constructor
    · intro held
      rw [if_pos held] at result
      exact ⟨offset, result, last⟩
    · intro lost
      rwa [if_neg (Nat.not_le_of_lt lost)] at result
  · intro first last offset offset' boundary boundary' ordered resolved resolved'
    exact rewrites.inOrder ordered (moves boundary resolved) (moves boundary' resolved')
  · intro known range place covered logged filled covers untouched
    rw [held] at logged
    split at logged
    · obtain rfl := Except.ok.inj logged
      refine ⟨rewrites.covers covers untouched, fun anchor offset boundary resolved => ?_⟩
      exact rewrites.sides filled untouched (moves boundary resolved)
    · cases logged
  · intro revision anchor future
    rw [RopeBuffer.resolveAnchor, if_neg (by omega), deltasSince_future later future]
    rfl

theorem resolveAnchor_run_fresh
    : ∃ summary later, (fromText ['a', 'b']).edit ⟨1, 1⟩ ['x'] = .ok (summary, later)
        ∧ ∃ offset, later.resolveAnchor ⟨1, .after⟩ 0 = .ok offset
          ∧ Boundary later.rope offset := by
  refine ⟨_, _, rfl, ?_⟩
  have since : Edits (fromText ['a', 'b']) _ := .single ⟨⟨1, 1⟩, ['x'], _, rfl⟩
  exact ((resolveAnchor_run .refl since).1 ⟨1, .after⟩ (by decide)).1 (by decide)

end Hane.Document
