import Hane.Document.LineMirror
import Mathlib.Algebra.Ring.Int.Defs

/-! The bounded edit log against the ghost log that never drops an entry, and anchors
resolved through it.
-/

namespace Hane.Document.RopeBuffer

open Hane.Foundations

/-- `full` has one delta for each revision of the buffer, and the buffer keeps the latest
ones.
-/
structure Logged (full : List RevisionDelta) (buffer : RopeBuffer) : Prop where
  revision : buffer.revision = full.length
  numbered : full.map (·.fromRevision) = List.range full.length
  advancing : ∀ delta ∈ full, delta.toRevision = delta.fromRevision + 1
  kept : buffer.deltas = full.drop (full.length - buffer.deltaCapacity)

/-- A new buffer has an empty log, by computation. -/
theorem Logged.fromRope (chunks : List Text) : Logged [] (fromRope chunks) where
  revision := rfl
  numbered := rfl
  advancing _ member := absurd member List.not_mem_nil
  kept := rfl

/-- Pushing a delta keeps the latest ones of the extended log, by whether the log was
already full.
-/
theorem pushDelta_drop (full : List RevisionDelta) (capacity : Nat) (delta : RevisionDelta)
    : pushDelta (full.drop (full.length - capacity)) capacity delta
      = (full ++ [delta]).drop ((full ++ [delta]).length - capacity) := by
  have kept : full.drop (full.length - capacity) ++ [delta]
      = (full ++ [delta]).drop (full.length - capacity) :=
    (List.drop_append_of_le_length (Nat.sub_le _ _)).symm
  unfold pushDelta
  rw [kept]
  by_cases fits : full.length < capacity
  · have within : ¬ ((full ++ [delta]).drop (full.length - capacity)).length > capacity := by
      simp only [List.length_drop, List.length_append, List.length_singleton]
      omega
    rw [if_neg within, List.length_append, List.length_singleton]
    congr 1
    omega
  · have exceeds : ((full ++ [delta]).drop (full.length - capacity)).length > capacity := by
      simp only [List.length_drop, List.length_append, List.length_singleton]
      omega
    rw [if_pos exceeds, List.tail_drop, List.length_append, List.length_singleton]
    congr 1
    omega

/-- A successful edit appends its delta to the ghost log. -/
theorem Logged.edit {full : List RevisionDelta} {buffer next : RopeBuffer}
    {range : SourceRange} {replacement : Text} {summary : EditSummary}
    (logged : Logged full buffer)
    (edited : buffer.edit range replacement = .ok (summary, next))
    : Logged (full ++ [editDelta buffer.revision range replacement]) next := by
  obtain ⟨_, _, _, _, _, _, rfl⟩ := edit_cases edited
  refine {
    revision := ?_
    numbered := ?_
    advancing := ?_
    kept := ?_
  }
  · simp only [logged.revision, List.length_append, List.length_singleton]
  · simp only [List.map_append, List.length_append, List.length_singleton, List.range_succ,
      logged.numbered, List.map_cons, List.map_nil, editDelta, logged.revision]
  · intro delta member
    rcases List.mem_append.mp member with earlier | latest
    · exact logged.advancing delta earlier
    · obtain rfl := List.mem_singleton.mp latest
      rfl
  · have pushed := pushDelta_drop full buffer.deltaCapacity
      (editDelta buffer.revision range replacement)
    rw [← logged.kept] at pushed
    exact pushed

/-- Edits never change the capacity of the log, by induction on the edits. -/
theorem Edits.deltaCapacity {buffer next : RopeBuffer} (edits : Edits buffer next)
    : next.deltaCapacity = buffer.deltaCapacity := by
  induction edits with
  | refl => rfl
  | tail _ edited ih =>
      obtain ⟨range, replacement, summary, edited⟩ := edited
      obtain ⟨_, _, _, _, _, _, rfl⟩ := edit_cases edited
      exact ih

/-- The deltas, oldest first, describe replacements that lead from one text to another. -/
def Rewrites : Text → List RevisionDelta → Text → Prop
  | text, [], final => text = final
  | text, delta :: later, final =>
      ∃ before deleted after replacement,
        text = before ++ (deleted ++ after)
        ∧ delta
          = editDelta delta.fromRevision
              ⟨utf8Len before, utf8Len before + utf8Len deleted⟩ replacement
        ∧ Rewrites (before ++ (replacement ++ after)) later final

theorem Rewrites.append {start middle final : Text} {deltas later : List RevisionDelta}
    (first : Rewrites start deltas middle) (last : Rewrites middle later final)
    : Rewrites start (deltas ++ later) final := by
  induction deltas generalizing start with
  | nil =>
      obtain rfl := first
      exact last
  | cons delta deltas ih =>
      obtain ⟨before, deleted, after, replacement, text, same, first⟩ := first
      exact ⟨before, deleted, after, replacement, text, same, ih first⟩

/-- The deltas of replacements have ordered ranges and sum up to the change in length, by
induction on them.
-/
theorem Rewrites.lengths {start final : Text} {deltas : List RevisionDelta}
    (rewrites : Rewrites start deltas final)
    : (∀ delta ∈ deltas,
          delta.editedSourceRangeBefore.start ≤ delta.editedSourceRangeBefore.stop)
      ∧ (utf8Len final : Int) = utf8Len start + (deltas.map (·.byteDelta)).sum := by
  induction deltas generalizing start with
  | nil =>
      obtain rfl := rewrites
      simp
  | cons delta deltas ih =>
      obtain ⟨before, deleted, after, replacement, rfl, same, rest⟩ := rewrites
      obtain ⟨ordered, sum⟩ := ih rest
      constructor
      · intro found member
        rcases List.mem_cons.mp member with rfl | later
        · rw [same]
          simp [editDelta]
        · exact ordered found later
      · rw [sum, List.map_cons, List.sum_cons, same]
        simp only [editDelta, SourceRange.lenBytes, utf8Len_append]
        omega

/-- No replacement takes away more than it edits, by induction on the replacements. -/
theorem Rewrites.shrinks {start final : Text} {deltas : List RevisionDelta}
    (rewrites : Rewrites start deltas final)
    : ∀ delta ∈ deltas, 0 ≤ delta.editedSourceRangeBefore.stop + delta.byteDelta := by
  induction deltas generalizing start with
  | nil => exact fun _ member => absurd member List.not_mem_nil
  | cons delta deltas ih =>
      obtain ⟨before, deleted, after, replacement, rfl, same, rest⟩ := rewrites
      intro found member
      rcases List.mem_cons.mp member with rfl | later
      · rw [same]
        simp only [editDelta, SourceRange.lenBytes]
        omega
      · exact ih rest found later

/-- Every edit in turn lies between `front` bytes at the start and `back` bytes at the end of
a text of `total` bytes.
-/
def EditsWithin (front back : Nat) : Nat → List RevisionDelta → Prop
  | _, [] => True
  | total, delta :: later =>
      front ≤ delta.editedSourceRangeBefore.start
      ∧ delta.editedSourceRangeBefore.stop + back ≤ total
      ∧ ∃ next : Nat, (next : Int) = total + delta.byteDelta ∧ EditsWithin front back next later

/-- Edits stay within wider bounds, by induction on them. -/
theorem EditsWithin.mono {front front' back back' total : Nat} {deltas : List RevisionDelta}
    (within : EditsWithin front back total deltas) (less : front' ≤ front) (less' : back' ≤ back)
    : EditsWithin front' back' total deltas := by
  induction deltas generalizing total with
  | nil => trivial
  | cons delta deltas ih =>
      obtain ⟨start, stop, next, sum, later⟩ := within
      exact ⟨Nat.le_trans less start, by omega, next, sum, ih later⟩

/-- Where a range starts once edits, none of which touches it, were made in turn: an edit in
front of it moves it by its byte change, and one behind it does not.
-/
def Moves : List RevisionDelta → SourceRange → Nat → Prop
  | [], range, start => range.start = start
  | delta :: later, range, start =>
      (delta.editedSourceRangeBefore.stop ≤ range.start
        ∧ ∃ next : Nat,
          (next : Int) = range.start + delta.byteDelta
          ∧ Moves later ⟨next, next + range.lenBytes⟩ start)
      ∨ (range.stop ≤ delta.editedSourceRangeBefore.start ∧ Moves later range start)

/-- A range in front of all edits stays where it is, by induction on them. -/
theorem EditsWithin.moves_front {front back total : Nat} {deltas : List RevisionDelta}
    (within : EditsWithin front back total deltas) {range : SourceRange}
    (before : range.stop ≤ front)
    : Moves deltas range range.start := by
  induction deltas generalizing total with
  | nil => rfl
  | cons delta deltas ih =>
      obtain ⟨start, _, _, _, later⟩ := within
      exact .inr ⟨Nat.le_trans before start, ih later⟩

/-- A range behind all edits keeps its distance to the end of the text, by induction on them. -/
theorem EditsWithin.moves_back {front back total final : Nat} {deltas : List RevisionDelta}
    (within : EditsWithin front back total deltas)
    (sum : (final : Int) = total + (deltas.map (·.byteDelta)).sum)
    (shrinks : ∀ delta ∈ deltas, 0 ≤ delta.editedSourceRangeBefore.stop + delta.byteDelta)
    {start rest : Nat} (length : Nat) (place : start + rest = total) (behind : rest ≤ back)
    : ∃ start' : Nat, start' + rest = final ∧ Moves deltas ⟨start, start + length⟩ start' := by
  induction deltas generalizing total start with
  | nil =>
      refine ⟨start, ?_, rfl⟩
      rw [List.map_nil, List.sum_nil] at sum
      omega
  | cons delta deltas ih =>
      obtain ⟨_, stop, next, changed, later⟩ := within
      have shrink := shrinks delta List.mem_cons_self
      rw [List.map_cons, List.sum_cons] at sum
      obtain ⟨start', place', moves⟩ := ih later (by omega)
        (fun found member => shrinks found (List.mem_cons_of_mem _ member))
        (show next - rest + rest = next by omega)
      refine ⟨start', place', .inl ⟨by dsimp only; omega, next - rest, by dsimp only; omega, ?_⟩⟩
      rwa [SourceRange.lenBytes, Nat.add_sub_cancel_left]

/-- Edits within the middle of a text leave what surrounds it, by induction on them. -/
theorem Rewrites.within {before middle after final : Text} {deltas : List RevisionDelta}
    (rewrites : Rewrites (before ++ (middle ++ after)) deltas final)
    (within :
      EditsWithin (utf8Len before) (utf8Len after) (utf8Len (before ++ (middle ++ after)))
        deltas)
    : ∃ edited, final = before ++ (edited ++ after) := by
  induction deltas generalizing middle with
  | nil => exact ⟨middle, rewrites.symm⟩
  | cons delta deltas ih =>
      obtain ⟨front, deleted, back, replacement, text, same, rest⟩ := rewrites
      obtain ⟨start, stop, next, total, within⟩ := within
      rw [same] at start stop total
      simp only [editDelta, SourceRange.lenBytes] at start stop total
      obtain ⟨left, rfl, tail⟩ := append_split_of_utf8Len_le text start
      have length := congrArg utf8Len tail
      simp only [utf8Len_append] at length stop total
      rw [← List.append_assoc] at tail
      obtain ⟨right, rfl, rfl⟩ := append_split_of_utf8Len_le tail.symm (by
        rw [utf8Len_append]
        omega)
      have moved : before ++ left ++ (replacement ++ (right ++ after))
          = before ++ (left ++ replacement ++ right ++ after) := by
        simp only [List.append_assoc]
      rw [moved] at rest
      refine ih rest ?_
      have size : next = utf8Len (before ++ (left ++ replacement ++ right ++ after)) := by
        simp only [utf8Len_append] at total ⊢
        omega
      rwa [← size]

/-- Every edited buffer has a ghost log that extends the one it started from by the
replacements made since, by induction on the edits.
-/
theorem Logged.rewrites {full : List RevisionDelta} {buffer next : RopeBuffer}
    (logged : Logged full buffer) (edits : Edits buffer next)
    : ∃ later, Logged (full ++ later) next ∧ Rewrites buffer.rope later next.rope := by
  induction edits with
  | refl => exact ⟨[], by simpa using logged, rfl⟩
  | tail _ edited ih =>
      obtain ⟨later, logged, rewrites⟩ := ih
      obtain ⟨range, replacement, summary, edited⟩ := edited
      refine ⟨later ++ [_], by simpa using logged.edit edited, rewrites.append ?_⟩
      obtain ⟨before, deleted, after, text, rfl, _, rfl⟩ := edit_cases edited
      exact ⟨before, deleted, after, replacement, text, rfl, rfl⟩

theorem Logged.edits {full : List RevisionDelta} {buffer next : RopeBuffer}
    (logged : Logged full buffer) (edits : Edits buffer next)
    : ∃ later, Logged (full ++ later) next := by
  obtain ⟨later, logged, _⟩ := logged.rewrites edits
  exact ⟨later, logged⟩

/-- The entry of the ghost log at a position starts at that revision. -/
theorem Logged.fromRevision_getElem {full : List RevisionDelta} {buffer : RopeBuffer}
    (logged : Logged full buffer) (index : Nat) (bound : index < full.length)
    : full[index].fromRevision = index := by
  have mapped := congrArg (·[index]?) logged.numbered
  simpa [bound] using mapped

/-- Selecting by revision drops exactly the older entries, by splitting the kept log there.
-/
theorem Logged.filter_kept {full : List RevisionDelta} {buffer : RopeBuffer}
    (logged : Logged full buffer) {kept revision : Nat} (known : kept ≤ revision)
    : (full.drop kept).filter (fun delta => delta.fromRevision ≥ revision)
      = full.drop revision := by
  have split : full.drop kept
      = (full.drop kept).take (revision - kept) ++ full.drop revision := by
    have parts := (List.take_append_drop (revision - kept) (full.drop kept)).symm
    rwa [List.drop_drop, Nat.add_sub_cancel' known] at parts
  have old : ((full.drop kept).take (revision - kept)).filter
      (fun delta => delta.fromRevision ≥ revision) = [] := by
    apply List.filter_eq_nil_iff.mpr
    intro delta member
    obtain ⟨index, bound, rfl⟩ := List.getElem_of_mem member
    simp only [List.length_take, List.length_drop] at bound
    simp only [List.getElem_take, List.getElem_drop, decide_eq_true_eq,
      logged.fromRevision_getElem]
    omega
  have recent : (full.drop revision).filter (fun delta => delta.fromRevision ≥ revision)
      = full.drop revision := by
    apply List.filter_eq_self.mpr
    intro delta member
    obtain ⟨index, bound, rfl⟩ := List.getElem_of_mem member
    simp only [List.getElem_drop, decide_eq_true_eq, logged.fromRevision_getElem]
    omega
  rw [split, List.filter_append, old, recent, List.nil_append]

/-- The edits since a known revision are reported exactly while the log still holds them
all.
-/
theorem Logged.deltasSince {full : List RevisionDelta} {buffer : RopeBuffer}
    (logged : Logged full buffer) (revision : Nat) (known : revision ≤ buffer.revision)
    (positive : 0 < buffer.deltaCapacity)
    : buffer.deltasSince revision
      = if buffer.revision - revision ≤ buffer.deltaCapacity then
          .ok (full.drop revision)
        else
          .error (.revisionHistoryUnavailable revision buffer.revision) := by
  unfold RopeBuffer.deltasSince
  by_cases current : revision = buffer.revision
  · have done : full.drop revision = [] := by
      rw [current, logged.revision, List.drop_length]
    have held : buffer.revision - revision ≤ buffer.deltaCapacity := by omega
    rw [if_pos current, if_pos held, done]
  · rw [if_neg current]
    rw [logged.revision] at known current ⊢
    have bound : full.length - buffer.deltaCapacity < full.length := by omega
    have head : buffer.deltas.head? = some full[full.length - buffer.deltaCapacity] := by
      rw [logged.kept, List.head?_drop, List.getElem?_eq_getElem bound]
    rw [head]
    simp only [logged.fromRevision_getElem]
    by_cases held : full.length - revision ≤ buffer.deltaCapacity
    · have inside : ¬ (revision < full.length - buffer.deltaCapacity
          ∨ revision > full.length) := by omega
      have selected : buffer.deltas.filter (fun delta => delta.fromRevision ≥ revision)
          = full.drop revision := by
        rw [logged.kept]
        exact logged.filter_kept (by omega)
      have lower : revision < full.length := by omega
      have first : (full.drop revision).head?.map (·.fromRevision) = some revision := by
        rw [List.head?_drop, List.getElem?_eq_getElem lower, Option.map_some,
          logged.fromRevision_getElem]
      have last : (full.drop revision).getLast?.map (·.toRevision) = some full.length := by
        have final : full.length - 1 < full.length := by omega
        rw [List.getLast?_drop, if_neg (by omega), List.getLast?_eq_getElem?,
          List.getElem?_eq_getElem final, Option.map_some,
          logged.advancing _ (List.getElem_mem final), logged.fromRevision_getElem]
        congr 1
        omega
      rw [if_neg inside, selected, if_pos held, first, last]
      simp
    · have outside : revision < full.length - buffer.deltaCapacity
          ∨ revision > full.length := by omega
      rw [if_pos outside, if_neg held]

theorem deltasSince_future (buffer : RopeBuffer) {revision : Nat}
    (future : buffer.revision < revision)
    : buffer.deltasSince revision
      = .error (.revisionHistoryUnavailable revision buffer.revision) := by
  unfold RopeBuffer.deltasSince
  rw [if_neg (by omega)]
  cases head : buffer.deltas.head? with
  | none => rfl
  | some first => exact if_pos (Or.inr future)

/-- The edits since the revision a buffer was last seen at lead from its text then to its text
now.
-/
theorem Logged.rewrites_since {full : List RevisionDelta} {buffer next : RopeBuffer}
    (logged : Logged full buffer) (positive : 0 < buffer.deltaCapacity)
    (edits : Edits buffer next) {deltas : List RevisionDelta}
    (since : next.deltasSince buffer.revision = .ok deltas)
    : Logged (full ++ deltas) next ∧ Rewrites buffer.rope deltas next.rope := by
  obtain ⟨later, loggedNext, rewrites⟩ := logged.rewrites edits
  have known : buffer.revision ≤ next.revision := by
    rw [logged.revision, loggedNext.revision, List.length_append]
    omega
  rw [loggedNext.deltasSince _ known (by rw [edits.deltaCapacity]; exact positive)] at since
  split at since
  · obtain rfl := Except.ok.inj since
    rw [logged.revision, List.drop_left]
    exact ⟨loggedNext, rewrites⟩
  · cases since

-- Anchors

theorem checkedAddSigned_eq {value moved : Nat} {delta : Int}
    (sum : (value : Int) + delta = (moved : Int))
    : checkedAddSigned value delta = some moved := by
  unfold checkedAddSigned
  rw [if_pos (by omega), sum, Int.toNat_natCast]

/-- An offset moved through several deltas, oldest first. -/
def transformOffsets (deltas : List RevisionDelta) (bias : Bias) (offset : Nat) : Option Nat :=
  deltas.foldlM (fun offset delta => delta.transformOffset offset bias) offset

theorem transformOffsets_concat {deltas : List RevisionDelta} {bias : Bias}
    {offset moved : Nat} (moves : transformOffsets deltas bias offset = some moved)
    (delta : RevisionDelta)
    : transformOffsets (deltas ++ [delta]) bias offset = delta.transformOffset moved bias := by
  unfold transformOffsets at moves ⊢
  rw [List.foldlM_append, moves]
  simp

/-- A fallible fold that moves an offset as the deltas do follows them, by induction on the
deltas.
-/
private theorem foldlM_of_transformOffsets {deltas : List RevisionDelta} {bias : Bias}
    {offset moved : Nat} {move : Nat → RevisionDelta → Except BufferError Nat}
    (agrees :
      ∀ offset delta moved,
        delta.transformOffset offset bias = some moved → move offset delta = .ok moved)
    (moves : transformOffsets deltas bias offset = some moved)
    : deltas.foldlM move offset = .ok moved := by
  induction deltas generalizing offset with
  | nil =>
      obtain rfl := Option.some.inj moves
      rfl
  | cons delta deltas ih =>
      obtain ⟨next, first, rest⟩ := Option.bind_eq_some_iff.mp moves
      rw [List.foldlM_cons, agrees _ _ _ first]
      exact ih rest

/-- An anchor resolves to where the later edits move its offset, while the log still holds
those edits.
-/
theorem Logged.resolveAnchor {earlier later : List RevisionDelta} {buffer : RopeBuffer}
    (logged : Logged (earlier ++ later) buffer) {anchor : Anchor} {offset : Nat}
    (held : later.length ≤ buffer.deltaCapacity) (positive : 0 < buffer.deltaCapacity)
    (moves : transformOffsets later anchor.bias anchor.offset = some offset)
    (boundary : Boundary buffer.rope offset)
    : buffer.resolveAnchor anchor earlier.length = .ok offset := by
  have valid := (validateOffset_ok_iff buffer offset).mpr boundary
  have revision := logged.revision
  rw [List.length_append] at revision
  unfold RopeBuffer.resolveAnchor
  by_cases current : earlier.length = buffer.revision
  · have none : later = [] := List.eq_nil_of_length_eq_zero (by omega)
    subst none
    obtain rfl := Option.some.inj moves
    rw [if_pos current, valid]
    rfl
  · have since := logged.deltasSince earlier.length (by omega) positive
    rw [if_pos (by omega), List.drop_left] at since
    rw [if_neg current, since]
    refine (except_bind_ok_iff _ _ _).mpr ⟨later, rfl, ?_⟩
    refine (except_bind_ok_iff _ _ _).mpr ⟨offset, ?_, ?_⟩
    · apply foldlM_of_transformOffsets _ moves
      intro offset delta moved transformed
      rw [transformed]
    · rw [valid]
      rfl

theorem Logged.resolveAnchor_lost {earlier later : List RevisionDelta} {buffer : RopeBuffer}
    (logged : Logged (earlier ++ later) buffer) (anchor : Anchor)
    (lost : buffer.deltaCapacity < later.length) (positive : 0 < buffer.deltaCapacity)
    : buffer.resolveAnchor anchor earlier.length
      = .error (.revisionHistoryUnavailable earlier.length buffer.revision) := by
  have revision := logged.revision
  rw [List.length_append] at revision
  have since := logged.deltasSince earlier.length (by omega) positive
  rw [if_neg (by omega)] at since
  unfold RopeBuffer.resolveAnchor
  rw [if_neg (by omega), since]
  rfl

end Hane.Document.RopeBuffer
