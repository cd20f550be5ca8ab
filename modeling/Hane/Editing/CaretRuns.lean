import Hane.Editing.Carets

/-! What the selection is after each operation, along every run, and what a refused operation
changes.
-/

namespace Hane.Editing

open Hane.Foundations Hane.Document RopeBuffer Stateful

/-- What an operation does before it looks at its arguments: the latest group is closed, and the
open composition is committed.
-/
def Editor.settle (editor : Editor) (clock : Clock) : Editor :=
  editor.breakGroup.commitComposition clock.composed

theorem Editor.settle_text (editor : Editor) (clock : Clock)
    : (editor.settle clock).text = editor.text :=
  commitComposition_text _ _

theorem Editor.settle_selection (editor : Editor) (clock : Clock)
    : (editor.settle clock).selection = editor.selection :=
  commitComposition_selection _ _

section Refused

variable (editor : Editor)

/-- A selection is taken over when both its ends are valid, and refused otherwise. -/
theorem Editor.setSelection_cases (selection : Selection) (clock : Clock)
    : (∃ problem, setSelection selection clock editor = (.error problem, editor.settle clock))
      ∨ Fits editor.text selection
        ∧ setSelection selection clock editor
          = (.ok (), ({ editor.settle clock with selection } : Editor).clearColumns) := by
  have text := editor.settle_text clock
  unfold setSelection settle at *
  rw [modify_bind, modify_bind]
  generalize editor.breakGroup.commitComposition clock.composed = settled at *
  simp only [bind_run, query_run]
  cases anchor : settled.document.validateOffset selection.anchor with
  | error problem => exact .inl ⟨problem, rfl⟩
  | ok =>
      simp only
      cases active : settled.document.validateOffset selection.active with
      | error problem => exact .inl ⟨problem, rfl⟩
      | ok =>
          refine .inr ⟨?_, rfl⟩
          rw [← text]
          exact ⟨(validateOffset_ok_iff _ _).mp anchor, (validateOffset_ok_iff _ _).mp active⟩

/-- The caret moves to a valid target, and the move is refused otherwise. -/
theorem Editor.moveVerticalTo_cases (target : Nat) (extend : Bool) (preferredX : Int)
    (clock : Clock)
    : (∃ problem,
        moveVerticalTo target extend preferredX clock editor
          = (.error problem, editor.settle clock))
      ∨ Boundary editor.text target
        ∧ ∃ final,
            moveVerticalTo target extend preferredX clock editor = (.ok (), final)
            ∧ KeepsWork (editor.settle clock) final
            ∧ final.selection
              = if extend then
                  { editor.selection with active := target }
                else
                  Selection.caret target := by
  have text := editor.settle_text clock
  have selection := editor.settle_selection clock
  unfold moveVerticalTo settle at *
  rw [modify_bind, modify_bind]
  generalize editor.breakGroup.commitComposition clock.composed = settled at *
  simp only [bind_run, query_run]
  cases valid : settled.document.validateOffset target with
  | error problem => exact .inl ⟨problem, rfl⟩
  | ok =>
      refine .inr ⟨text ▸ (validateOffset_ok_iff _ _).mp valid, ?_⟩
      rw [← selection]
      cases extend with
      | true => exact ⟨_, rfl, ⟨rfl, rfl, rfl⟩, rfl⟩
      | false => exact ⟨_, rfl, ⟨rfl, rfl, rfl⟩, rfl⟩

/-- A planned replacement is made, or refused before anything is edited. -/
theorem Editor.replaceRangeRecorded_cases (range : SourceRange) (replacement : Text)
    (selectionAfter : Selection) (clock : Clock)
    : (∃ problem,
        replaceRangeRecorded range replacement selectionAfter clock editor
          = (.error problem, editor.settle clock))
      ∨ ∃ summary document,
          (editor.settle clock).document.edit range replacement = .ok (summary, document)
          ∧ replaceRangeRecorded range replacement selectionAfter clock editor
            = (.ok summary,
                { editor.settle clock with
                  document
                  selection := selectionAfter
                  preferredGraphemeColumn := none
                  preferredVisualX := none
                  history :=
                    (editor.settle clock).history.recordReplacement summary.rangeBefore.start
                      summary.inverse.replacement replacement editor.selection selectionAfter
                      .replace clock.recorded }) := by
  have selection := editor.settle_selection clock
  unfold replaceRangeRecorded settle at *
  rw [modify_bind, modify_bind, ← selection]
  generalize editor.breakGroup.commitComposition clock.composed = settled at *
  simp only [bind_run, query_run]
  cases valid : settled.document.validateRange range with
  | error problem => exact .inl ⟨problem, rfl⟩
  | ok =>
      simp only [read_run]
      split
      · exact .inl ⟨_, rfl⟩
      · split
        · exact .inl ⟨_, rfl⟩
        · obtain ⟨summary, document, edited⟩
              : ∃ summary document, settled.document.edit range replacement
                = .ok (summary, document) := by
            rw [RopeBuffer.edit, valid]
            exact ⟨_, _, rfl⟩
          refine .inr ⟨summary, document, edited, ?_⟩
          have ran : editDocument range replacement settled
              = (.ok summary, { settled with document }) := by
            rw [editDocument, edited]
          simp only [bind_run, ran]
          rfl

end Refused

-- Each operation

section Fit

variable {editor : Editor} (fit : Fit editor)

include fit

theorem Fit.settle (clock : Clock) : FitIdle (editor.settle clock) :=
  fit.breakGroup.commitComposition clock.composed

theorem Fit.setSelection (selection : Selection) (clock : Clock)
    : FitIdle (Editor.setSelection selection clock editor).2 := by
  have idle := fit.settle clock
  rcases editor.setSelection_cases selection clock with ⟨problem, refused⟩ | ⟨fits, set⟩
  · rw [refused]
    exact idle
  · rw [set]
    exact idle.keepsWork ⟨rfl, rfl, rfl⟩ ((editor.settle_text clock).symm ▸ fits)

theorem Fit.moveVerticalTo (target : Nat) (extend : Bool) (preferredX : Int) (clock : Clock)
    : FitIdle (Editor.moveVerticalTo target extend preferredX clock editor).2 := by
  have idle := fit.settle clock
  rcases editor.moveVerticalTo_cases target extend preferredX clock
    with ⟨problem, refused⟩ | ⟨boundary, final, moved, keeps, selection⟩
  · rw [refused]
    exact idle
  · rw [moved]
    refine idle.keepsWork keeps ?_
    rw [editor.settle_text clock, selection]
    cases extend with
    | true => exact ⟨fit.selection.anchor, boundary⟩
    | false => exact .caret boundary

theorem Fit.replaceRangeRecorded (range : SourceRange) (replacement : Text)
    (selectionAfter : Selection) (clock : Clock)
    (planned :
      ∀ summary final,
        Editor.replaceRangeRecorded range replacement selectionAfter clock editor
          = (.ok summary, final)
        → Fits final.text selectionAfter)
    : FitIdle (Editor.replaceRangeRecorded range replacement selectionAfter clock editor).2 := by
  have idle := fit.settle clock
  rcases editor.replaceRangeRecorded_cases range replacement selectionAfter clock
    with ⟨problem, refused⟩ | ⟨summary, document, edited, replaced⟩
  · rw [refused]
    exact idle
  · have after : Fits document.rope selectionAfter := planned _ _ replaced
    have before : Fits (editor.settle clock).document.rope editor.selection := by
      have text : (editor.settle clock).document.rope = editor.text := editor.settle_text clock
      exact text ▸ fit.selection
    obtain ⟨chunks, edits⟩ := idle.edits
    obtain ⟨initial, fitting⟩ := idle.history
    rw [replaced]
    exact ⟨⟨chunks, edits.tail ⟨_, _, _, edited⟩⟩, after, idle.closed, initial,
      fitting.recordReplacement
        ⟨⟨HistoryEntry.Applies.fromSummary edited _ _ .replace clock.recorded, before⟩, after⟩⟩

end Fit

-- Compositions

/-- A count of UTF-16 units leads to a boundary, by induction on the text. -/
theorem utf16ToByteFrom_boundary (offset : Nat) (text : Text) (utf16 bytes : Nat)
    : ∃ passed, RopeBuffer.utf16ToByteFrom offset text utf16 bytes = bytes + passed
        ∧ Boundary text passed := by
  induction text generalizing utf16 bytes with
  | nil => exact ⟨0, rfl, .zero _⟩
  | cons c rest ih =>
      rw [RopeBuffer.utf16ToByteFrom]
      split
      · exact ⟨0, rfl, .zero _⟩
      · obtain ⟨passed, reached, before, after, rfl, rfl⟩ := ih (utf16 + RopeBuffer.lenUtf16 c)
          (bytes + c.utf8Size)
        refine ⟨c.utf8Size + utf8Len before, by omega, c :: before, after, rfl, ?_⟩
        rw [utf8Len_cons]

theorem Composing.fits_marked {settled text : Text} {count : Nat} {marked : ImeState}
    {editor : Editor} {summary : EditSummary} {selected : Option Utf16Range}
    (composing : Composing settled text count marked (editor.marked summary text selected))
    : Fits (editor.marked summary text selected).text
        (editor.marked summary text selected).selection := by
  obtain ⟨front, back, -, shows, -, range⟩ := composing.replaced
  obtain ⟨ime, -, same⟩ := Option.map_eq_some_iff.mp composing.isOpen
  have start : summary.rangeAfter.start = utf8Len front := by
    rw [← same] at range
    exact congrArg SourceRange.start range
  let span := selected.getD ⟨encodeUtf16Count text, encodeUtf16Count text⟩
  have within (offset : Nat)
      : Boundary (editor.marked summary text selected).text
          (summary.rangeAfter.start + RopeBuffer.utf16ToByteFrom offset text 0 0) := by
    obtain ⟨passed, reached, boundary⟩ := utf16ToByteFrom_boundary offset text 0 0
    rw [start, reached, Nat.zero_add]
    exact boundary.within shows
  exact ⟨within span.start, within span.stop⟩

/-- What the input method names is refused, or a range that can be read. -/
theorem Editor.compositionTarget_closed {editor : Editor} (closed : editor.ime = none)
    (fits : Fits editor.text editor.selection) (replacement : Option Utf16Range)
    : (∃ problem, compositionTarget replacement editor = (.error problem, editor))
      ∨ ∃ range, compositionTarget replacement editor = (.ok range, editor)
        ∧ editor.document.ReadsRange range := by
  unfold compositionTarget
  rw [read_bind, closed]
  cases replacement with
  | none => exact .inr ⟨_, rfl, fits.reads⟩
  | some named =>
      simp only [query_run, utf16RangeToSource]
      cases valid : editor.document.validateRange
          ⟨editor.document.utf16ToByte named.start, editor.document.utf16ToByte named.stop⟩ with
      | error problem => exact .inl ⟨problem, rfl⟩
      | ok =>
          obtain ⟨ordered, start, stop⟩ := (validateRange_ok_iff _ _).mp valid
          exact .inr ⟨_, rfl, ordered, start, stop⟩

theorem ImeState.begin_succeeds {editor : Editor} {range : SourceRange}
    (reads : editor.document.ReadsRange range) (transactionId : Nat)
    : ∃ ime, ImeState.begin editor transactionId range = .ok ime := by
  obtain ⟨text, read, -⟩ := reads.text
  have start := (validateOffset_ok_iff _ _).mpr reads.start
  have stop := (validateOffset_ok_iff _ _).mpr reads.stop
  rw [ImeState.begin, read]
  simp only [bind, Except.bind, RopeBuffer.anchor, start, stop, pure, Except.pure]
  exact ⟨_, rfl⟩

theorem Editor.beginComposition_closed {editor : Editor} {range : SourceRange} {ime : ImeState}
    (closed : editor.ime = none)
    (begin :
      ImeState.begin { editor with nextTransaction := editor.nextTransaction + 1 }
        editor.nextTransaction range = .ok ime)
    : beginComposition range editor
      = (.ok (),
          { editor with nextTransaction := editor.nextTransaction + 1, ime := some ime }) := by
  obtain ⟨document, selection, column, visualX, composed, next, history⟩ := editor
  obtain rfl : composed = none := closed
  rw [beginComposition, read_bind]
  simp only [modify_bind]
  rw [bind_run, query_run, begin]
  rfl

section Compositions

variable {editor : Editor} (fit : Fit editor)

include fit

theorem Fit.clearColumn : Fit { editor with preferredGraphemeColumn := none } := by
  obtain ⟨initial, settled, fitting, rests⟩ := fit.history
  refine ⟨fit.edits, fit.selection, initial, settled, fitting, ?_⟩
  cases rests with
  | idle closed logged =>
      exact @Rests.idle Fits { editor with preferredGraphemeColumn := none } _ closed logged
  | composing composing known => exact .composing composing.clearColumn known

theorem Fit.edits_trans {final : Editor} (edited : EditsDocument editor final)
    : ∃ chunks, RopeBuffer.Edits (RopeBuffer.fromRope chunks) final.document := by
  obtain ⟨chunks, edits⟩ := fit.edits
  exact ⟨chunks, edits.trans edited⟩

theorem Fit.replaceAndMarkText (replacement : Option Utf16Range) (text : Text)
    (selected : Option Utf16Range)
    : Fit (Editor.replaceAndMarkText replacement text selected editor).2 := by
  have edits := fit.edits_trans
    (Editor.replaceAndMarkText_editsDocument replacement text selected editor)
  have cleared := fit.clearColumn
  obtain ⟨initial, settled, fitting, rests⟩ := cleared.history
  cases rests with
  | composing composing known =>
      obtain ⟨summary, document, marked, edited, next, shows, kept⟩ :=
        composing.marked text selected
      have run := Editor.replaceAndMarkText_run selected
        (Editor.compositionTarget_open composing.isOpen replacement)
        (Editor.beginComposition_open composing.isOpen _) edited
      rw [run] at edits ⊢
      subst shows
      exact ⟨edits, next.fits_marked, initial, settled, fitting, .composing next (kept ▸ known)⟩
  | idle closed logged =>
      rcases Editor.compositionTarget_closed closed cleared.selection replacement
        with ⟨problem, refused⟩ | ⟨range, target, reads⟩
      · have run : Editor.replaceAndMarkText replacement text selected editor
            = (.error problem, { editor with preferredGraphemeColumn := none }) := by
          rw [Editor.replaceAndMarkText, modify_bind, bind_run, refused]
        rw [run]
        exact cleared
      · obtain ⟨ime, begin⟩ := @ImeState.begin_succeeds
          { editor with
            preferredGraphemeColumn := none, nextTransaction := editor.nextTransaction + 1 }
          range reads editor.nextTransaction
        obtain ⟨composing, selection, current⟩ := Composing.begin
          { editor with
            preferredGraphemeColumn := none, nextTransaction := editor.nextTransaction + 1 }
          logged begin
        obtain ⟨summary, document, marked, edited, next, shows, kept⟩ :=
          composing.marked text selected
        rw [current] at edited
        have begun := @Editor.beginComposition_closed
          { editor with preferredGraphemeColumn := none } range ime closed begin
        have run := Editor.replaceAndMarkText_run selected target begun edited
        rw [run] at edits ⊢
        subst shows
        have known : Fits editor.text marked.originalSelection :=
          (kept.trans selection).symm ▸ fit.selection
        exact ⟨edits, next.fits_marked, initial, editor.text, fitting, .composing next known⟩

/-- Committing a text, also where it is refused, leaves selections that fit. -/
theorem Fit.commitText (replacement : Option Utf16Range) (text : Text) (clock : Clock)
    : Fit (Editor.commitText replacement text clock editor).2 := by
  have edits := fit.edits_trans (Editor.commitText_editsDocument replacement text clock editor)
  have cleared := fit.clearColumn
  obtain ⟨initial, settled, fitting, rests⟩ := cleared.history
  cases rests with
  | composing composing known =>
      obtain ⟨front, back, original, shows, start, current⟩ := composing.replaced
      obtain ⟨summary, document, edit, ran, rope, rangeAfter, -⟩ :=
        Editor.editDocument_append
          { editor with preferredGraphemeColumn := none, ime := none } shows text
      rw [← current] at edit ran
      have target := Editor.compositionTarget_open composing.isOpen replacement
      rename_i count ime
      have isOpen : editor.ime = some ime := composing.isOpen
      have whole : document.rope = (front ++ text) ++ back := by
        rw [List.append_assoc]
        exact rope
      have after : Fits document.rope (Selection.caret summary.rangeAfter.stop) := by
        rw [rangeAfter, whole, ← utf8Len_append]
        exact .caret (.of_append _ _)
      have run : Editor.commitText replacement text clock editor
          = (.ok summary,
              { editor with
                preferredGraphemeColumn := none
                ime := none
                document
                selection := Selection.caret summary.rangeAfter.stop
                history :=
                  editor.history.recordReplacement ime.originalRange.start ime.originalText text
                    ime.originalSelection (Selection.caret summary.rangeAfter.stop) .ime
                    clock.recorded }) := by
        rw [Editor.commitText, modify_bind, bind_run, target]
        simp only [read_bind, modify_bind]
        rw [bind_run, ran]
        simp only [modify_bind, isOpen]
        rfl
      rw [run] at edits ⊢
      exact FitIdle.fit ⟨edits, after, rfl, initial, fitting.recordReplacement
        ⟨⟨⟨front, back, original, rope, start⟩, known⟩, after⟩⟩
  | idle closed logged =>
      rcases Editor.compositionTarget_closed closed cleared.selection replacement
        with ⟨problem, refused⟩ | ⟨range, target, reads⟩
      · have run : Editor.commitText replacement text clock editor
            = (.error problem, { editor with preferredGraphemeColumn := none }) := by
          rw [Editor.commitText, modify_bind, bind_run, refused]
        rw [run]
        exact cleared
      · obtain ⟨summary, document, edit, ran, stop, -⟩ := @Editor.editDocument_reads
          { editor with preferredGraphemeColumn := none, ime := none } range fit.edits reads text
        have after : Fits document.rope (Selection.caret summary.rangeAfter.stop) := .caret stop
        have isClosed : editor.ime = none := closed
        have run : Editor.commitText replacement text clock editor
            = (.ok summary,
                { editor with
                  preferredGraphemeColumn := none
                  ime := none
                  document
                  selection := Selection.caret summary.rangeAfter.stop
                  history :=
                    editor.history.record summary text editor.selection
                      (Selection.caret summary.rangeAfter.stop)
                      (if editor.selection.range.isEmpty then .insert else .replace)
                      clock.received }) := by
          rw [Editor.commitText, modify_bind, bind_run, target]
          simp only [read_bind, modify_bind]
          rw [bind_run, ran]
          simp only [modify_bind, isClosed]
          rfl
        rw [run] at edits ⊢
        exact FitIdle.fit ⟨edits, after, rfl, initial,
          fitting.record edit fit.selection after _ clock.received⟩

/-- Cancelling leaves selections that fit, unless the log lost the composition's first edits. -/
theorem Fit.cancelComposition {outcome : ImeCancelOutcome} {final : Editor}
    (ran : Editor.cancelComposition editor = (.ok outcome, final))
    : FitIdle final := by
  have edits := fit.edits_trans (Editor.cancelComposition_editsDocument.apply ran)
  obtain ⟨chunks, edited⟩ := fit.edits
  obtain ⟨initial, settled, fitting, rests⟩ := fit.history
  cases rests with
  | idle closed logged =>
      unfold Editor.cancelComposition at ran
      rw [read_bind, closed] at ran
      obtain ⟨-, rfl⟩ := Prod.mk.inj ran
      exact fit.idle closed
  | composing composing known =>
      rename_i count ime
      have positive : 0 < editor.document.deltaCapacity := by
        have capacity : editor.document.deltaCapacity = 4096 := edited.deltaCapacity
        omega
      rcases Nat.lt_or_ge editor.document.deltaCapacity count with lost | held
      · rw [composing.cancel_lost lost positive] at ran
        cases ran
      · obtain ⟨restored, cancelled, text, selection, closed, history, -⟩ :=
          composing.cancel held positive
        obtain ⟨-, rfl⟩ := Prod.mk.inj (ran.symm.trans cancelled)
        refine ⟨edits, ?_, closed, initial, ?_⟩
        · rw [text, selection]
          exact known
        · rw [text, history]
          exact fitting

end Compositions

-- Runs

/-- One operation, successful or not, in which a planned replacement that succeeds has a selection
that fits the text it leaves, and a cancellation does not fail.
-/
inductive CaretStep (unicode : Unicode) (before after : Editor) : Prop where
  | mk (operation : Operation) (clock : Clock) (outcome : Except BufferError Unit)
      (ran : operation.run unicode clock before = (outcome, after))
      (planned :
        ∀ range replacement selectionAfter,
          operation = .replaceRangeRecorded range replacement selectionAfter
          → outcome = .ok ()
          → Fits after.text selectionAfter)
      (cancelled : operation = .cancelComposition → outcome = .ok ())

theorem dropped_state {α : Type} (program : EditorM α) (editor : Editor)
    : ((do let _ ← program) editor).2 = (program editor).2 := by
  rw [bind_run]
  rcases program editor with ⟨problem | value, final⟩ <;> rfl

/-- Every such operation leaves selections that fit, by case on the operation. -/
theorem Fit.step {unicode : Unicode} {before after : Editor} (fit : Fit before)
    (step : CaretStep unicode before after)
    : Fit after := by
  obtain ⟨operation, clock, outcome, ran, planned, cancelled⟩ := step
  have reached : (operation.run unicode clock before).2 = after := congrArg Prod.snd ran
  cases operation with
  | dispatch command =>
      obtain ⟨result, final, dispatched, idle⟩ := fit.dispatch command clock
      rw [Operation.run, dropped_state, dispatched] at reached
      exact reached ▸ idle.fit
  | setSelection selection => exact reached ▸ (fit.setSelection selection clock).fit
  | moveVerticalTo target extend preferredX =>
      exact reached ▸ (fit.moveVerticalTo target extend preferredX clock).fit
  | replaceRangeRecorded range replacement selectionAfter =>
      rw [Operation.run, dropped_state] at reached
      refine reached ▸ (fit.replaceRangeRecorded range replacement selectionAfter clock ?_).fit
      intro summary final replaced
      rw [replaced] at reached
      rw [Operation.run, bind_run, replaced] at ran
      obtain rfl : final = after := reached
      exact planned range replacement selectionAfter rfl (congrArg Prod.fst ran).symm
  | replaceAndMarkText replacement text selected =>
      rw [Operation.run, dropped_state] at reached
      exact reached ▸ fit.replaceAndMarkText replacement text selected
  | commitText replacement text =>
      rw [Operation.run, dropped_state] at reached
      exact reached ▸ fit.commitText replacement text clock
  | commitComposition => exact reached ▸ (fit.commitComposition clock.composed).fit
  | cancelComposition =>
      obtain rfl := cancelled rfl
      obtain ⟨result, middle, operated, done⟩ := bind_ok ran
      obtain ⟨-, rfl⟩ := Prod.mk.inj done
      exact (fit.cancelComposition operated).fit

/-- Runs leave selections that fit, by induction on the operations. -/
theorem Fit.steps {unicode : Unicode} {start editor : Editor} (fit : Fit start)
    (run : Relation.ReflTransGen (CaretStep unicode) start editor)
    : Fit editor := by
  induction run with
  | refl => exact fit
  | tail _ step ih => exact ih.step step

theorem Fit.fromDocument {chunks : List Text} {document : RopeBuffer}
    (edits : RopeBuffer.Edits (RopeBuffer.fromRope chunks) document)
    : Fit (Editor.fromDocument document) :=
  FitIdle.fit ⟨⟨chunks, edits⟩, .caret (.zero _), rfl, document.rope,
    ⟨.nil _, document.rope, .nil _⟩⟩

/-- A refused operation closes the latest group and commits the open composition, as one recorded
replacement, and changes nothing else.
-/
structure Refused (editor : Editor) (clock : Clock) (final : Editor) : Prop where
  settled : final = editor.settle clock
  text : final.text = editor.text
  selection : final.selection = editor.selection
  closed : final.ime = none
  idle : editor.ime = none → final = editor.breakGroup
  composed :
    ∀ ime, editor.ime = some ime
      → final.history
        = editor.history.breakGroup.recordReplacement ime.originalRange.start ime.originalText
            ime.markedText ime.originalSelection editor.selection .ime clock.composed

theorem Refused.of_settled {editor final : Editor} {clock : Clock}
    (settled : final = editor.settle clock)
    : Refused editor clock final := by
  refine ⟨settled, settled ▸ editor.settle_text clock, settled ▸ editor.settle_selection clock,
    ?_, fun closed => ?_, fun ime isOpen => ?_⟩
  · rw [settled, Editor.settle, Editor.commitComposition]
    split
    · assumption
    · rfl
  · rw [settled, Editor.settle, Editor.commitComposition,
      show editor.breakGroup.ime = none from closed]
  · rw [settled, Editor.settle, Editor.commitComposition,
      show editor.breakGroup.ime = some ime from isOpen]
    rfl

/-- What holds of the selection in every state of a run, and of what is refused there. -/
structure CaretsKept (unicode : Unicode) (editor : Editor) : Prop where
  anchor : editor.document.validateOffset editor.selection.anchor = .ok ()
  active : editor.document.validateOffset editor.selection.active = .ok ()
  commands :
    ∀ command clock, ∃ summary final,
      Editor.dispatch unicode command clock editor = (.ok summary, final)
  setSelection :
    ∀ selection clock problem final,
      Editor.setSelection selection clock editor = (.error problem, final)
      → Refused editor clock final
  moveVerticalTo :
    ∀ target extend preferredX clock problem final,
      Editor.moveVerticalTo target extend preferredX clock editor = (.error problem, final)
      → Refused editor clock final
  replaceRangeRecorded :
    ∀ range replacement selectionAfter clock problem final,
      Editor.replaceRangeRecorded range replacement selectionAfter clock editor
        = (.error problem, final)
      → Refused editor clock final

/-- In every run in which planned replacements get selections that fit and no cancellation fails,
the selection is valid in every state, whether the last operation succeeded or not, every command
succeeds, and a refused operation changes nothing but the group and the composition.
-/
theorem carets_kept {unicode : Unicode} {chunks : List Text} {document : RopeBuffer}
    {editor : Editor} (edits : RopeBuffer.Edits (RopeBuffer.fromRope chunks) document)
    (run : Relation.ReflTransGen (CaretStep unicode) (Editor.fromDocument document) editor)
    : CaretsKept unicode editor := by
  have fit := (Fit.fromDocument edits).steps run
  refine {
    anchor := (validateOffset_ok_iff _ _).mpr fit.selection.anchor
    active := (validateOffset_ok_iff _ _).mpr fit.selection.active
    commands := ?_
    setSelection := ?_
    moveVerticalTo := ?_
    replaceRangeRecorded := ?_
  }
  · intro command clock
    obtain ⟨summary, final, dispatched, -⟩ := fit.dispatch command clock
    exact ⟨summary, final, dispatched⟩
  · intro selection clock problem final refused
    apply Refused.of_settled
    rcases editor.setSelection_cases selection clock with ⟨problem', ran⟩ | ⟨-, ran⟩
    · exact (congrArg Prod.snd (refused.symm.trans ran))
    · cases refused.symm.trans ran
  · intro target extend preferredX clock problem final refused
    apply Refused.of_settled
    rcases editor.moveVerticalTo_cases target extend preferredX clock
      with ⟨problem', ran⟩ | ⟨-, moved, ran, -⟩
    · exact (congrArg Prod.snd (refused.symm.trans ran))
    · cases refused.symm.trans ran
  · intro range replacement selectionAfter clock problem final refused
    apply Refused.of_settled
    rcases editor.replaceRangeRecorded_cases range replacement selectionAfter clock
      with ⟨problem', ran⟩ | ⟨summary, edited, -, ran⟩
    · exact (congrArg Prod.snd (refused.symm.trans ran))
    · cases refused.symm.trans ran

/-- An empty editor with one letter marked. -/
def composedEditor : Editor :=
  ((Operation.replaceAndMarkText none ['a'] none).run Unicode.ascii ⟨0, 0, 0⟩
    (Editor.fromDocument (RopeBuffer.fromRope [[]]))).2

theorem composedEditor_ran
    : (Operation.replaceAndMarkText none ['a'] none).run Unicode.ascii ⟨0, 0, 0⟩
        (Editor.fromDocument (RopeBuffer.fromRope [[]]))
      = (.ok (), composedEditor) := by
  decide

theorem carets_kept_composed : CaretsKept Unicode.ascii composedEditor :=
  carets_kept .refl (.single (.mk _ _ _ composedEditor_ran nofun nofun))

/-- A refused selection has already committed the open composition, and a planned selection inside
a character is accepted.
-/
theorem refused_selection_commits
    : (∃ problem final,
        Editor.setSelection ⟨9, 9⟩ ⟨0, 0, 0⟩ composedEditor = (.error problem, final)
        ∧ composedEditor.ime.isSome = true
        ∧ final.ime = none
        ∧ final.history ≠ composedEditor.history)
      ∧ ∃ summary final,
          Editor.replaceRangeRecorded ⟨0, 0⟩ [] ⟨1, 1⟩ ⟨0, 0, 0⟩ (Editor.new ['é'])
            = (.ok summary, final)
          ∧ final.document.validateOffset final.selection.active ≠ .ok () := by
  refine ⟨⟨.offsetOutOfBounds 9 1,
    (Editor.setSelection ⟨9, 9⟩ ⟨0, 0, 0⟩ composedEditor).2, ?_, ?_, ?_, ?_⟩, ?_⟩
  · decide
  · decide
  · decide
  · decide
  · obtain ⟨summary, replaced⟩ := Stateful.ok_of_isOk
      (show (Editor.replaceRangeRecorded ⟨0, 0⟩ [] ⟨1, 1⟩ ⟨0, 0, 0⟩ (Editor.new ['é'])).1.isOk
        = true by decide)
    exact ⟨summary, _, replaced, by decide⟩

end Hane.Editing
