import Hane.Document.EditLog
import Hane.Editing.Composition

/-! What holds while a composition is open, and what committing or cancelling it leaves. -/

namespace Hane.Editing

open Hane.Foundations Hane.Document RopeBuffer

/-- Each delta replaces the text from `start` up to where the one before it ended: up to
`first` at the beginning, and `last` at the end.
-/
inductive Retypes (start first : Nat) : List RevisionDelta → Nat → Prop
  | nil : Retypes start first [] first
  | snoc {deltas : List RevisionDelta} {stop : Nat} (revision : Nat) (text : Text)
      : Retypes start first deltas stop
        → start ≤ stop
        → Retypes start first (deltas ++ [editDelta revision ⟨start, stop⟩ text])
            (start + utf8Len text)

theorem transformOffset_start (revision start stop : Nat) (text : Text)
    : (editDelta revision ⟨start, stop⟩ text).transformOffset start .before = some start := by
  unfold RevisionDelta.transformOffset
  exact if_pos (Or.inr ⟨rfl, rfl⟩)

/-- One replacement moves the offset it ends at to its new end, when that offset stays after
it, by whether anything was replaced.
-/
theorem transformOffset_stop (revision : Nat) {start stop : Nat} (text : Text)
    (ordered : start ≤ stop)
    : (editDelta revision ⟨start, stop⟩ text).transformOffset stop .after
      = some (start + utf8Len text) := by
  have inside : ¬ (stop < start ∨ stop = start ∧ Bias.after = Bias.before) := by
    rintro (early | ⟨-, biased⟩)
    · exact absurd ordered (Nat.not_le.mpr early)
    · cases biased
  unfold RevisionDelta.transformOffset
  refine (if_neg inside).trans ?_
  by_cases empty : start = stop
  · have same : ¬ (stop > stop ∨ stop = stop ∧ SourceRange.isEmpty ⟨start, stop⟩ = false) := by
      simp [SourceRange.isEmpty, empty]
    exact if_neg same
  · have proper : stop > stop ∨ stop = stop ∧ SourceRange.isEmpty ⟨start, stop⟩ = false := by
      simp [SourceRange.isEmpty, empty]
    refine (if_pos proper).trans (checkedAddSigned_eq ?_)
    simp only [editDelta, SourceRange.lenBytes]
    omega

/-- The edits of a composition leave its start in place, by induction on them. -/
theorem Retypes.start {start first last : Nat} {deltas : List RevisionDelta}
    (retypes : Retypes start first deltas last)
    : transformOffsets deltas .before start = some start := by
  induction retypes with
  | nil => rfl
  | snoc revision text _ _ ih =>
      rw [transformOffsets_concat ih, transformOffset_start]

/-- The edits of a composition move its first end to its last one, by induction on them. -/
theorem Retypes.stop {start first last : Nat} {deltas : List RevisionDelta}
    (retypes : Retypes start first deltas last)
    : transformOffsets deltas .after first = some last := by
  induction retypes with
  | nil => rfl
  | snoc revision text _ ordered ih =>
      rw [transformOffsets_concat ih, transformOffset_stop revision text ordered]

/-- The composition `ime` is open and has made `count` edits; it shows `shown` in place of the
original text of `settled`.
-/
structure Composing (settled shown : Text) (count : Nat) (ime : ImeState) (editor : Editor)
    : Prop where
  isOpen : editor.ime = some ime
  log :
    ∃ earlier composed,
      Logged (earlier ++ composed) editor.document
      ∧ earlier.length = ime.baseRevision
      ∧ composed.length = count
      ∧ Retypes ime.originalRange.start ime.originalRange.stop composed ime.currentRange.stop
  current : ime.expectedRevision = editor.document.revision
  startAnchor : ime.startAnchor = ⟨ime.originalRange.start, .before⟩
  endAnchor : ime.endAnchor = ⟨ime.originalRange.stop, .after⟩
  replaced :
    ∃ front back,
      settled = front ++ (ime.originalText ++ back)
      ∧ editor.text = front ++ (shown ++ back)
      ∧ ime.originalRange.start = utf8Len front
      ∧ ime.currentRange = ⟨utf8Len front, utf8Len front + utf8Len shown⟩

namespace Editor

theorem compositionTarget_open {editor : Editor} {ime : ImeState}
    (isOpen : editor.ime = some ime) (replacement : Option Utf16Range)
    : compositionTarget replacement editor = (.ok ime.currentRange, editor) := by
  unfold compositionTarget
  rw [Stateful.read_bind, isOpen]
  rfl

/-- Choosing what to replace writes nothing. -/
theorem compositionTarget_state {editor final : Editor} {outcome : Except BufferError SourceRange}
    {replacement : Option Utf16Range}
    (ran : compositionTarget replacement editor = (outcome, final))
    : final = editor := by
  unfold compositionTarget at ran
  rw [Stateful.read_bind] at ran
  cases isOpen : editor.ime with
  | some ime =>
      rw [isOpen] at ran
      exact (Prod.mk.inj ran).2.symm
  | none =>
      rw [isOpen] at ran
      cases replacement <;> exact (Prod.mk.inj ran).2.symm

theorem beginComposition_open {editor : Editor} {ime : ImeState}
    (isOpen : editor.ime = some ime) (range : SourceRange)
    : beginComposition range editor = (.ok (), editor) := by
  unfold beginComposition
  rw [Stateful.read_bind, isOpen]
  rfl

theorem editDocument_append (editor : Editor) {before deleted after : Text}
    (text : editor.text = before ++ (deleted ++ after)) (replacement : Text)
    : ∃ summary document,
        editor.document.edit ⟨utf8Len before, utf8Len before + utf8Len deleted⟩ replacement
          = .ok (summary, document)
        ∧ editDocument ⟨utf8Len before, utf8Len before + utf8Len deleted⟩ replacement editor
          = (.ok summary, { editor with document })
        ∧ document.fullText = before ++ (replacement ++ after)
        ∧ summary.rangeAfter = ⟨utf8Len before, utf8Len before + utf8Len replacement⟩
        ∧ summary.revisionAfter = document.revision := by
  have edited := edit_append editor.document before deleted after replacement text
  refine ⟨_, _, edited, ?_, rfl, rfl, rfl⟩
  unfold editDocument
  rw [edited]

end Editor

theorem Composing.begin (editor : Editor) {full : List RevisionDelta} {range : SourceRange}
    {ime : ImeState} {transactionId : Nat} (logged : Logged full editor.document)
    (begun : ImeState.begin editor transactionId range = .ok ime)
    : Composing editor.text ime.originalText 0 ime { editor with ime := some ime }
      ∧ ime.originalSelection = editor.selection
      ∧ ime.currentRange = range := by
  obtain ⟨originalText, read, begun⟩ := (except_bind_ok_iff _ _ _).mp begun
  obtain ⟨startAnchor, first, begun⟩ := (except_bind_ok_iff _ _ _).mp begun
  obtain ⟨endAnchor, last, begun⟩ := (except_bind_ok_iff _ _ _).mp begun
  obtain ⟨_, _, first⟩ := (except_bind_ok_iff _ _ _).mp first
  obtain ⟨_, _, last⟩ := (except_bind_ok_iff _ _ _).mp last
  obtain rfl := Except.ok.inj begun
  obtain ⟨front, back, text, rfl⟩ := text_split read
  refine ⟨?_, rfl, rfl⟩
  refine {
    isOpen := rfl
    log := ⟨full, [], ?_, logged.revision.symm, rfl, .nil⟩
    current := rfl
    startAnchor := (Except.ok.inj first).symm
    endAnchor := (Except.ok.inj last).symm
    replaced := ⟨front, back, text, text, rfl, rfl⟩
  }
  rw [List.append_nil]
  exact logged

theorem Editor.replaceAndMarkText_run {editor opened : Editor} {current : SourceRange}
    {replacement : Option Utf16Range} {text : Text} {summary : EditSummary}
    {document : RopeBuffer} (selected : Option Utf16Range)
    (target :
      compositionTarget replacement { editor with preferredGraphemeColumn := none }
        = (.ok current, { editor with preferredGraphemeColumn := none }))
    (begun :
      beginComposition current { editor with preferredGraphemeColumn := none }
        = (.ok (), opened))
    (edited : editDocument current text opened = (.ok summary, { opened with document }))
    : replaceAndMarkText replacement text selected editor
      = (.ok summary, Editor.marked { opened with document } summary text selected) := by
  unfold replaceAndMarkText
  rw [Stateful.modify_bind, Stateful.bind_run, target]
  simp only [Stateful.bind_run, begun, edited]
  rfl

theorem Composing.marked {settled shown : Text} {count : Nat} {ime : ImeState}
    {editor : Editor} (composing : Composing settled shown count ime editor) (text : Text)
    (selected : Option Utf16Range)
    : ∃ summary document marked,
        Editor.editDocument ime.currentRange text editor = (.ok summary, { editor with document })
        ∧ Composing settled text (count + 1) marked
            (Editor.marked { editor with document } summary text selected)
        ∧ marked.markedText = text
        ∧ marked.originalSelection = ime.originalSelection := by
  obtain ⟨front, back, original, shows, start, range⟩ := composing.replaced
  obtain ⟨earlier, composed, logged, base, length, retypes⟩ := composing.log
  obtain ⟨summary, document, edited, ran, edit, rangeAfter, revisionAfter⟩ :=
    Editor.editDocument_append editor shows text
  rw [← range] at edited ran
  let span := selected.getD ⟨encodeUtf16Count text, encodeUtf16Count text⟩
  refine ⟨summary, document, ime.update summary text span, ran, ?_, rfl, rfl⟩
  refine {
    isOpen := congrArg (Option.map _) composing.isOpen
    log := ⟨earlier, composed ++ [editDelta editor.document.revision ime.currentRange text],
      ?_, base, ?_, ?_⟩
    current := revisionAfter
    startAnchor := composing.startAnchor
    endAnchor := composing.endAnchor
    replaced := ⟨front, back, original, edit, start, rangeAfter⟩
  }
  · rw [← List.append_assoc]
    exact logged.edit edited
  · rw [List.length_append, length, List.length_singleton]
  · have last : (ime.update summary text span).currentRange.stop
        = ime.originalRange.start + utf8Len text := by
      rw [start]
      exact congrArg SourceRange.stop rangeAfter
    have snoc := retypes.snoc editor.document.revision text (by rw [range, start]; simp)
    have same : (⟨ime.originalRange.start, ime.currentRange.stop⟩ : SourceRange)
        = ime.currentRange := by
      rw [range, start]
    rw [same, ← last] at snoc
    exact snoc

theorem Composing.clearColumn {settled shown : Text} {count : Nat} {ime : ImeState}
    {editor : Editor} (composing : Composing settled shown count ime editor)
    : Composing settled shown count ime { editor with preferredGraphemeColumn := none } :=
  ⟨composing.isOpen, composing.log, composing.current, composing.startAnchor,
    composing.endAnchor, composing.replaced⟩

/-- Marking text in an open composition always succeeds, whatever range and selection the
input method names.
-/
theorem Composing.mark {settled shown : Text} {count : Nat} {ime : ImeState}
    {editor : Editor} (composing : Composing settled shown count ime editor)
    (replacement : Option Utf16Range) (text : Text) (selected : Option Utf16Range)
    : ∃ summary final marked,
        Editor.replaceAndMarkText replacement text selected editor = (.ok summary, final)
        ∧ Composing settled text (count + 1) marked final
        ∧ marked.markedText = text
        ∧ marked.originalSelection = ime.originalSelection
        ∧ final.history = editor.history := by
  obtain ⟨summary, document, marked, edited, next, shows, selection⟩ :=
    composing.clearColumn.marked text selected
  have target := Editor.compositionTarget_open composing.clearColumn.isOpen replacement
  have begun := Editor.beginComposition_open composing.clearColumn.isOpen ime.currentRange
  exact ⟨summary, _, marked, Editor.replaceAndMarkText_run selected target begun edited, next, shows,
    selection, rfl⟩

theorem Editor.beginComposition_ok {editor opened : Editor} {range : SourceRange}
    (closed : editor.ime = none)
    (begun : beginComposition range editor = (.ok (), opened))
    : ∃ ime,
        ImeState.begin { editor with nextTransaction := editor.nextTransaction + 1 }
          editor.nextTransaction range = .ok ime
        ∧ opened
          = { editor with nextTransaction := editor.nextTransaction + 1, ime := some ime } := by
  unfold beginComposition at begun
  rw [Stateful.read_bind, closed] at begun
  simp only [Stateful.modify_bind] at begun
  obtain ⟨ime, middle, asked, begun⟩ := Stateful.bind_ok begun
  obtain ⟨begin, rfl⟩ := Stateful.query_ok asked
  exact ⟨ime, begin, (Prod.mk.inj begun).2.symm⟩

theorem Composing.first {editor final : Editor} {full : List RevisionDelta}
    {replacement selected : Option Utf16Range} {text : Text} {summary : EditSummary}
    (logged : Logged full editor.document) (closed : editor.ime = none)
    (accepted :
      Editor.replaceAndMarkText replacement text selected editor = (.ok summary, final))
    : ∃ marked,
        Composing editor.text text 1 marked final
        ∧ marked.markedText = text
        ∧ marked.originalSelection = editor.selection
        ∧ final.history = editor.history := by
  have cleared : ({ editor with preferredGraphemeColumn := none } : Editor).ime = none := closed
  have ran := accepted
  unfold Editor.replaceAndMarkText at ran
  rw [Stateful.modify_bind] at ran
  obtain ⟨current, middle, target, ran⟩ := Stateful.bind_ok ran
  obtain rfl := Editor.compositionTarget_state target
  obtain ⟨_, opened, begun, _⟩ := Stateful.bind_ok ran
  obtain ⟨ime, begin, rfl⟩ := Editor.beginComposition_ok cleared begun
  obtain ⟨composing, selection, range⟩ := Composing.begin
    { editor with preferredGraphemeColumn := none, nextTransaction := editor.nextTransaction + 1 }
    logged begin
  obtain ⟨_, document, marked, edited, next, shows, kept⟩ :=
    composing.marked text selected
  rw [range] at edited
  have run := Editor.replaceAndMarkText_run selected target begun edited
  obtain ⟨-, rfl⟩ := Prod.mk.inj (accepted.symm.trans run)
  exact ⟨marked, next, shows, kept.trans selection, rfl⟩

/-- Cancelling while the log still holds the composition's edits restores the text and the
selection it began with. Witness: both anchors resolve to the composed range.
-/
theorem Composing.cancel {settled shown : Text} {count : Nat} {ime : ImeState}
    {editor : Editor} (composing : Composing settled shown count ime editor)
    (held : count ≤ editor.document.deltaCapacity) (positive : 0 < editor.document.deltaCapacity)
    : ∃ final,
        Editor.cancelComposition editor = (.ok .restored, final)
        ∧ final.text = settled
        ∧ final.selection = ime.originalSelection
        ∧ final.ime = none
        ∧ final.history = editor.history
        ∧ Edited editor.document final.document := by
  obtain ⟨front, back, rfl, shows, start, range⟩ := composing.replaced
  obtain ⟨earlier, composed, logged, base, rfl, retypes⟩ := composing.log
  obtain ⟨summary, document, edited, ran, restored, -⟩ :=
    Editor.editDocument_append { editor with ime := none } shows ime.originalText
  rw [← range] at edited ran
  have first : editor.document.resolveAnchor ime.startAnchor ime.baseRevision
      = .ok ime.currentRange.start := by
    rw [composing.startAnchor, ← base, range, ← start]
    apply logged.resolveAnchor held positive retypes.start
    rw [start, show editor.document.rope = _ from shows]
    exact Boundary.of_append front _
  have last : editor.document.resolveAnchor ime.endAnchor ime.baseRevision
      = .ok ime.currentRange.stop := by
    rw [composing.endAnchor, ← base]
    apply logged.resolveAnchor held positive retypes.stop
    rw [range, show editor.document.rope = _ from shows, ← utf8Len_append,
      ← List.append_assoc]
    exact Boundary.of_append (front ++ shown) back
  refine ⟨{ editor with
    ime := none, document, selection := ime.originalSelection, preferredGraphemeColumn := none },
    ?_, restored, rfl, rfl, rfl, ime.currentRange, ime.originalText, summary, edited⟩
  unfold Editor.cancelComposition
  rw [Stateful.read_bind, composing.isOpen]
  simp only [Stateful.modify_bind]
  rw [if_neg (by simp [composing.current])]
  simp only [Stateful.bind_run, Stateful.query_run, first, last]
  rw [if_neg (by simp)]
  simp only [Stateful.bind_run, ran]
  rfl

theorem Composing.cancel_lost {settled shown : Text} {count : Nat} {ime : ImeState}
    {editor : Editor} (composing : Composing settled shown count ime editor)
    (lost : editor.document.deltaCapacity < count) (positive : 0 < editor.document.deltaCapacity)
    : Editor.cancelComposition editor
      = (.error (.revisionHistoryUnavailable ime.baseRevision editor.document.revision),
          { editor with ime := none }) := by
  obtain ⟨earlier, composed, logged, base, rfl, -⟩ := composing.log
  have first := logged.resolveAnchor_lost ime.startAnchor lost positive
  rw [base] at first
  unfold Editor.cancelComposition
  rw [Stateful.read_bind, composing.isOpen]
  simp only [Stateful.modify_bind]
  rw [if_neg (by simp [composing.current])]
  simp only [Stateful.bind_run, Stateful.query_run, first]

end Hane.Editing
