import Hane.Document.Edits
import Hane.Markdown.BlockIndex
import Mathlib.Logic.Relation

/-! The published block index, which background parses and edits reach in any order. -/

namespace Hane.Markdown

open Hane.Document

inductive IndexSource where
  | formal
  | provisional
deriving DecidableEq

inductive PublishOutcome where
  | published
  | rebased (update : BlockIndexUpdate)
  | stale
  | notMoreAuthoritative
  | historyUnavailable
deriving DecidableEq

structure BlockIndexState (parser : Parser) where
  published : Option (BlockIndex parser)
  source : Option IndexSource

namespace BlockIndexState

variable {parser : Parser}

def new : BlockIndexState parser := ⟨none, none⟩

/-- Brings the published index up to the buffer's revision, and drops it when the buffer no
longer remembers the edits.
-/
def applyEdits (state : BlockIndexState parser) (buffer : RopeBuffer)
    : Option BlockIndexUpdate × BlockIndexState parser :=
  match state.published with
  | none => (none, state)
  | some index =>
      if index.revision = buffer.revision then
        (none, state)
      else
        match buffer.deltasSince index.revision with
        | .error _ => (none, ⟨none, none⟩)
        | .ok deltas =>
            let (update, index) := index.update buffer deltas
            (some update, ⟨some index, some .provisional⟩)

/-- Why the published index rules out a candidate, if it does. -/
def refusal (state : BlockIndexState parser) (candidate : BlockIndex parser)
    (source : IndexSource) : Option PublishOutcome :=
  match state.published with
  | none => none
  | some published =>
      if candidate.revision < published.revision then
        some .stale
      else if candidate.revision = published.revision
          ∧ ¬ (source = .formal ∧ state.source = some .provisional) then
        some .notMoreAuthoritative
      else
        none

/-- Applies the publish priority to a finished parse. -/
def publish (state : BlockIndexState parser) (candidate : BlockIndex parser)
    (source : IndexSource) (buffer : RopeBuffer) : PublishOutcome × BlockIndexState parser :=
  match state.refusal candidate source with
  | some outcome => (outcome, state)
  | none =>
      if candidate.revision = buffer.revision then
        (.published, ⟨some candidate, some source⟩)
      else
        match buffer.deltasSince candidate.revision with
        | .error _ => (.historyUnavailable, state)
        | .ok deltas =>
            let (update, candidate) := candidate.update buffer deltas
            (.rebased update, ⟨some candidate, some .provisional⟩)

end BlockIndexState

-- What one operation does to the published index

theorem BlockIndex.growWindow_revision {parser : Parser} (index : BlockIndex parser)
    (buffer : RopeBuffer) (first last reparsedBytes : Nat)
    : (index.growWindow buffer first last reparsedBytes).2.revision = buffer.revision := by
  fun_induction BlockIndex.growWindow index buffer first last reparsedBytes with
  | case1 => rfl
  | case2 _ _ _ _ _ _ _ _ _ _ ih => exact ih
  | case3 => rfl

theorem BlockIndex.update_revision {parser : Parser} (index : BlockIndex parser)
    (buffer : RopeBuffer) (deltas : List RevisionDelta)
    : (index.update buffer deltas).2.revision = buffer.revision := by
  unfold update
  split
  · rfl
  · dsimp only
    split
    · rfl
    · split
      · rfl
      · exact BlockIndex.growWindow_revision _ _ _ _ _

def PublishOutcome.accepts : PublishOutcome → Bool
  | .published | .rebased _ => true
  | .stale | .notMoreAuthoritative | .historyUnavailable => false

namespace BlockIndexState

variable {parser : Parser}

/-- A candidate is only ever ruled out as stale or as not more authoritative. -/
theorem refusal_rejects {state : BlockIndexState parser} {candidate : BlockIndex parser}
    {source : IndexSource} {outcome : PublishOutcome}
    (refused : state.refusal candidate source = some outcome)
    : outcome.accepts = false := by
  unfold refusal at refused
  split at refused
  · cases refused
  · split at refused
    · obtain rfl := Option.some.inj refused
      rfl
    · split at refused
      · obtain rfl := Option.some.inj refused
        rfl
      · cases refused

theorem applyEdits_cases (state : BlockIndexState parser) (buffer : RopeBuffer)
    : ((state.applyEdits buffer).2 = state
        ∧ ∀ index, state.published = some index → index.revision = buffer.revision)
      ∨ (state.applyEdits buffer).2 = ⟨none, none⟩
      ∨ ∃ index,
          (state.applyEdits buffer).2 = ⟨some index, some .provisional⟩
          ∧ index.revision = buffer.revision := by
  unfold applyEdits
  cases published : state.published with
  | none => exact .inl ⟨rfl, fun index found => nomatch found⟩
  | some index =>
      dsimp only
      split
      · rename_i current
        refine .inl ⟨rfl, ?_⟩
        rintro found same
        obtain rfl := Option.some.inj same
        exact current
      · split
        · exact .inr (.inl rfl)
        · exact .inr (.inr ⟨_, rfl, BlockIndex.update_revision _ _ _⟩)

theorem publish_cases (state : BlockIndexState parser) (candidate : BlockIndex parser)
    (source : IndexSource) (buffer : RopeBuffer)
    : ((state.publish candidate source buffer).1.accepts = false
        ∧ (state.publish candidate source buffer).2 = state)
      ∨ ((state.publish candidate source buffer).1 = .published
        ∧ (state.publish candidate source buffer).2 = ⟨some candidate, some source⟩
        ∧ candidate.revision = buffer.revision)
      ∨ ∃ update index,
          (state.publish candidate source buffer).1 = .rebased update
          ∧ (state.publish candidate source buffer).2 = ⟨some index, some .provisional⟩
          ∧ index.revision = buffer.revision := by
  unfold publish
  cases refused : state.refusal candidate source with
  | some outcome => exact .inl ⟨refusal_rejects refused, rfl⟩
  | none =>
      dsimp only
      split
      · rename_i current
        exact .inr (.inl ⟨rfl, rfl, current⟩)
      · split
        · exact .inl ⟨rfl, rfl⟩
        · exact .inr (.inr ⟨_, _, rfl, rfl, BlockIndex.update_revision _ _ _⟩)

end BlockIndexState

-- Runs

/-- A buffer with its published index; `texts` remembers the text of each revision so far. -/
structure IndexedBuffer (parser : Parser) where
  buffer : RopeBuffer
  texts : List Text
  state : BlockIndexState parser

namespace IndexedBuffer

variable {parser : Parser}

/-- A new buffer without a published index. -/
def fromRope (parser : Parser) (chunks : List Text) : IndexedBuffer parser where
  buffer := .fromRope chunks
  texts := [(RopeBuffer.fromRope chunks).fullText]
  state := .new

/-- An edit of the buffer, an update of the published index, or the arrival of a candidate:
the full parse of a revision so far, or any index of one that is offered as provisional.
-/
inductive Step : IndexedBuffer parser → IndexedBuffer parser → Prop
  | edit {now : IndexedBuffer parser} {range : SourceRange} {replacement : Text}
      {summary : EditSummary} {next : RopeBuffer}
      : now.buffer.edit range replacement = .ok (summary, next)
        → Step now { now with buffer := next, texts := now.texts ++ [next.fullText] }
  | applyEdits (now : IndexedBuffer parser)
      : Step now { now with state := (now.state.applyEdits now.buffer).2 }
  | publishFormal {now : IndexedBuffer parser} {revision : Nat} {text : Text}
      : now.texts[revision]? = some text
        → Step now
            { now with
              state :=
                (now.state.publish (.build parser revision text) .formal now.buffer).2 }
  | publishProvisional {now : IndexedBuffer parser} {candidate : BlockIndex parser}
      : candidate.revision ≤ now.buffer.revision
        → Step now
            { now with state := (now.state.publish candidate .provisional now.buffer).2 }

def Steps : IndexedBuffer parser → IndexedBuffer parser → Prop := Relation.ReflTransGen Step

/-- The texts are remembered up to the current one, and a formal index is the full parse of
its revision.
-/
structure Sound (now : IndexedBuffer parser) : Prop where
  remembered : now.texts.length = now.buffer.revision + 1
  latest : now.texts[now.buffer.revision]? = some now.buffer.fullText
  formal :
    now.state.source = some .formal
      → ∀ index, now.state.published = some index
        → ∃ text,
            now.texts[index.revision]? = some text
            ∧ index = .build parser index.revision text

/-- The published index, if there is one, is of a revision between one so far and the
buffer's.
-/
structure Since (revision : Nat) (now : IndexedBuffer parser) : Prop where
  reached : revision ≤ now.buffer.revision
  published :
    ∀ index, now.state.published = some index
      → revision ≤ index.revision ∧ index.revision ≤ now.buffer.revision

theorem Sound.fromRope (parser : Parser) (chunks : List Text)
    : (fromRope parser chunks).Sound where
  remembered := rfl
  latest := rfl
  formal source := nomatch source

/-- Publishing a candidate keeps the invariant, if it is a full parse when it is offered as
one. Witness: an index that was rebased is provisional.
-/
theorem Sound.publish {now : IndexedBuffer parser} (sound : now.Sound)
    (candidate : BlockIndex parser) (source : IndexSource)
    (offered :
      source = .formal
        → ∃ text,
            now.texts[candidate.revision]? = some text
            ∧ candidate = .build parser candidate.revision text)
    : Sound { now with state := (now.state.publish candidate source now.buffer).2 } := by
  refine { sound with formal := ?_ }
  rcases now.state.publish_cases candidate source now.buffer with
    ⟨_, same⟩ | ⟨_, same, _⟩ | ⟨_, _, _, same, _⟩
  · rw [same]
    exact sound.formal
  · rw [same]
    intro formal index published
    obtain rfl := Option.some.inj published
    exact offered (Option.some.inj formal)
  · rw [same]
    exact fun formal => nomatch formal

/-- A step keeps the invariant, by the cases of what it publishes. -/
theorem Sound.step {now next : IndexedBuffer parser} (sound : now.Sound)
    (step : Step now next)
    : next.Sound := by
  cases step with
  | edit edited =>
      obtain ⟨_, _, _, _, _, _, rfl⟩ := RopeBuffer.edit_cases edited
      refine {
        remembered := ?_
        latest := ?_
        formal := ?_
      }
      · simp [sound.remembered]
      · simp [← sound.remembered]
      · intro source index published
        obtain ⟨text, known, built⟩ := sound.formal source index published
        have bound := (List.getElem?_eq_some_iff.mp known).1
        exact ⟨text, by rw [List.getElem?_append_left bound, known], built⟩
  | applyEdits =>
      refine { sound with formal := ?_ }
      rcases now.state.applyEdits_cases now.buffer with ⟨same, _⟩ | same | ⟨_, same, _⟩
      · rw [same]
        exact sound.formal
      · rw [same]
        exact fun source => nomatch source
      · rw [same]
        exact fun source => nomatch source
  | publishFormal known => exact sound.publish _ _ fun _ => ⟨_, known, rfl⟩
  | publishProvisional _ => exact sound.publish _ _ fun source => nomatch source

theorem Since.replace {revision : Nat} {now : IndexedBuffer parser}
    (since : now.Since revision) {index : BlockIndex parser} {source : IndexSource}
    (current : index.revision = now.buffer.revision)
    : Since revision { now with state := ⟨some index, some source⟩ } where
  reached := since.reached
  published found same := by
    obtain rfl := Option.some.inj same
    rw [current]
    exact ⟨since.reached, Nat.le_refl _⟩

theorem Since.publish {revision : Nat} {now : IndexedBuffer parser}
    (since : now.Since revision) (candidate : BlockIndex parser) (source : IndexSource)
    : Since revision
        { now with state := (now.state.publish candidate source now.buffer).2 } := by
  rcases now.state.publish_cases candidate source now.buffer with
    ⟨_, same⟩ | ⟨_, same, current⟩ | ⟨_, _, _, same, current⟩
  · rw [same]
    exact since
  · rw [same]
    exact since.replace current
  · rw [same]
    exact since.replace current

/-- No step publishes anything older, by the cases of what it publishes. -/
theorem Since.step {revision : Nat} {now next : IndexedBuffer parser}
    (since : now.Since revision) (step : Step now next)
    : next.Since revision := by
  cases step with
  | edit edited =>
      obtain ⟨_, _, _, _, _, _, rfl⟩ := RopeBuffer.edit_cases edited
      refine ⟨Nat.le_succ_of_le since.reached, ?_⟩
      intro index published
      obtain ⟨lower, upper⟩ := since.published index published
      exact ⟨lower, Nat.le_succ_of_le upper⟩
  | applyEdits =>
      rcases now.state.applyEdits_cases now.buffer with ⟨same, _⟩ | same | ⟨_, same, current⟩
      · rw [same]
        exact since
      · rw [same]
        exact ⟨since.reached, fun _ published => nomatch published⟩
      · rw [same]
        exact since.replace current
  | publishFormal _ => exact since.publish _ _
  | publishProvisional _ => exact since.publish _ _

theorem Sound.steps {now next : IndexedBuffer parser} (sound : now.Sound)
    (steps : Steps now next)
    : next.Sound := by
  induction steps with
  | refl => exact sound
  | tail _ step ih => exact ih.step step

theorem Since.steps {revision : Nat} {now next : IndexedBuffer parser}
    (since : now.Since revision) (steps : Steps now next)
    : next.Since revision := by
  induction steps with
  | refl => exact since
  | tail _ step ih => exact ih.step step

theorem Since.fromRope (parser : Parser) (chunks : List Text)
    : (fromRope parser chunks).Since 0 where
  reached := Nat.zero_le _
  published _ published := nomatch published

/-- What readers of the published index rely on between two moments of a run. -/
structure Reliable (before after : IndexedBuffer parser) : Prop where
  monotone :
    ∀ earlier later,
      before.state.published = some earlier
        → after.state.published = some later
        → earlier.revision ≤ later.revision
  rejected :
    ∀ candidate source,
      (after.state.publish candidate source after.buffer).1.accepts = false
        → (after.state.publish candidate source after.buffer).2 = after.state
  accepted :
    ∀ candidate source,
      (after.state.publish candidate source after.buffer).1.accepts = true
        → ∃ index,
            (after.state.publish candidate source after.buffer).2.published = some index
            ∧ index.revision = after.buffer.revision
  applied :
    ∀ index,
      (after.state.applyEdits after.buffer).2.published = some index
        → index.revision = after.buffer.revision
  formal :
    ∀ index,
      after.state.published = some index
        → after.state.source = some .formal
        → index.revision = after.buffer.revision
        → index = .fromBuffer parser after.buffer

/-- However edits, updates and late candidates interleave, the published index never goes
back, only accepted candidates change it, and a formal index of the current revision is the
full parse of the current text.
-/
theorem reliable_of_steps {parser : Parser} {chunks : List Text}
    {before after : IndexedBuffer parser} (reached : Steps (fromRope parser chunks) before)
    (steps : Steps before after)
    : Reliable before after where
  monotone earlier later first last := by
    have upTo := ((Since.fromRope parser chunks).steps reached).published earlier first
    have since : before.Since earlier.revision := by
      refine ⟨upTo.2, ?_⟩
      intro index published
      obtain rfl := Option.some.inj (first.symm.trans published)
      exact ⟨Nat.le_refl _, upTo.2⟩
    exact ((since.steps steps).published later last).1
  rejected candidate source refused := by
    rcases after.state.publish_cases candidate source after.buffer with
      ⟨_, same⟩ | ⟨outcome, _⟩ | ⟨_, _, outcome, _⟩
    · exact same
    · rw [outcome] at refused
      cases refused
    · rw [outcome] at refused
      cases refused
  accepted candidate source accepts := by
    rcases after.state.publish_cases candidate source after.buffer with
      ⟨refused, _⟩ | ⟨_, same, current⟩ | ⟨_, index, _, same, current⟩
    · rw [refused] at accepts
      cases accepts
    · exact ⟨candidate, by rw [same], current⟩
    · exact ⟨index, by rw [same], current⟩
  applied index published := by
    rcases after.state.applyEdits_cases after.buffer with
      ⟨same, current⟩ | same | ⟨updated, same, current⟩
    · rw [same] at published
      exact current index published
    · rw [same] at published
      cases published
    · rw [same] at published
      obtain rfl := Option.some.inj published
      exact current
  formal index published source current := by
    have sound := ((Sound.fromRope parser chunks).steps reached).steps steps
    obtain ⟨text, known, built⟩ := sound.formal source index published
    rw [current, sound.latest] at known
    obtain rfl := Option.some.inj known
    rw [built, current]
    rfl

def paragraphParser : Parser := .plain fun _ => [(.paragraph, 0)]

/-- A formal parse is published, and an edit and an update follow. -/
theorem reliable_of_steps_edit
    : let opened := fromRope paragraphParser [['a']]
      let parsed := (opened.state.publish (.build _ 0 ['a']) .formal opened.buffer).2
      let edited : RopeBuffer :=
        { rope := ['b', 'a']
          lineMirror := ['b', 'a']
          revision := 1
          deltas := [⟨0, 1, ⟨0, 0⟩, ⟨0, 1⟩, 1⟩]
          deltaCapacity := 4096 }
      Reliable { opened with state := parsed }
        { buffer := edited
          texts := [['a'], ['b', 'a']]
          state := (parsed.applyEdits edited).2 } := by
  intro opened parsed edited
  have typed : opened.buffer.edit ⟨0, 0⟩ ['b']
      = .ok (RopeBuffer.editSummary 0 ⟨0, 0⟩ ['b'] [], edited) := by
    decide
  have published : Step opened { opened with state := parsed } := .publishFormal rfl
  exact reliable_of_steps (.single published) (.tail (.single (.edit typed)) (.applyEdits _))

end IndexedBuffer

end Hane.Markdown
