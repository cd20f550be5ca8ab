import Hane.Foundations.Traces
import Hane.Session.DraftMoves

/-! Runs of the journal: whatever calls take their turns, whatever fails and whenever the process
ends, a recovery finds the newest of every draft that was accepted, unless it was removed since.
-/

namespace Hane.Session

open Hane.Document Hane.Foundations

-- Records

def DraftEvent.number (id : DraftId) : DraftEvent → Option Nat
  | .accepted own snapshot => if own = id then some snapshot.sequence else none
  | .removing own sequence => if own = id then some sequence else none
  | _ => none

/-- What an event leaves of a draft, for the events that settle it. -/
def DraftEvent.leaves (root : OsPath) (id : DraftId)
    : DraftEvent → Option (Option RecoveredDraft)
  | .accepted own snapshot =>
    if own = id then
      some (some ⟨id, snapshot.text, decodeTarget root (encodeTarget root snapshot.target)⟩)
    else none
  | .deleted own => if own = id then some none else none
  | _ => none

/-- The events of the process that is running. The latest is the first of a log. -/
def current (log : List DraftEvent) : List DraftEvent := log.takeWhile (· ≠ .ended)

def numbers (id : DraftId) (log : List DraftEvent) : List Nat :=
  (current log).filterMap (·.number id)

def lastLeft (root : OsPath) (id : DraftId) (log : List DraftEvent)
    : Option (Option RecoveredDraft) :=
  log.findSome? (·.leaves root id)

/-- What is accepted of a draft is as new as all that was accepted of it before in the same
process, and newer than all that was read before a removal of it.
-/
def Ordered : List DraftEvent → Prop
  | [] => True
  | event :: earlier =>
    Ordered earlier
      ∧ (∀ id number, event.number id = some number
        → ∀ before ∈ numbers id earlier, before ≤ number)
      ∧ ∀ id number, event = .removing id number
        → ∀ before, .taken before ∈ current earlier → before < number

structure RecordedDrafts where
  store : DraftStore
  /-- The latest event is the first. -/
  log : List DraftEvent

def RecordedDrafts.step (state : RecordedDrafts) (action : DraftAction) : Option RecordedDrafts :=
  (state.store.step action).map fun next => ⟨next, state.store.event action ++ state.log⟩

section Logs

variable {root : OsPath} {id : DraftId} {event : DraftEvent} {log : List DraftEvent}

theorem current_cons (runs : event ≠ .ended) : current (event :: log) = event :: current log := by
  simp [current, runs]

theorem numbers_cons (runs : event ≠ .ended)
    : numbers id (event :: log) = (event.number id).toList ++ numbers id log := by
  rw [numbers, current_cons runs, List.filterMap_cons, numbers]
  cases event.number id with
  | none => rfl
  | some number => rfl

theorem lastLeft_cons
    : lastLeft root id (event :: log) = (event.leaves root id).or (lastLeft root id log) := by
  rw [lastLeft, List.findSome?_cons, lastLeft]
  cases event.leaves root id with
  | none => rfl
  | some left => rfl

end Logs

-- Drafts

/-- A folder whose length can be written. -/
def Snapshot.Fits (root : OsPath) (snapshot : Snapshot) : Prop :=
  (encodeTarget root snapshot.target).length < 2 ^ 64

instance Snapshot.decidableFits (root : OsPath) (snapshot : Snapshot)
    : Decidable (snapshot.Fits root) :=
  inferInstanceAs (Decidable (_ < _))

/-- What a call relies on while it holds the lock. -/
def DraftView.Staged (root : OsPath) (view : DraftView) : Prop :=
  match view.stage with
  | .making snapshot | .filling snapshot =>
    view.newest ≤ snapshot.sequence ∧ snapshot.Fits root
  | .filled snapshot =>
    view.newest ≤ snapshot.sequence ∧ snapshot.Fits root
      ∧ view.temporary = some (snapshot.entry root)
  | .droppingText | .droppingTarget => view.entry ≠ none
  | .removingTarget | .removingEntry => view.text = none
  | .idle | .removingText => True

structure DraftView.Kept (root : OsPath) (id : DraftId) (initial : Option RecoveredDraft)
    (log : List DraftEvent) (view : DraftView) : Prop where
  draft : view.draft root id = (lastLeft root id log).getD initial
  newest : view.newest = (numbers id log).headD 0
  most : ∀ number ∈ numbers id log, number ≤ view.newest
  staged : view.Staged root

section Views

variable {root : OsPath} {id other : DraftId} {initial : Option RecoveredDraft}
  {log events : List DraftEvent} {view next : DraftView} {action : DraftAction} {fresh : Nat}

theorem draft_of_entry {snapshot : Snapshot} (fits : snapshot.Fits root)
    (entry : view.entry = some (snapshot.entry root))
    : view.draft root id
      = some ⟨id, snapshot.text, decodeTarget root (encodeTarget root snapshot.target)⟩ := by
  rw [DraftView.draft, entry]
  dsimp only
  rw [Snapshot.entry, decodeEntry_encodeEntry snapshot.text fits]
  rfl

/-- Only what a recovery reads is part of a draft. -/
theorem draft_congr (entry : next.entry = view.entry)
    (text : view.entry = none → next.text = view.text)
    (target : view.entry = none → view.text ≠ none → next.target = view.target)
    : next.draft root id = view.draft root id := by
  unfold DraftView.draft
  rw [entry]
  cases held : view.entry with
  | some bytes => rfl
  | none =>
      dsimp only
      rw [text held]
      cases kept : view.text with
      | none => rfl
      | some bytes => rw [target held (by rw [kept]; exact Option.some_ne_none _)]

theorem draft_gone (entry : view.entry = none) (text : view.text = none)
    : view.draft root id = none := by
  rw [DraftView.draft, entry, text]
  rfl

theorem DraftView.Kept.lt_newest {sequence : Nat} (kept : view.Kept root id initial log)
    : sequence < view.newest ↔ ∃ number ∈ numbers id log, sequence < number := by
  constructor
  · intro late
    have newest := kept.newest
    cases held : numbers id log with
    | nil =>
        rw [held] at newest
        exact absurd (late.trans_eq newest) (Nat.not_lt_zero _)
    | cons last rest =>
        rw [held] at newest
        exact ⟨last, List.mem_cons_self, late.trans_eq newest⟩
  · rintro ⟨number, among, late⟩
    exact late.trans_le (kept.most number among)

theorem DraftView.Kept.silent (kept : view.Kept root id initial log)
    (draft : next.draft root id = view.draft root id) (newest : next.newest = view.newest)
    (staged : next.Staged root) : next.Kept root id initial log where
  draft := draft.trans kept.draft
  newest := newest.trans kept.newest
  most := newest ▸ kept.most
  staged := staged

theorem DraftView.Kept.passed {event : DraftEvent} (kept : view.Kept root id initial log)
    (runs : event ≠ .ended) (number : event.number id = none) (leaves : event.leaves root id = none)
    : view.Kept root id initial (event :: log) where
  draft := by rw [lastLeft_cons, leaves, Option.none_or, kept.draft]
  newest := by rw [numbers_cons runs, number, Option.toList_none, List.nil_append, kept.newest]
  most := by
    rw [numbers_cons runs, number, Option.toList_none, List.nil_append]
    exact kept.most
  staged := kept.staged

theorem DraftView.Kept.numbered {event : DraftEvent} {number : Nat}
    (kept : view.Kept root id initial log) (runs : event ≠ .ended)
    (own : event.number id = some number) (newest : next.newest = number)
    (newer : view.newest ≤ number)
    (draft : next.draft root id = (lastLeft root id (event :: log)).getD initial)
    (staged : next.Staged root) : next.Kept root id initial (event :: log) where
  draft := draft
  newest := by rw [numbers_cons runs, own, newest]; rfl
  most := by
    rw [numbers_cons runs, own, newest]
    rintro before (_ | ⟨_, among⟩)
    · exact le_rfl
    · exact (kept.most before among).trans newer
  staged := staged

theorem DraftView.Kept.settled {event : DraftEvent} {left : Option RecoveredDraft}
    (kept : view.Kept root id initial log) (runs : event ≠ .ended)
    (number : event.number id = none) (leaves : event.leaves root id = some left)
    (draft : next.draft root id = left) (newest : next.newest = view.newest)
    (staged : next.Staged root) : next.Kept root id initial (event :: log) where
  draft := by rw [lastLeft_cons, leaves, Option.some_or, draft, Option.getD_some]
  newest := by
    rw [numbers_cons runs, number, Option.toList_none, List.nil_append, newest, kept.newest]
  most := by
    rw [numbers_cons runs, number, Option.toList_none, List.nil_append, newest]
    exact kept.most
  staged := staged

theorem DraftMove.kept (move : DraftMove root id fresh view action next events)
    (kept : view.Kept root id initial log)
    (fits : ∀ snapshot, action = .writeSnapshot id snapshot → snapshot.Fits root)
    : next.Kept root id initial (events ++ log) := by
  have staged := kept.staged
  unfold DraftView.Staged at staged
  cases move with
  | numbered => exact kept.passed DraftEvent.noConfusion rfl rfl
  | dropped late => exact kept
  | begun fresh => exact kept.silent rfl rfl ⟨fresh, fits _ rfl⟩
  | made stage =>
      rw [stage] at staged
      exact kept.silent rfl rfl staged
  | grown stage =>
      rw [stage] at staged
      refine kept.silent rfl rfl ?_
      unfold DraftView.Staged
      rw [stage]
      exact staged
  | filled stage =>
      rw [stage] at staged
      exact kept.silent rfl rfl ⟨staged.1, staged.2, rfl⟩
  | renamed stage =>
      rw [stage] at staged
      obtain ⟨newer, short, temporary⟩ := staged
      refine kept.numbered DraftEvent.noConfusion (if_pos rfl) rfl newer ?_ ?_
      · rw [lastLeft_cons, DraftEvent.leaves, if_pos rfl, Option.some_or, Option.getD_some]
        exact draft_of_entry short temporary
      · exact fun none => absurd (temporary.symm.trans none) (Option.some_ne_none _)
  | failed busy => exact kept.silent rfl rfl trivial
  | droppedText stage =>
      rw [stage] at staged
      refine kept.silent (draft_congr rfl ?_ ?_) rfl staged
      · exact fun none => absurd none staged
      · exact fun none => absurd none staged
  | droppedTarget stage =>
      rw [stage] at staged
      refine kept.silent (draft_congr rfl ?_ ?_) rfl trivial
      · exact fun none => absurd none staged
      · exact fun none => absurd none staged
  | removing =>
      exact kept.numbered DraftEvent.noConfusion (if_pos rfl) rfl (Nat.le_max_left _ _) kept.draft
        trivial
  | removedText stage =>
      by_cases entry : view.entry = none
      · rw [if_pos entry]
        exact kept.settled DraftEvent.noConfusion rfl (if_pos rfl) (draft_gone entry rfl) rfl rfl
      · rw [if_neg entry]
        refine kept.silent (draft_congr rfl ?_ ?_) rfl rfl
        · exact fun none => absurd none entry
        · exact fun none => absurd none entry
  | removedTarget stage =>
      rw [stage] at staged
      refine kept.silent (draft_congr rfl (fun _ => rfl) ?_) rfl staged
      exact fun _ some => absurd staged some
  | removedEntry stage =>
      rw [stage] at staged
      exact kept.settled DraftEvent.noConfusion rfl (if_pos rfl) (draft_gone rfl staged) rfl trivial

/-- What a move says is about its own draft. -/
theorem DraftMove.others (move : DraftMove root id fresh view action next events)
    {held : DraftView} (kept : held.Kept root other initial log) (apart : other ≠ id)
    : held.Kept root other initial (events ++ log) := by
  have passed : ∀ event ∈ events,
      event ≠ .ended ∧ event.number other = none ∧ event.leaves root other = none := by
    intro event among
    have self := Ne.symm apart
    cases move with
    | numbered =>
        cases List.mem_singleton.mp among
        exact ⟨DraftEvent.noConfusion, rfl, rfl⟩
    | renamed stage =>
        cases List.mem_singleton.mp among
        exact ⟨DraftEvent.noConfusion, if_neg self, if_neg self⟩
    | removing =>
        cases List.mem_singleton.mp among
        exact ⟨DraftEvent.noConfusion, if_neg self, rfl⟩
    | removedText stage =>
        split at among
        · cases List.mem_singleton.mp among
          exact ⟨DraftEvent.noConfusion, rfl, if_neg self⟩
        · cases among
    | removedEntry stage =>
        cases List.mem_singleton.mp among
        exact ⟨DraftEvent.noConfusion, rfl, if_neg self⟩
    | _ => cases among
  clear move
  induction events with
  | nil => exact kept
  | cons event rest ih =>
      obtain ⟨⟨runs, number, leaves⟩, behind⟩ := List.forall_mem_cons.mp passed
      exact (ih behind).passed runs number leaves

end Views

-- Runs

theorem DraftStore.read_present {root : OsPath} {store : DraftStore} {id : DraftId}
    {draft : RecoveredDraft} (found : readDraft root store.read id = some draft)
    : ∃ name, store.files name ≠ none ∧ DraftId.fromFileName name = some id := by
  by_cases entry : store.files id.entryFileName = none
  · refine ⟨id.fileName, fun text => ?_, id.fromFileName_text⟩
    rw [readDraft_view, draft_gone entry text] at found
    cases found
  · exact ⟨id.entryFileName, entry, id.fromFileName_entry⟩

section Runs

variable {root : OsPath} {files : Text → Option (List UInt8)} {state final : RecordedDrafts}
  {action : DraftAction} {actions : List DraftAction}

/-- What there was of a draft before the first call. -/
def draftAt (root : OsPath) (files : Text → Option (List UInt8)) (id : DraftId)
    : Option RecoveredDraft :=
  readDraft root (DraftStore.start root files).read id

structure RecordedDrafts.Kept (root : OsPath) (files : Text → Option (List UInt8))
    (state : RecordedDrafts) : Prop where
  place : state.store.root = root
  drafts : ∀ id, (state.store.view id).Kept root id (draftAt root files id) state.log
  ordered : Ordered state.log
  taken : ∀ number, .taken number ∈ current state.log → number < state.store.nextSequence

theorem kept_start : RecordedDrafts.Kept root files ⟨.start root files, []⟩ where
  place := rfl
  drafts id := {
    draft := (DraftStore.readDraft_view root _ id).symm
    newest := rfl
    most := fun _ among => absurd among List.not_mem_nil
    staged := trivial }
  ordered := trivial
  taken _ among := absurd among List.not_mem_nil

/-- After the end of the process what is on the disk is as it was. -/
theorem RecordedDrafts.Kept.crashed (kept : state.Kept root files)
    : RecordedDrafts.Kept root files ⟨.start state.store.root state.store.files,
        .ended :: state.log⟩ where
  place := kept.place
  drafts id := {
    draft := by
      rw [lastLeft_cons]
      exact (kept.drafts id).draft
    newest := rfl
    most := fun _ among => absurd among List.not_mem_nil
    staged := trivial }
  ordered := by
    refine ⟨kept.ordered, fun _ _ some => ?_, fun _ _ same => ?_⟩
    · cases some
    · cases same
  taken _ among := absurd among List.not_mem_nil

theorem DraftMove.ordered {id : DraftId} {fresh : Nat} {view next : DraftView}
    {initial : Option RecoveredDraft} {log events : List DraftEvent}
    (move : DraftMove root id fresh view action next events)
    (kept : view.Kept root id initial log) (ordered : Ordered log)
    (taken : ∀ number, .taken number ∈ current log → number < fresh)
    : Ordered (events ++ log) := by
  have staged := kept.staged
  unfold DraftView.Staged at staged
  -- An event that has no number of a draft and is no removal is in order anywhere.
  have plain : ∀ event : DraftEvent, (∀ other, event.number other = none)
      → (∀ other number, event ≠ .removing other number) → Ordered (event :: log) := by
    intro event unnumbered other
    refine ⟨ordered, fun held number some => ?_, fun held number same => ?_⟩
    · cases (unnumbered held).symm.trans some
    · exact absurd same (other held number)
  cases move with
  | numbered => exact plain _ (fun _ => rfl) (fun _ _ => DraftEvent.noConfusion)
  | renamed stage =>
      rw [stage] at staged
      refine ⟨ordered, fun held number some => ?_, fun _ _ => DraftEvent.noConfusion⟩
      obtain ⟨rfl, same⟩ := Option.ite_none_right_eq_some.mp some
      cases same
      exact fun before among => (kept.most before among).trans staged.1
  | removing =>
      refine ⟨ordered, fun held number some => ?_, fun held number same => ?_⟩
      · obtain ⟨rfl, same⟩ := Option.ite_none_right_eq_some.mp some
        cases same
        exact fun before among => (kept.most before among).trans (Nat.le_max_left _ _)
      · cases same
        exact fun before among => (taken before among).trans_le (Nat.le_max_right _ _)
  | removedText stage =>
      split
      · exact plain _ (fun _ => rfl) (fun _ _ => DraftEvent.noConfusion)
      · exact ordered
  | removedEntry stage => exact plain _ (fun _ => rfl) (fun _ _ => DraftEvent.noConfusion)
  | _ => exact ordered

theorem DraftMove.taken {id : DraftId} {fresh number : Nat} {view next : DraftView}
    {log events : List DraftEvent}
    (move : DraftMove root id fresh view action next events)
    (among : .taken number ∈ current (events ++ log))
    : .taken number ∈ current log ∨ action = .takeSequence ∧ number = fresh := by
  cases move with
  | numbered =>
      rw [List.singleton_append, current_cons DraftEvent.noConfusion, List.mem_cons] at among
      obtain same | among := among
      · cases same
        exact .inr ⟨rfl, rfl⟩
      · exact .inl among
  | removedText stage =>
      split at among
      · rw [List.singleton_append, current_cons DraftEvent.noConfusion, List.mem_cons] at among
        exact .inl (among.resolve_left DraftEvent.noConfusion)
      · exact .inl among
  | renamed | removing | removedEntry =>
      rw [List.singleton_append, current_cons DraftEvent.noConfusion, List.mem_cons] at among
      exact .inl (among.resolve_left DraftEvent.noConfusion)
  | _ => exact .inl among

theorem RecordedDrafts.Kept.stepped {next : RecordedDrafts} (kept : state.Kept root files)
    (fits : ∀ id snapshot, action = .writeSnapshot id snapshot → snapshot.Fits root)
    (moves : state.step action = some next) : next.Kept root files := by
  obtain ⟨store, steps, rfl⟩ := Option.map_eq_some_iff.mp moves
  by_cases alive : action = .crash
  · subst alive
    cases steps
    exact kept.crashed
  · obtain ⟨id, only, move, fresh, counted⟩ := DraftStore.step_moved steps alive
    rw [kept.place] at move
    refine ⟨only.root.trans kept.place, fun other => ?_, ?_, fun number among => ?_⟩
    · by_cases own : other = id
      · subst own
        exact move.kept (kept.drafts other) fun snapshot same => fits _ snapshot same
      · change (store.view other).Kept _ _ _ _
        rw [only.views other own]
        exact move.others (kept.drafts other) own
    · exact move.ordered (kept.drafts id) kept.ordered kept.taken
    · obtain among | ⟨rfl, rfl⟩ := move.taken among
      · exact (kept.taken number among).trans_le fresh
      · exact (counted rfl).symm ▸ Nat.lt_succ_self _

theorem RecordedDrafts.Kept.all
    (fits : ∀ id snapshot, .writeSnapshot id snapshot ∈ actions → snapshot.Fits root)
    (ran : runActions RecordedDrafts.step ⟨.start root files, []⟩ actions = some final)
    : final.Kept root files := by
  induction actions using List.reverseRecOn generalizing final with
  | nil =>
      cases ran
      exact kept_start
  | append_singleton earlier action ih =>
      obtain ⟨before, ran, moved⟩ := runActions_concat.mp ran
      have kept := ih (fun id snapshot among => fits id snapshot (List.mem_append_left _ among)) ran
      refine kept.stepped (fun id snapshot same => fits id snapshot ?_) moved
      rw [same]
      exact List.mem_append_right _ List.mem_cons_self

/-- Whatever the calls are and however they take turns, whatever fails of them, and wherever
processes end: a snapshot is dropped only if its draft was accepted or removed under a larger
number since it was read, nothing read before a removal is accepted after it, and a recovery
finds every draft once, as it was accepted last, unless it was removed after that; what was never
accepted nor removed it finds as it was.
-/
theorem drafts_recovered (root : OsPath) (files : Text → Option (List UInt8))
    {actions : List DraftAction} {final : RecordedDrafts}
    (fits : ∀ id snapshot, .writeSnapshot id snapshot ∈ actions → snapshot.Fits root)
    (ran : runActions RecordedDrafts.step ⟨.start root files, []⟩ actions = some final)
    : Ordered final.log
      ∧ (∀ id sequence, sequence < final.store.newest id
        ↔ ∃ number ∈ numbers id final.log, sequence < number)
      ∧ ∀ entries, (∀ name, final.store.files name ≠ none → .file (some name) ∈ entries)
        → ((recoverFrom root final.store.read [] entries).drafts.map (·.id)).Nodup
          ∧ ∀ draft, draft ∈ (recoverFrom root final.store.read [] entries).drafts
            ↔ (lastLeft root draft.id final.log).getD (draftAt root files draft.id)
              = some draft := by
  have kept := RecordedDrafts.Kept.all fits ran
  refine ⟨kept.ordered, fun id _ => (kept.drafts id).lt_newest, fun entries listed => ?_⟩
  refine ⟨recoverFrom_ids _ _ entries, fun draft => ?_⟩
  rw [mem_recoverFrom, ← (kept.drafts draft.id).draft, ← DraftStore.readDraft_view]
  refine and_iff_right_of_imp fun found => ?_
  obtain ⟨name, present, named⟩ := DraftStore.read_present found
  exact List.mem_filterMap.mpr ⟨_, listed name present, named⟩

/-- A note is kept, written again, and the process ends before that is in its place. -/
def interruptedNote : List DraftAction :=
  let id : DraftId := ⟨7⟩
  [.takeSequence, .takeSequence,
    .writeSnapshot id ⟨[.normal [0x77], .normal [0x61]], "new".toList, 2⟩, .createDir id true,
    .fill id true, .rename id true, .removeFile id true, .removeFile id false,
    .writeSnapshot id ⟨[.normal [0x77]], "old".toList, 1⟩, .takeSequence,
    .writeSnapshot id ⟨[.normal [0x77]], "newest".toList, 3⟩, .createDir id true,
    .fillPart id 20, .crash]

theorem drafts_recovered_interrupted
    : ∃ final,
        runActions RecordedDrafts.step ⟨.start [.normal [0x77]] (fun _ => none), []⟩ interruptedNote
          = some final
        ∧ ∀ entries, (∀ name, final.store.files name ≠ none → .file (some name) ∈ entries)
          → ⟨⟨7⟩, "new".toList, [.normal [0x77], .normal [0x61]]⟩
            ∈ (recoverFrom [.normal [0x77]] final.store.read [] entries).drafts := by
  have last : (runActions RecordedDrafts.step ⟨.start [.normal [0x77]] (fun _ => none), []⟩
        interruptedNote).map (fun final => lastLeft [.normal [0x77]] ⟨7⟩ final.log)
      = some (some (some ⟨⟨7⟩, "new".toList, [.normal [0x77], .normal [0x61]]⟩)) := by
    decide +kernel
  obtain ⟨final, ran, left⟩ := Option.map_eq_some_iff.mp last
  refine ⟨final, ran, fun entries listed => ?_⟩
  have fits : ∀ id snapshot, .writeSnapshot id snapshot ∈ interruptedNote
      → snapshot.Fits [.normal [0x77]] := by
    intro id snapshot among
    simp only [interruptedNote, List.mem_cons, DraftAction.writeSnapshot.injEq, reduceCtorEq,
      false_or, List.not_mem_nil, or_false] at among
    obtain ⟨_, rfl⟩ | ⟨_, rfl⟩ | ⟨_, rfl⟩ := among
    · decide +kernel
    · decide +kernel
    · decide +kernel
  obtain ⟨_, _, found⟩ := drafts_recovered [.normal [0x77]] (fun _ => none) fits ran
  exact ((found entries listed).2 _).mpr (by rw [left, Option.getD_some])

end Runs

end Hane.Session
