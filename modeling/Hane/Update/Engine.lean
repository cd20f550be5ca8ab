import Hane.Update.Apply
import Hane.Update.Observing
import Mathlib.Logic.Function.Basic

/-! What the outside does for the update engine when nobody else writes, and how each call and
each observing function runs in it.
-/

namespace Hane.Update

open Hane.Foundations

-- The outside

/-- What happened that a result may have to answer for. A write records the disk before it. -/
inductive Event where
  | wrote (change : FileChange) (before : String → Observed)
  | placementLost
  | stopped (confirmed : Bool)

/-- The disk by path, the stored journal, the journal in memory, and the events so far. -/
structure UpdateState where
  disk : String → Observed
  stored : Option UpdateJournal
  memory : UpdateJournal
  events : List Event

namespace FileChange

def path : FileChange → String
  | backup _ backupRel => backupRel
  | installNew relPath _ => relPath
  | remove relPath => relPath
  | restore relPath _ _ => relPath

/-- The content a change writes, if it can be carried out at all. -/
def content (disk : String → Observed) : FileChange → Option Observed
  | backup relPath _ =>
    match disk relPath with
    | .file identity => some (.file identity)
    | .missing => none
  | installNew _ expected => some (.file expected)
  | remove _ => some .missing
  | restore _ backupRel expected => if disk backupRel = .file expected then some (.file expected) else none

/-- A replacement of an install file may leave the path absent when it stops half way. -/
def replaces : FileChange → Bool
  | installNew _ _ | restore _ _ _ => true
  | _ => false

end FileChange

namespace UpdateState

def write (state : UpdateState) (change : FileChange) (content : Observed) : UpdateState :=
  { state with
    disk := Function.update state.disk change.path content
    events := .wrote change state.disk :: state.events }

def note (state : UpdateState) (event : Event) : UpdateState :=
  { state with events := event :: state.events }

def storing (state : UpdateState) (journal : UpdateJournal) : UpdateState :=
  { state with stored := some journal }

def remembering (state : UpdateState) (journal : UpdateJournal) : UpdateState :=
  { state with memory := journal }

end UpdateState

/-- How far a file change that is not known to have succeeded may have come. -/
inductive Alters (state : UpdateState) (change : FileChange) : UpdateState → Prop where
  | untouched : Alters state change state
  | written {content : Observed} (carried : change.content state.disk = some content)
      : Alters state change (state.write change content)
  | absent (replaces : change.replaces = true)
      : Alters state change (state.write change .missing)

/-- The answers of the outside. Every call but the two on memory may fail; a failed store or
file change may have taken effect.
-/
inductive UpdateAnswers
    : UpdateState → (call : UpdateCall) → call.Answer → UpdateState → Prop where
  | current (state : UpdateState) : UpdateAnswers state .current (.ok state.memory) state
  | setCurrent (state : UpdateState) (journal : UpdateJournal)
      : UpdateAnswers state (.setCurrent journal) (.ok ()) (state.remembering journal)
  | loaded (state : UpdateState) : UpdateAnswers state .load (.ok state.stored) state
  | notLoaded (state : UpdateState) (err : UpdateError)
      : UpdateAnswers state .load (.error err) state
  | stored (state : UpdateState) (journal : UpdateJournal) (outcome : Except UpdateError Unit)
      : UpdateAnswers state (.store journal) outcome (state.storing journal)
  | notStored (state : UpdateState) (journal : UpdateJournal) (err : UpdateError)
      : UpdateAnswers state (.store journal) (.error err) state
  | observed (state : UpdateState) (relPath : String)
      : UpdateAnswers state (.observe relPath) (.ok (state.disk relPath)) state
  | notObserved (state : UpdateState) (relPath : String) (err : UpdateError)
      : UpdateAnswers state (.observe relPath) (.error err) state
  | changed {state : UpdateState} {change : FileChange} {content : Observed}
      (carried : change.content state.disk = some content)
      : UpdateAnswers state (.change change) (.ok ()) (state.write change content)
  | notChanged {state final : UpdateState} {change : FileChange} (err : UpdateError)
      (alters : Alters state change final)
      : UpdateAnswers state (.change change) (.error err) final
  | bound (state : UpdateState) (relPath : String) (expected : Option FileIdentity)
      (outcome : Except UpdateError Unit)
      : UpdateAnswers state (.bindTarget relPath expected) outcome state
  | placed (state : UpdateState) : UpdateAnswers state .verifyPlacement (.ok ()) state
  | notPlaced (state : UpdateState) (err : UpdateError)
      : UpdateAnswers state .verifyPlacement (.error err) (state.note .placementLost)
  | verified (state : UpdateState) (outcome : Except UpdateError Unit)
      : UpdateAnswers state .verifyCommitState outcome state
  | exited (state : UpdateState) (outcome : Except UpdateError Bool)
      : UpdateAnswers state .hasExited outcome state
  | stopped (state : UpdateState)
      : UpdateAnswers state .stopAndReleaseLease (.ok ()) (state.note (.stopped true))
  | notStopped (state : UpdateState) (err : UpdateError)
      : UpdateAnswers state .stopAndReleaseLease (.error err) (state.note (.stopped false))

/-- A crash inside a call: a journal store is atomic, a file change stops anywhere. -/
inductive UpdateTears : UpdateState → UpdateCall → UpdateState → Prop where
  | stored (state : UpdateState) (journal : UpdateJournal)
      : UpdateTears state (.store journal) (state.storing journal)
  | changed {state final : UpdateState} {change : FileChange}
      (alters : Alters state change final)
      : UpdateTears state (.change change) final

def updateOutside : Outside UpdateState UpdateCall.Answer := ⟨UpdateAnswers, UpdateTears⟩

/-- A program of the engine, verified against the outside. -/
abbrev Does {α : Type} (kept : UpdateState → Prop) (fine : α → UpdateState → Prop)
    (failed : UpdateState → Prop) (program : Updating α) (state : UpdateState) : Prop :=
  Program.Performs updateOutside kept fine (fun _ => failed) program state

-- Single calls

section Calls

variable {kept failed : UpdateState → Prop} {state : UpdateState}

theorem does_current {fine : UpdateJournal → UpdateState → Prop} (holds : kept state)
    (reached : fine state.memory state)
    : Does kept fine failed currentJournal state := by
  refine .call holds ?_ ?_
  · rintro final ⟨⟩
  · rintro answer final ⟨⟩
    exact ⟨holds, reached⟩

theorem does_bindCurrent {α : Type} {fine : α → UpdateState → Prop}
    {next : UpdateJournal → Updating α} (holds : kept state)
    (goesOn : Does kept fine failed (next state.memory) state)
    : Does kept fine failed (currentJournal >>= next) state := by
  refine .bind (fun current final => final = state ∧ current = state.memory)
    (does_current holds ⟨rfl, rfl⟩) ?_
  rintro current state _ ⟨rfl, rfl⟩
  exact goesOn

theorem does_bindTarget {fine : Unit → UpdateState → Prop} {relPath : String}
    {expected : Option FileIdentity} (holds : kept state) (reached : fine () state)
    (fails : failed state)
    : Does kept fine failed (ask (.bindTarget relPath expected)) state := by
  refine .call holds ?_ ?_
  · rintro final ⟨⟩
  · rintro answer final ⟨⟩
    cases answer with
    | ok value => exact ⟨holds, reached⟩
    | error err => exact ⟨holds, fails⟩

theorem does_verifyCommitState {fine : Unit → UpdateState → Prop} (holds : kept state)
    (reached : fine () state) (fails : failed state)
    : Does kept fine failed (ask .verifyCommitState) state := by
  refine .call holds ?_ ?_
  · rintro final ⟨⟩
  · rintro answer final ⟨⟩
    cases answer with
    | ok value => exact ⟨holds, reached⟩
    | error err => exact ⟨holds, fails⟩

theorem does_hasExited {fine : Bool → UpdateState → Prop} (holds : kept state)
    (reached : ∀ exited, fine exited state) (fails : failed state)
    : Does kept fine failed (ask .hasExited) state := by
  refine .call holds ?_ ?_
  · rintro final ⟨⟩
  · rintro answer final ⟨⟩
    cases answer with
    | ok value => exact ⟨holds, reached value⟩
    | error err => exact ⟨holds, fails⟩

theorem does_change {fine : Unit → UpdateState → Prop} {change : FileChange}
    (allowed : ∀ final, Alters state change final → kept final)
    (reached : ∀ content, change.content state.disk = some content
      → fine () (state.write change content))
    (fails : ∀ final, Alters state change final → failed final)
    : Does kept fine failed (ask (.change change)) state := by
  refine .call (allowed state .untouched) ?_ ?_
  · rintro final ⟨⟩
    rename_i alters
    exact allowed final alters
  · rintro answer final ⟨⟩
    · rename_i carried
      exact ⟨allowed _ (.written carried), reached _ carried⟩
    · rename_i alters
      exact ⟨allowed final alters, fails final alters⟩

theorem does_caught {α : Type} {fine : α → UpdateState → Prop}
    {whatever : UpdateState → Prop} {program : Updating α}
    (does : Does kept fine failed program state)
    : Does kept (Program.byOutcome fine fun _ => failed) whatever (caught program) state :=
  Program.Ensures.bind does fun _ _ holds reached => ⟨holds, reached⟩

theorem does_stopChild {fine : Except UpdateError Unit → UpdateState → Prop}
    (holds : kept state)
    (stopped : kept (state.note (.stopped true)) ∧ fine (.ok ()) (state.note (.stopped true)))
    (refused : kept (state.note (.stopped false))
      ∧ ∀ err, fine (.error err) (state.note (.stopped false)))
    : Does kept fine failed stopChild state := by
  refine ⟨holds, ?_, ?_⟩
  · rintro final ⟨⟩
  · rintro answer final ⟨⟩
    · exact stopped
    · exact ⟨refused.1, refused.2 _⟩

theorem does_verifyPlacement {fine : Except UpdateError Unit → UpdateState → Prop}
    (holds : kept state) (placed : fine (.ok ()) state)
    (lost : kept (state.note .placementLost)
      ∧ ∀ err, fine (.error err) (state.note .placementLost))
    : Does kept fine failed verifyPlacement state := by
  refine ⟨holds, ?_, ?_⟩
  · rintro final ⟨⟩
  · rintro answer final ⟨⟩
    · exact ⟨holds, placed⟩
    · exact ⟨lost.1, lost.2 _⟩

end Calls

-- The durable journal

/-- The store still holds the generation the writer last knew. -/
def UpdateState.Unmoved (state : UpdateState) (current : UpdateJournal) : Prop :=
  ∃ stored, state.stored = some stored ∧ stored.generation = current.generation
    ∧ stored.transactionId = current.transactionId

/-- A changed journal with the generation it is persisted under. -/
def UpdateJournal.after (next current : UpdateJournal) : UpdateJournal :=
  { next with generation := current.generation + 1 }

section Journaling

variable {kept failed : UpdateState → Prop} {fine : Unit → UpdateState → Prop}
variable {state : UpdateState}

/-- Persisting changes nothing, or the store alone, or the store and the memory. -/
theorem does_persist {current next : UpdateJournal} (holds : kept state) (fails : failed state)
    (persists : state.Unmoved current
      → kept (state.storing (next.after current)) ∧ failed (state.storing (next.after current))
        ∧ kept ((state.storing (next.after current)).remembering (next.after current))
        ∧ fine () ((state.storing (next.after current)).remembering (next.after current)))
    : Does kept fine failed (persist current next) state := by
  refine .bind (fun onDisk final => final = state ∧ onDisk = state.stored) ?_ ?_
  · refine .call holds ?_ ?_
    · rintro final ⟨⟩
    · rintro answer final ⟨⟩
      · exact ⟨holds, rfl, rfl⟩
      · exact ⟨holds, fails⟩
  rintro onDisk state _ ⟨rfl, rfl⟩
  refine .ite ?_ ?_
  · intro same
    have unmoved : state.Unmoved current := by
      rcases found : state.stored with _ | stored
      · simp [found] at same
      · simp only [found, Option.any_some, Bool.and_eq_true, beq_iff_eq] at same
        exact ⟨stored, found, same⟩
    obtain ⟨storing, failing, remembering, reached⟩ := persists unmoved
    refine .bind (fun _ final => final = state.storing (next.after current)) ?_ ?_
    · refine .call holds ?_ ?_
      · rintro final ⟨⟩
        exact storing
      · rintro answer final ⟨⟩
        · cases answer with
          | ok value => exact ⟨storing, rfl⟩
          | error err => exact ⟨storing, failing⟩
        · exact ⟨holds, fails⟩
    · rintro _ _ _ rfl
      refine .call storing ?_ ?_
      · rintro final ⟨⟩
      · rintro answer final ⟨⟩
        exact ⟨remembering, reached⟩
  · intro _
    exact .settled holds (fun _ impossible => nomatch impossible) fun _ _ => fails

theorem does_advancePhase {phase : Phase} (holds : kept state) (fails : failed state)
    (persists : ∀ next, state.memory.transition phase = .ok next
      → state.Unmoved state.memory
      → kept (state.storing (next.after state.memory))
        ∧ failed (state.storing (next.after state.memory))
        ∧ kept ((state.storing (next.after state.memory)).remembering (next.after state.memory))
        ∧ fine () ((state.storing (next.after state.memory)).remembering
            (next.after state.memory)))
    : Does kept fine failed (advancePhase phase) state := by
  refine does_bindCurrent holds ?_
  refine .bind (fun next final => final = state ∧ state.memory.transition phase = .ok next) ?_ ?_
  · exact .settled holds (fun next moved => ⟨rfl, moved⟩) fun _ _ => fails
  · rintro next state _ ⟨rfl, moved⟩
    exact does_persist holds fails (persists next moved)

theorem does_advanceStep {index : Nat} {step : StepState} (holds : kept state)
    (fails : failed state)
    (persists : ∀ next, state.memory.setStep index step = .ok next
      → state.Unmoved state.memory
      → kept (state.storing (next.after state.memory))
        ∧ failed (state.storing (next.after state.memory))
        ∧ kept ((state.storing (next.after state.memory)).remembering (next.after state.memory))
        ∧ fine () ((state.storing (next.after state.memory)).remembering
            (next.after state.memory)))
    : Does kept fine failed (advanceStep index step) state := by
  refine does_bindCurrent holds ?_
  refine .bind (fun next final => final = state ∧ state.memory.setStep index step = .ok next)
    ?_ ?_
  · exact .settled holds (fun next moved => ⟨rfl, moved⟩) fun _ _ => fails
  · rintro next state _ ⟨rfl, moved⟩
    exact does_persist holds fails (persists next moved)

end Journaling

-- Observing functions

/-- A program that only observes, fails when an observation does, and otherwise gives a value
that the disk determines.
-/
inductive Looks {α : Type} (disk : String → Observed) (value : α) : Updating α → Prop where
  | done : Looks disk value (pure value)
  | look {relPath : String} {next : Except UpdateError Observed → Updating α}
      (fails : ∀ err, next (.error err) = Program.settled (.error err))
      (onward : Looks disk value (next (.ok (disk relPath))))
      : Looks disk value (.mk (.call (.observe relPath) next))

section Observing

variable {α β : Type} {disk : String → Observed}

theorem Looks.observe (relPath : String) : Looks disk (disk relPath) (observe relPath) :=
  .look (fun _ => rfl) .done

/-- Observing programs in sequence, by induction over the first. -/
theorem Looks.bind {value : α} {result : β} {program : Updating α} {next : α → Updating β}
    (first : Looks disk value program) (second : Looks disk result (next value))
    : Looks disk result (program >>= next) := by
  induction first with
  | done => exact second
  | @look relPath rest fails _ ih =>
      have onward : Looks disk result
          (.mk (.call (.observe relPath)
            fun answer => ((rest answer : Updating α) >>= next : Updating β))) := by
        refine .look ?_ ih
        intro err
        rw [fails err]
        rfl
      exact onward

def looking (disk : String → Observed) : Determines disk observe where
  sees := Looks disk
  done _ := .done
  bind := .bind
  observed := .observe

theorem looks_firstUnchangedMismatch (files : List UnchangedFile)
    : Looks disk (unchangedMismatchOn disk files) (firstUnchangedMismatch observe files) :=
  (looking disk).firstUnchangedMismatch files

theorem looks_firstStepNotNew (steps : List JournalStep)
    : Looks disk (notNewOn disk steps) (firstStepNotNew observe steps) :=
  (looking disk).firstStepNotNew steps

theorem looks_decideRecovery (journal : UpdateJournal)
    : Looks disk (decideOn disk journal)
        (decideRecovery observe (some journal) journal.installId) :=
  (looking disk).decideRecovery journal

variable {kept failed : UpdateState → Prop} {state : UpdateState}

/-- An observing program leaves everything as it was, by induction over it. -/
theorem Looks.does {value : α} {program : Updating α} (looks : Looks state.disk value program)
    (holds : kept state) (fails : failed state)
    : Does kept (fun seen final => final = state ∧ seen = value) failed program state := by
  induction looks with
  | done => exact .pure holds ⟨rfl, rfl⟩
  | @look relPath next stops _ ih =>
      refine ⟨holds, ?_, ?_⟩
      · rintro final ⟨⟩
      · rintro answer final ⟨⟩
        · exact ih
        · rename_i err
          have stopped : Does kept (fun seen final => final = state ∧ seen = value) failed
              (next (.error err)) state := by
            rw [stops err]
            exact ⟨holds, fails⟩
          exact stopped

/-- An observing program may run to the end, by induction over it. -/
theorem Looks.runs {value : α} {program : Updating α} (looks : Looks state.disk value program)
    : Program.Runs updateOutside program.run state (.finished (Except.ok value)) state := by
  induction looks with
  | done => exact .finish (Except.ok value) state
  | @look relPath next stops _ ih => exact .step (.observed state relPath) ih

theorem sees (holds : kept state) (fails : failed state) (relPath : String)
    : Does kept (fun observed final => final = state ∧ observed = state.disk relPath) failed
        (observe relPath) state :=
  (Looks.observe relPath).does holds fails

theorem does_decideRecovery {journal : UpdateJournal} (holds : kept state) (fails : failed state)
    : Does kept (fun decision final => final = state ∧ decision = decideOn state.disk journal)
        failed (decideRecovery observe (some journal) journal.installId) state :=
  (looks_decideRecovery journal).does holds fails

theorem does_bindDecision {α : Type} {fine : α → UpdateState → Prop} {journal : UpdateJournal}
    {next : RecoveryDecision → Updating α} (holds : kept state) (fails : failed state)
    (goesOn : Does kept fine failed (next (decideOn state.disk journal)) state)
    : Does kept fine failed
        (decideRecovery observe (some journal) journal.installId >>= next) state := by
  refine .bind _ (does_decideRecovery holds fails) ?_
  rintro decision final _ ⟨rfl, rfl⟩
  exact goesOn

/-- The check of the whole install passes only at the new version. -/
theorem does_checkNew {detail : String} {steps : List JournalStep}
    {unchanged : List UnchangedFile} (holds : kept state)
    : Does kept
        (fun _ final => final = state ∧ AllNew state.disk steps
          ∧ AllUnchanged state.disk unchanged)
        (fun final => final = state) (checkNew detail steps unchanged) state := by
  refine .bind _ ((looks_firstStepNotNew steps).does holds rfl) ?_
  rintro found state _ ⟨rfl, rfl⟩
  rcases new : notNewOn state.disk steps with _ | path
  · refine .bind _ ((looks_firstUnchangedMismatch unchanged).does holds rfl) ?_
    rintro found state _ ⟨rfl, rfl⟩
    rcases same : unchangedMismatchOn state.disk unchanged with _ | path
    · exact .pure holds ⟨rfl, notNewOn_eq_none.mp new, unchangedMismatchOn_eq_none.mp same⟩
    · exact ⟨holds, rfl⟩
  · exact ⟨holds, rfl⟩

theorem does_verifyBeforeCommit (holds : kept state)
    : Does kept
        (fun _ final => final = state ∧ AllNew state.disk state.memory.steps
          ∧ AllUnchanged state.disk state.memory.unchanged)
        (fun final => final = state) verifyBeforeCommit state := by
  refine does_bindCurrent holds ?_
  refine .bind _ (does_checkNew holds) ?_
  intro _ state _ both
  obtain ⟨rfl, new⟩ := both
  exact does_verifyCommitState holds ⟨rfl, new⟩ rfl

theorem UpdateAnswers.keeps_event {state final : UpdateState} {call : UpdateCall}
    {answer : call.Answer} (answers : UpdateAnswers state call answer final) {event : Event}
    (member : event ∈ state.events)
    : event ∈ final.events := by
  cases answers with
  | changed _ | notPlaced _ | stopped | notStopped _ => exact List.mem_cons_of_mem _ member
  | notChanged _ alters =>
      cases alters with
      | untouched => exact member
      | written _ | absent _ => exact List.mem_cons_of_mem _ member
  | _ => exact member

theorem UpdateTears.keeps_event {state final : UpdateState} {call : UpdateCall}
    (tears : UpdateTears state call final) {event : Event} (member : event ∈ state.events)
    : event ∈ final.events := by
  cases tears with
  | stored journal => exact member
  | changed alters =>
      cases alters with
      | untouched => exact member
      | written _ | absent _ => exact List.mem_cons_of_mem _ member

theorem does_anything {α : Type} {about : Event → Prop} (program : Updating α)
    (keeps : ∀ state : UpdateState, (∃ event ∈ state.events, about event) → kept state)
    (happened : ∃ event ∈ state.events, about event)
    : Does kept (fun _ final => ∃ event ∈ final.events, about event)
        (fun final => ∃ event ∈ final.events, about event) program state := by
  refine (Program.Ensures.anything ?_ ?_ keeps program happened).mono ?_
  · rintro state call answer final ⟨event, member, holds⟩ answers
    exact ⟨event, UpdateAnswers.keeps_event answers member, holds⟩
  · rintro state call final ⟨event, member, holds⟩ tears
    exact ⟨event, UpdateTears.keeps_event tears member, holds⟩
  · intro outcome final _ happened
    cases outcome <;> exact happened

end Observing

-- Possible runs

section Possible

variable {state : UpdateState}

end Possible

end Hane.Update
