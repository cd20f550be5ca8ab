import Hane.Update.StartupScan

/-! The startup gate over whole runs: when it lets the application start, and when it calls the
recovery runner, whatever the private directory holds and whatever the runner does.
-/

namespace Hane.Update

open Hane.Foundations

-- What a gate has to leave

def NoRecovery (log : List GateEvent) : Prop :=
  ∀ event ∈ log, ∀ transaction, event.step ≠ .recovered transaction

/-- The runner was called at most once, without the startup lease, for the transaction that a scan
under the lease had found to be the only pending one.
-/
def RunnerCalls (installId : String) (log : List GateEvent) : Prop :=
  NoRecovery log ∨ ∃ newer held transaction older directory disk,
    log = newer ++ ⟨held, .recovered transaction⟩ :: older
      ∧ NoRecovery newer ∧ NoRecovery older ∧ .startup ∉ held
      ∧ ⟨[.startup], .listed directory disk⟩ ∈ older
      ∧ SinglePending installId directory transaction

/-- The startup lease was released at last, after the shared runtime lease was taken under it; in
between nothing but listings, and under the startup lease alone one of a clean directory.
-/
def Entered (installId : String) (log : List GateEvent) : Prop :=
  ∃ later during earlier directory disk,
    log = ⟨[.runtimeShared, .startup], .released .startup⟩ :: later
        ++ ⟨[.startup], .acquired .runtimeShared⟩ :: during ++ earlier
      ∧ (∀ event ∈ later ++ during, ∃ directory disk, event.step = .listed directory disk)
      ∧ ⟨[.startup], .listed directory disk⟩ ∈ during
      ∧ Clean installId directory disk

theorem NoRecovery.append {newer older : List GateEvent} (first : NoRecovery newer)
    (second : NoRecovery older)
    : NoRecovery (newer ++ older) :=
  fun event member => (List.mem_append.mp member).elim (first event) (second event)

theorem RunnerCalls.extend {installId : String} {newer log : List GateEvent}
    (quiet : NoRecovery newer) (calls : RunnerCalls installId log)
    : RunnerCalls installId (newer ++ log) := by
  rcases calls with none_ | ⟨later, held, transaction, older, directory, disk, rfl, quiet', rest⟩
  · exact .inl (quiet.append none_)
  · exact .inr ⟨newer ++ later, held, transaction, older, directory, disk,
      (List.append_assoc ..).symm, quiet.append quiet', rest⟩

theorem RunnerCalls.step {installId : String} {log : List GateEvent} {event : GateEvent}
    (other : ∀ transaction, event.step ≠ .recovered transaction)
    (calls : RunnerCalls installId log)
    : RunnerCalls installId (event :: log) :=
  calls.extend (fun found member => by rw [List.mem_singleton.mp member]; exact other)

theorem Listing.quiet {start : GateWorld} {newer : List GateEvent}
    (listings : ∀ event ∈ newer, Listing start event)
    : NoRecovery newer := by
  intro event member transaction
  obtain ⟨directory, disk, rfl, _⟩ := listings event member
  exact nofun

section Gate

variable {installId : String} {start world : GateWorld}

theorem Steady.calls (steady : Steady start world) (calls : RunnerCalls installId start.log)
    : RunnerCalls installId world.log := by
  obtain ⟨newer, log, listings⟩ := steady.log
  rw [log]
  exact calls.extend (Listing.quiet listings)

/-- A program of the gate keeps the calls of the runner in order. -/
abbrev Starts {α : Type} (installId : String) (fine : α → GateWorld → Prop)
    (program : Starting α) (world : GateWorld) : Prop :=
  Program.Performs (gateOutside installId) (fun world => RunnerCalls installId world.log) fine
    (fun outcome _ => ∀ committed, outcome ≠ .proceed committed) program world

-- Leases

theorem release_starts {kind : LeaseKind} (calls : RunnerCalls installId world.log)
    : Starts installId (fun _ final => ∃ middle, Steady world middle
        ∧ final = middle.releasing kind) (release kind) world := by
  show Starts installId _ (looked (.release kind)) world
  refine looked_performs calls (fun _ _ (tears : False) => tears) ?_
  rintro _ middle _ others ⟨⟩
  exact ⟨.step (fun _ => nofun) (others.steady.calls calls), middle, others.steady, rfl⟩

theorem tryAcquire_starts {kind : LeaseKind} (calls : RunnerCalls installId world.log)
    : Starts installId
        (fun answer final => ∃ middle, Steady world middle
          ∧ (answer = .ok true ∧ final = middle.acquiring kind
            ∨ answer ≠ .ok true ∧ final = middle))
        (looked (.tryAcquire kind)) world := by
  refine looked_performs calls (fun _ _ (tears : False) => tears) ?_
  intro answer middle final others effect
  have before := others.steady.calls calls
  rcases answer with err | _ | _
  · cases effect
    exact ⟨before, middle, others.steady, .inr ⟨nofun, rfl⟩⟩
  · cases effect
    exact ⟨before, middle, others.steady, .inr ⟨nofun, rfl⟩⟩
  · cases effect
    exact ⟨.step (fun _ => nofun) before, middle, others.steady, .inl ⟨rfl, rfl⟩⟩

theorem acquireWithin_starts {kind : LeaseKind} {waitMs : Nat}
    (calls : RunnerCalls installId world.log)
    : Starts installId
        (fun answer final => answer = .ok () → ∃ middle, Steady world middle
          ∧ final = middle.acquiring kind)
        (looked (.acquireWithin kind waitMs)) world := by
  refine looked_performs calls (fun _ _ (tears : False) => tears) ?_
  intro answer middle final others effect
  have before := others.steady.calls calls
  cases answer with
  | error err =>
      cases effect
      exact ⟨before, nofun⟩
  | ok acquired =>
      cases effect
      exact ⟨.step (fun _ => nofun) before, fun _ => ⟨middle, others.steady, rfl⟩⟩

-- Sweeps

theorem sweepEntry_starts (entry : Except IoError OsText)
    (calls : RunnerCalls installId start.log) (steady : Steady start world)
    : Starts installId (fun _ => Steady start) (sweepEntry entry) world := by
  have keeps : ∀ world, Steady start world → RunnerCalls installId world.log :=
    fun world steady => steady.calls calls
  unfold sweepEntry
  cases entry.toOption.bind OsText.intoString with
  | none => exact .pure (keeps world steady) steady
  | some name =>
      refine .ite (fun _ => ?_) fun _ => .ite (fun _ => ?_) fun _ => ?_
      · refine .bind _ (quiet_performs keeps
          (show (GateCall.removeRetiredReceipt name).IsQuiet from trivial) steady) ?_
        exact fun _ final holds reached => .pure holds reached.1
      · exact (quiet_performs keeps
          (show (GateCall.discardUnstarted name).IsQuiet from trivial) steady).mono
          (fun _ _ _ reached => reached.1) fun _ _ _ fails => fails
      · exact .pure (keeps world steady) steady

theorem sweepEntries_starts (entries : List (Except IoError OsText))
    (calls : RunnerCalls installId start.log) (steady : Steady start world)
    : Starts installId (fun _ => Steady start) (sweepEntries entries) world := by
  induction entries generalizing world with
  | nil => exact .pure (steady.calls calls) steady
  | cons entry rest ih =>
      exact .bind _ (sweepEntry_starts entry calls steady) fun _ final _ steady => ih steady

theorem sweepUnjournaled_starts (calls : RunnerCalls installId start.log)
    : Starts installId (fun _ => Steady start) sweepUnjournaled start := by
  have keeps : ∀ world, Steady start world → RunnerCalls installId world.log :=
    fun world steady => steady.calls calls
  refine .bind _ (quiet_performs keeps (show GateCall.readPrivate.IsQuiet from trivial)
    (.refl start)) ?_
  rintro (err | _ | entries) final holds ⟨steady, _⟩
  · exact .pure holds steady
  · exact .pure holds steady
  · refine .bind _ (sweepEntries_starts entries calls steady) ?_
    intro _ final _ steady
    exact (quiet_performs keeps (by trivial) steady).mono
      (fun _ _ _ reached => reached.1) fun _ _ _ fails => fails

/-- A program that gives back every lease it takes, and never calls the runner. -/
def GivesBack (installId : String) (held : List LeaseKind) (program : Starting Unit) : Prop :=
  ∀ world, world.held = held → NoRecovery world.log
    → Starts installId (fun _ final => final.held = held ∧ NoRecovery final.log) program world

theorem Steady.noRecovery (steady : Steady start world) (fresh : NoRecovery start.log)
    : NoRecovery world.log := by
  obtain ⟨newer, log, listings⟩ := steady.log
  rw [log]
  exact (Listing.quiet listings).append fresh

theorem GivesBack.underLease {held : List LeaseKind} {kind : LeaseKind} {program : Starting Unit}
    (gives : GivesBack installId (kind :: held) program)
    : GivesBack installId held (underLease kind program) := by
  intro world same fresh
  refine .bind _ (tryAcquire_starts (.inl fresh)) ?_
  rintro answer final holds ⟨first, steady, ⟨rfl, rfl⟩ | ⟨taken, rfl⟩⟩
  · refine .ite (fun _ => ?_) fun untaken => absurd rfl untaken
    have held' : (first.acquiring kind).held = kind :: held :=
      congrArg (kind :: ·) (steady.held.trans same)
    have fresh' : NoRecovery (first.acquiring kind).log :=
      List.forall_mem_cons.mpr ⟨fun _ => nofun, steady.noRecovery fresh⟩
    refine .bind _ (gives _ held' fresh') ?_
    intro _ final holds ⟨given, quiet⟩
    refine (release_starts holds).mono ?_ fun _ _ _ fails => fails
    rintro _ _ _ ⟨middle, steady, rfl⟩
    refine ⟨by simp [GateWorld.releasing, steady.held, given], ?_⟩
    exact List.forall_mem_cons.mpr ⟨fun _ => nofun, steady.noRecovery quiet⟩
  · exact .ite (fun acquired => absurd acquired taken) fun _ =>
      .pure holds ⟨steady.held.trans same, steady.noRecovery fresh⟩

theorem GivesBack.whileAlone {sweep : Starting Unit}
    (sweeps : ∀ start, RunnerCalls installId start.log
      → Starts installId (fun _ => Steady start) sweep start)
    : GivesBack installId [] (whileAlone sweep) := by
  refine .underLease (.underLease (.underLease ?_))
  intro world held fresh
  exact (sweeps world (.inl fresh)).mono
    (fun _ _ _ steady => ⟨steady.held.trans held, steady.noRecovery fresh⟩)
    fun _ _ _ fails => fails

theorem sweepAbandonedTransactions_starts : GivesBack installId [] sweepAbandonedTransactions :=
  .whileAlone fun _ calls => sweepUnjournaled_starts calls

theorem sweepInstallScratch_starts : GivesBack installId [] sweepInstallScratch := by
  refine .whileAlone fun start calls => ?_
  exact (quiet_performs (fun _ steady => steady.calls calls)
    (show GateCall.cleanupScratch.IsQuiet from trivial) (.refl start)).mono
    (fun _ _ _ reached => reached.1) fun _ _ _ fails => fails

-- Entering

/-- Looking for the committed restore changes nothing, by induction over the entries. -/
theorem committedEntries_starts (entries : List (Except IoError OsText))
    {found : Option (String × String)} (calls : RunnerCalls installId start.log)
    (steady : Steady start world)
    : Starts installId (fun _ => Steady start) (committedEntries ⟨installId⟩ entries found)
        world := by
  have keeps : ∀ world, Steady start world → RunnerCalls installId world.log :=
    fun world steady => steady.calls calls
  induction entries generalizing found world with
  | nil => exact .pure (keeps world steady) steady
  | cons entry rest ih =>
      rcases entry with err | entry
      · exact .pure (keeps world steady) steady
      unfold committedEntries
      cases transactionName entry with
      | none => exact ih steady
      | some name =>
          refine .bind _ (quiet_performs keeps
            (show (GateCall.symlinkMetadata name).IsQuiet from trivial) steady) ?_
          rintro (err | _ | kind) final holds ⟨steady, _⟩
          · exact .pure holds steady
          · exact .pure holds steady
          refine .ite (fun _ => ih steady) fun _ => ?_
          refine .bind (fun _ => Steady start) ?_ ?_
          · exact (quiet_call keeps (show (GateCall.loadJournal name).IsQuiet from trivial) steady
              Except.ok rfl fun _ _ _ _ reached _ => reached)
          · rintro (err | _ | journal) final holds steady
            · exact ih steady
            · exact ih steady
            · exact .ite (fun _ => ih steady) fun _ =>
                .ite (fun _ => .pure holds steady) fun _ => ih steady

theorem committedRestore_starts (calls : RunnerCalls installId start.log)
    : Starts installId (fun _ => Steady start) (committedRestore ⟨installId⟩) start := by
  have keeps : ∀ world, Steady start world → RunnerCalls installId world.log :=
    fun world steady => steady.calls calls
  refine .bind _ (quiet_performs keeps (show GateCall.readPrivate.IsQuiet from trivial)
    (.refl start)) ?_
  rintro (err | _ | entries) final holds ⟨steady, _⟩
  · exact .pure holds steady
  · exact .pure holds steady
  refine .bind _ (committedEntries_starts entries calls steady) ?_
  rintro (_ | ⟨transaction, version⟩) final holds steady
  · exact .pure holds steady
  refine .bind _ (quiet_performs keeps
    (show (GateCall.ticketFromBinding transaction).IsQuiet from trivial) steady) ?_
  rintro (err | restore) final holds ⟨steady, _⟩
  · exact .pure holds steady
  refine .bind _ (quiet_performs keeps
    (show (GateCall.hasUnclaimedTicket restore).IsQuiet from trivial) steady) ?_
  exact fun unclaimed final holds reached => .pure holds reached.1

/-- What one pass of the loop gives: an application that may start, no start, or the only pending
transaction with no lease held.
-/
def LooksSound (installId : String) (start : GateWorld) (found : Except String GateOutcome)
    (final : GateWorld) : Prop :=
  match found with
  | .ok (.proceed _) => final.held = [.runtimeShared] ∧ Entered installId final.log
  | .ok _ => True
  | .error transaction => final.held = [] ∧ ∃ newer directory disk,
      final.log = newer ++ start.log ∧ NoRecovery newer
        ∧ ⟨[.startup], .listed directory disk⟩ ∈ newer
        ∧ SinglePending installId directory transaction

/-- A scan by a process that took the startup lease alone found the listed directory clean. -/
structure CleanlyScanned (installId : String) (taken world : GateWorld) : Prop where
  held : taken.held = [.startup]
  steady : Steady taken world
  clean : ∃ newer directory disk, world.log = newer ++ taken.log
    ∧ ⟨[.startup], .listed directory disk⟩ ∈ newer ∧ Clean installId directory disk

theorem CleanlyScanned.later {taken world later : GateWorld}
    (scanned : CleanlyScanned installId taken world) (steady : Steady world later)
    : CleanlyScanned installId taken later := by
  obtain ⟨newer, directory, disk, log, listed, clean⟩ := scanned.clean
  obtain ⟨latest, log', _⟩ := steady.log
  exact ⟨scanned.held, scanned.steady.trans steady, latest ++ newer, directory, disk,
    by rw [log', log, List.append_assoc], List.mem_append_right _ listed, clean⟩

theorem CleanlyScanned.entered {taken scanned read left : GateWorld}
    (clean : CleanlyScanned installId taken scanned)
    (reading : Steady (scanned.acquiring .runtimeShared) read) (leaving : Steady read left)
    : (left.releasing .startup).held = [.runtimeShared]
      ∧ Entered installId (left.releasing .startup).log := by
  have steady := reading.trans leaving
  have held : scanned.held = [.startup] := clean.steady.held.trans clean.held
  have held' : left.held = [.runtimeShared, .startup] :=
    steady.held.trans (congrArg (LeaseKind.runtimeShared :: ·) held)
  refine ⟨by simp [GateWorld.releasing, held'], ?_⟩
  obtain ⟨later, log, listings⟩ := steady.log
  obtain ⟨during, log', listings'⟩ := clean.steady.log
  obtain ⟨newer, directory, disk, log'', listed, tidy⟩ := clean.clean
  obtain rfl := List.append_cancel_right (log'.symm.trans log'')
  refine ⟨later, during, taken.log, directory, disk, ?_, ?_, listed, tidy⟩
  · simp [GateWorld.releasing, GateWorld.acquiring, GateWorld.logged, log, log', held', held]
  · intro event member
    rcases List.mem_append.mp member with member | member
    · obtain ⟨directory, disk, rfl, _⟩ := listings event member
      exact ⟨directory, disk, rfl⟩
    · obtain ⟨directory, disk, rfl, _⟩ := listings' event member
      exact ⟨directory, disk, rfl⟩

theorem enterRuntime_starts {taken : GateWorld} (scanned : CleanlyScanned installId taken world)
    (calls : RunnerCalls installId world.log)
    : Starts installId
        (fun outcome final => ∀ committed, outcome = .proceed committed
          → final.held = [.runtimeShared] ∧ Entered installId final.log)
        (enterRuntime ⟨installId⟩) world := by
  have keeps : ∀ later, Steady world later → RunnerCalls installId later.log :=
    fun later steady => steady.calls calls
  refine .bind _ (quiet_performs keeps
    (show GateCall.sweepSettledAnchors.IsQuiet from trivial) (.refl world)) ?_
  rintro _ swept holds ⟨steady, _⟩
  refine .bind _ (tryAcquire_starts holds) ?_
  rintro answer final holds ⟨before, steady', taken_⟩
  have clean := (scanned.later steady).later steady'
  rcases answer with err | _ | _
  · exact .bind _ (release_starts holds) fun _ _ holds _ => .pure holds nofun
  · exact .bind _ (release_starts holds) fun _ _ holds _ => .pure holds nofun
  · obtain ⟨_, rfl⟩ | ⟨untaken, _⟩ := taken_
    · refine .bind _ (committedRestore_starts holds) ?_
      intro committed read holds reading
      refine .bind _ (release_starts holds) ?_
      rintro _ _ holds ⟨left, leaving, rfl⟩
      exact .pure holds fun _ _ => clean.entered reading leaving
    · exact absurd rfl untaken

-- The loop

theorem LooksSound.refused {found : GateOutcome} {final : GateWorld}
    (refused : ∀ committed, found ≠ .proceed committed)
    : LooksSound installId start (.ok found) final := by
  cases found with
  | proceed committed => exact absurd rfl (refused committed)
  | _ => trivial

/-- One pass of the loop, from no lease. -/
theorem gateLook_starts {waitMs : Nat} (idle : start.held = [])
    (calls : RunnerCalls installId start.log)
    : Starts installId (LooksSound installId start) (gateLook ⟨installId⟩ waitMs) start := by
  refine .bind _ (acquireWithin_starts calls) ?_
  rintro (err | _) taken holds acquired
  · refine .pure holds (.refused ?_)
    split <;> (intro committed same; cases same)
  obtain ⟨before, steady, rfl⟩ := acquired rfl
  have held : (before.acquiring .startup).held = [.startup] :=
    congrArg (LeaseKind.startup :: ·) (steady.held.trans idle)
  have under : .startup ∈ (before.acquiring .startup).held := List.mem_cons_self
  have keeps : ∀ later, Steady (before.acquiring .startup) later
      → RunnerCalls installId later.log := fun later steady => steady.calls holds
  refine .bind _ (outcomeOf_performs (scanPending_performs keeps under (.refl _))) ?_
  rintro (err | _ | transaction | why) scanned holds found
  · exact .bind _ (release_starts holds) fun _ _ holds _ => .pure holds trivial
  · obtain ⟨steady', newer, directory, disk, log, _, listed, clean⟩ := found
    have tidy : CleanlyScanned installId (before.acquiring .startup) scanned :=
      ⟨held, steady', newer, directory, disk, log, held ▸ listed, clean⟩
    refine .bind _ (enterRuntime_starts tidy holds) ?_
    intro outcome final holds entered
    cases outcome with
    | proceed committed => exact .pure holds (entered committed rfl)
    | _ => exact .pure holds trivial
  · obtain ⟨steady', newer, directory, disk, log, listings, listed, pending⟩ := found
    refine .bind _ (release_starts holds) ?_
    rintro _ _ holds ⟨left, steady'', rfl⟩
    obtain ⟨latest, log', listings'⟩ := steady''.log
    obtain ⟨first, log'', listings''⟩ := steady.log
    have held' : left.held = [.startup] := steady''.held.trans (steady'.held.trans held)
    refine .pure holds ⟨by simp [GateWorld.releasing, held'],
      ⟨left.held, .released .startup⟩ :: latest ++ newer
        ++ ⟨before.held, .acquired .startup⟩ :: first, directory, disk, ?_, ?_, ?_, pending⟩
    · simp [GateWorld.releasing, GateWorld.acquiring, GateWorld.logged, log', log, log'']
    · refine (NoRecovery.append ?_ (Listing.quiet listings)).append ?_
      · exact List.forall_mem_cons.mpr ⟨by rintro _ ⟨⟩, Listing.quiet listings'⟩
      · exact List.forall_mem_cons.mpr ⟨by rintro _ ⟨⟩, Listing.quiet listings''⟩
    · rw [held] at listed
      simp [listed]
  · exact .bind _ (release_starts holds) fun _ _ holds _ => .pure holds trivial

/-- What the gate gives: an application that may start has passed a clean scan. -/
def Outcome (installId : String) (outcome : GateOutcome) (final : GateWorld) : Prop :=
  ∀ committed, outcome = .proceed committed
    → final.held = [.runtimeShared] ∧ Entered installId final.log

theorem LooksSound.outcome {found : GateOutcome} {final : GateWorld}
    (sound : LooksSound installId start (.ok found) final)
    : Outcome installId found final := by
  rintro committed rfl
  exact sound

/-- The runner is called between two passes, once, and only after the first one found its
transaction.
-/
theorem gateLoop_starts {waitMs : Nat} (idle : start.held = []) (fresh : NoRecovery start.log)
    : Starts installId (Outcome installId) (gateLoop ⟨installId⟩ waitMs) start := by
  refine .bind _ (gateLook_starts idle (.inl fresh)) ?_
  rintro (transaction | outcome) looked_ holds sound
  rotate_left
  · exact .pure holds sound.outcome
  obtain ⟨free, newer, directory, disk, log, quiet, listed, pending⟩ := sound
  have recovers : Starts installId (fun _ final => final.held = [])
      (looked (.recover transaction)) looked_ := by
    refine looked_performs holds (fun _ _ (tears : False) => tears) ?_
    rintro report middle _ others ⟨directory', removed, disk', rfl⟩
    have free' : middle.held = [] := others.held.trans free
    refine ⟨.inr ⟨[], middle.held, transaction, middle.log, directory, disk, rfl, by rintro _ ⟨⟩,
      ?_, ?_, ?_, pending⟩, free'⟩
    · rw [others.log, log]
      exact quiet.append fresh
    · rw [free']
      intro member
      cases member
    · rw [others.log, log]
      exact List.mem_append_left _ listed
  refine .bind _ recovers ?_
  intro report final holds free
  -- The second pass does not call the runner again, whatever it finds.
  have again {answer : Except String GateOutcome → Starting GateOutcome}
      (unsettles : ∀ transaction, answer (.error transaction) = return unsettled)
      (answers : ∀ outcome, answer (.ok outcome) = return outcome)
      : Starts installId (Outcome installId) (gateLook ⟨installId⟩ waitMs >>= answer) final := by
    refine .bind _ (gateLook_starts free holds) ?_
    rintro (transaction | outcome) final holds sound
    · rw [unsettles]
      exact .pure holds (by intro _ same; cases same)
    · rw [answers]
      exact .pure holds sound.outcome
  rcases report with err | _ | _ | _ | _ | why | why
  · exact .pure holds (by intro _ same; cases same)
  · exact again (fun _ => rfl) (fun _ => rfl)
  · exact again (fun _ => rfl) (fun _ => rfl)
  · exact again (fun _ => rfl) (fun _ => rfl)
  · exact again (fun _ => rfl) (fun _ => rfl)
  · exact .pure holds (by intro _ same; cases same)
  · exact .pure holds (by intro _ same; cases same)

theorem gateCoordination_starts (fresh : NoRecovery start.log)
    : Starts installId (fun coordination final => coordination = ⟨installId⟩ ∧ Steady start final)
        gateCoordination start := by
  have keeps : ∀ world, Steady start world → RunnerCalls installId world.log :=
    fun world steady => steady.calls (.inl fresh)
  refine .bind _ (quiet_performs keeps
    (show GateCall.existingCoordination.IsQuiet from trivial) (.refl start)) ?_
  rintro (err | _ | coordination) final holds ⟨steady, middle, _, effect⟩
  · exact ⟨holds, fun _ => nofun⟩
  · refine .bind _ (quiet_performs keeps
      (show GateCall.createCoordination.IsQuiet from trivial) steady) ?_
    rintro (err | coordination) final holds ⟨steady, middle, _, effect⟩
    · refine .bind _ (quiet_performs keeps
        (show GateCall.existingCoordination.IsQuiet from trivial) steady) ?_
      rintro (err' | _ | other) final holds _
      · exact ⟨holds, fun _ => nofun⟩
      · exact ⟨holds, fun _ => nofun⟩
      · exact ⟨holds, fun _ => nofun⟩
    · obtain ⟨native, _⟩ := effect
      obtain ⟨name⟩ := coordination
      exact .pure holds ⟨congrArg Coordination.mk (native _ rfl), steady⟩
  · obtain ⟨native, _⟩ := effect
    obtain ⟨name⟩ := coordination
    exact .pure holds ⟨congrArg Coordination.mk (native _ rfl), steady⟩

theorem gateSteps_starts {windows : Bool} {waitMs : Nat} (idle : start.held = [])
    (fresh : NoRecovery start.log)
    : Starts installId (Outcome installId) (gateSteps windows waitMs) start := by
  refine .bind _ (gateCoordination_starts fresh) ?_
  rintro _ found _ ⟨rfl, steady⟩
  refine .bind _ (sweepAbandonedTransactions_starts found (steady.held.trans idle)
    (steady.noRecovery fresh)) ?_
  intro _ swept holds ⟨free, quiet⟩
  refine .ite (fun _ => ?_) fun _ => gateLoop_starts free quiet
  refine .bind _ (sweepInstallScratch_starts swept free quiet) ?_
  exact fun _ _ _ ⟨free, quiet⟩ => gateLoop_starts free quiet

theorem startupGate_ensures {windows : Bool} {waitMs : Nat} (idle : start.held = [])
    (fresh : NoRecovery start.log)
    : Program.Ensures (gateOutside installId) (fun world => RunnerCalls installId world.log)
        (Outcome installId) (startupGate windows waitMs) start := by
  refine Program.Ensures.map (gateSteps_starts idle fresh) ?_
  rintro (early | outcome) final _ reached
  · exact fun committed same => absurd same (reached committed)
  · exact reached

end Gate

end Hane.Update
