import Hane.Update.HealthProtocol

/-! However the parties take turns: no editor without a commit, no restored file beside a running
child, one taker of the capability, no commit without the report of the expected child.
-/

namespace Hane.Update

open Hane.Foundations

-- What the engine keeps while it concludes

/-- What holds of the files and the journal at every point of a conclusion. -/
structure Tame (base : UpdateJournal) (start : UpdateState) (healthy : Bool) (update : UpdateState)
    : Prop where
  kept : Kept base start update
  intact : Intact start.disk update
  uncommitted : healthy = false → Uncommitted update

/-- A program that keeps this and ends as committed only with a stored commit. -/
abbrev Drives (base : UpdateJournal) (start : UpdateState) (healthy : Bool) (program : Concluding)
    (update : UpdateState) : Prop :=
  Program.Ensures updateOutside (Tame base start healthy)
    (fun result final => result = .ok .committed → StoresCommit final) program update

/-- Two things that a program ensures hold together, by induction over it. -/
theorem ensures_and {State Call α : Type} {Answer : Call → Type} {outside : Outside State Answer}
    {kept other : State → Prop} {post second : α → State → Prop} {program : Program Answer α}
    {state : State} (left : Program.Ensures outside kept post program state)
    (right : Program.Ensures outside other second program state)
    : Program.Ensures outside (fun state => kept state ∧ other state)
        (fun value final => post value final ∧ second value final) program state := by
  induction program generalizing state with
  | done value => exact ⟨⟨left.1, right.1⟩, left.2, right.2⟩
  | call request next ih =>
      refine ⟨⟨left.1, right.1⟩, fun torn tears => ⟨left.2.1 torn tears, right.2.1 torn tears⟩, ?_⟩
      exact fun answer final answers =>
        ih answer (left.2.2 answer final answers) (right.2.2 answer final answers)

theorem drives_concludeHealth {base : UpdateJournal} {start update : UpdateState} (healthy : Bool)
    (planned : WellPlanned base.steps base.unchanged) (kept : Kept base start update)
    (intact : Intact start.disk update) (uncommitted : Uncommitted update)
    : Drives base start healthy (concludeHealth healthy).run update := by
  have quiet : Program.Ensures updateOutside (fun update => healthy = false → Uncommitted update)
      (fun _ _ => True) (concludeHealth healthy).run update := by
    cases healthy with
    | true =>
        have anything : ∀ state : UpdateState, True → true = false → Uncommitted state :=
          fun _ _ => nofun
        exact .anything (fun _ _ _ _ _ _ => trivial) (fun _ _ _ _ _ => trivial) anything _ trivial
    | false =>
        refine ((spares_concludeHealth_unhealthy update uncommitted).weaken ?_).mono ?_
        · exact fun _ open' _ => open'
        · exact fun _ _ _ _ => trivial
  have keeps : Does (Kept base start) (fun outcome final => outcome.Leaves base final)
      (fun _ => True) (concludeHealth healthy) update := does_concludeHealth_kept planned kept
  have both := ensures_and keeps
    (ensures_and (does_concludeHealth_intact healthy intact) quiet)
  refine (both.weaken fun state ⟨kept, intact, open'⟩ => ⟨kept, intact, open'⟩).mono ?_
  rintro result final - ⟨-, commits, -⟩ rfl
  exact commits rfl

theorem Alters.stopped_before {update final : UpdateState} {change : FileChange}
    (alters : Alters update change final) (stopped : Stopped final) : Stopped update := by
  obtain ⟨event, member, rfl⟩ := stopped
  refine ⟨_, ?_, rfl⟩
  cases alters with
  | untouched => exact member
  | written | absent => simpa [UpdateState.write] using member

theorem UpdateAnswers.stopped_before {update final : UpdateState} {request : UpdateCall}
    {answer : request.Answer} (answers : UpdateAnswers update request answer final)
    (other : request ≠ .stopAndReleaseLease) (stopped : Stopped final) : Stopped update := by
  cases answers with
  | changed carried => exact (Alters.written carried).stopped_before stopped
  | notChanged _ alters => exact alters.stopped_before stopped
  | notPlaced => simpa [Stopped, UpdateState.note] using stopped
  | stopped | notStopped => exact absurd rfl other
  | _ => exact stopped

theorem UpdateTears.stopped_before {update final : UpdateState} {request : UpdateCall}
    (tears : UpdateTears update request final) (stopped : Stopped final) : Stopped update := by
  cases tears with
  | stored => exact stopped
  | changed alters => exact alters.stopped_before stopped

theorem Intact.stopped_of_moved {start : String → Observed} {before after : UpdateState}
    (was : Intact start before) (now : Intact start after)
    (earlier : Stopped after → Stopped before) (moved : after.disk ≠ before.disk)
    : Stopped before := by
  rcases was with same | stopped
  · rcases now with same' | stopped
    · exact absurd (same'.trans same.symm) moved
    · exact earlier stopped
  · exact stopped

-- The invariant

namespace HealthWorld

/-- What the helper knows at each stage. -/
def Knows (setting : HealthSetting) (base : UpdateJournal) (start : UpdateState)
    (world : HealthWorld) : Prop :=
  match world.helper with
  | .awaiting => Uncommitted world.update
  | .concluding healthy remaining =>
    Drives base start healthy remaining world.update
      ∧ (healthy = true → world.Accepted setting)
  | .stopping healthy phase next =>
    Drives base start healthy (.call .stopAndReleaseLease next) world.update
      ∧ (healthy = true → world.Accepted setting)
      ∧ (phase = .acquiring → world.ChildEnded setting)
  | .notifying => StoresCommit world.update
  | .returned | .ended => True

/-- The helper still has to answer for its child. -/
def Owns (world : HealthWorld) : Prop :=
  match world.helper with
  | .awaiting | .concluding _ _ | .stopping _ _ _ => True
  | .notifying | .returned | .ended => False

/-- The invariant of the parties; `was` says that the commit was durable before. -/
structure Inv (setting : HealthSetting) (base : UpdateJournal) (start : UpdateState) (was : Prop)
    (world : HealthWorld) : Prop where
  helper : world.Knows setting base start
  kept : Kept base start world.update
  intact : Intact start.disk world.update
  accepted : StoresCommit world.update → world.Accepted setting
  stopped : Stopped world.update
    → world.ChildEnded setting ∧ (world.helper ≠ .ended → world.exclusive = true)
  handle : world.Owns → world.process = none → world.ChildEnded setting
  process : ∀ number, world.process = some number → setting.child = some number
  exclusive : world.exclusive = true → ∀ number, (world.stages number).holdsLease = false
  sent : world.sent = true → was
  transaction : ∀ number cap, (world.stages number).capability = some cap
    → cap.transaction = setting.identity.transaction
  editing : ∀ number cap, world.stages number = .editing cap → was
  consumed : world.consumers.length ≤ 1 ∧ (world.consumers ≠ [] → world.capability = none)

variable {setting : HealthSetting} {base : UpdateJournal} {start : UpdateState} {was : Prop}
variable {world : HealthWorld}

theorem put_stages {number : Nat} {stage : Stage} (motive : Stage → Prop) (here : motive stage)
    (there : ∀ other, motive (world.stages other)) (other : Nat)
    : motive ((world.put number stage).stages other) := by
  show motive (Function.update world.stages number stage other)
  rw [Function.update_apply]
  split
  · exact here
  · exact there other

namespace Inv

variable (inv : Inv setting base start was world)

include inv

theorem mono {later : Prop} (implies : was → later) : Inv setting base start later world :=
  { inv with
    sent := fun sent => implies (inv.sent sent)
    editing := fun number cap same => implies (inv.editing number cap same) }

/-- A step of one process, which only it and the capability files notice. -/
theorem put {number : Nat} (stage : Stage)
    (final : world.stages number = .ended → stage = .ended)
    (leased : stage.holdsLease = true
      → (world.stages number).holdsLease = true ∨ world.exclusive = false)
    (transaction : ∀ cap, stage.capability = some cap
      → cap.transaction = setting.identity.transaction)
    (editing : ∀ cap, stage = .editing cap → was)
    {capability takenFile : Option Capability} {consumers : List Nat}
    (consumed : consumers.length ≤ 1 ∧ (consumers ≠ [] → capability = none))
    : Inv setting base start was
        { world.put number stage with capability, takenFile, consumers } := by
  have ends : world.ChildEnded setting → ChildEnded setting (world.put number stage) := by
    intro ended other child
    show Function.update world.stages number stage other = .ended
    rw [Function.update_apply]
    split
    · rename_i same
      exact final (same ▸ ended other child)
    · exact ended other child
  refine ⟨?_, inv.kept, inv.intact, inv.accepted, ?_, ?_, inv.process, ?_, inv.sent, ?_, ?_,
    consumed⟩
  · have knows := inv.helper
    unfold Knows at knows ⊢
    dsimp only [HealthWorld.put]
    cases helper : world.helper with
    | stopping healthy phase next =>
        rw [helper] at knows
        exact ⟨knows.1, knows.2.1, fun acquiring => ends (knows.2.2 acquiring)⟩
    | _ =>
        rw [helper] at knows
        exact knows
  · exact fun stopped => ⟨ends (inv.stopped stopped).1, (inv.stopped stopped).2⟩
  · exact fun owns none => ends (inv.handle owns none)
  · intro held
    have held : world.exclusive = true := held
    refine put_stages (fun stage => stage.holdsLease = false) ?_ (inv.exclusive held)
    cases holds : stage.holdsLease with
    | false => rfl
    | true =>
        rcases leased holds with before | free
        · rw [inv.exclusive held number] at before
          cases before
        · rw [free] at held
          cases held
  · exact put_stages (fun stage => ∀ cap, stage.capability = some cap
      → cap.transaction = setting.identity.transaction) transaction inv.transaction
  · exact put_stages (fun stage => ∀ cap, stage = .editing cap → was) editing inv.editing

end Inv

-- The steps of a process

theorem answered_cases (cap : Capability) (answer : Except UpdateError Frame)
    : Stage.answered cap answer = .loading cap
      ∨ Stage.answered cap answer = .ended
      ∨ Stage.answered cap answer = .editing cap
        ∧ ∃ frame, answer = .ok frame ∧ frame.body = .commit cap.transaction := by
  unfold Stage.answered
  split
  · split
    · rename_i same
      subst same
      exact .inr (.inr ⟨rfl, _, rfl, rfl⟩)
    · exact .inr (.inl rfl)
  · exact .inl rfl

/-- What a move of a process may do. -/
structure Moved (setting : HealthSetting) (world : HealthWorld) (before after : Stage) : Prop where
  final : before = .ended → after = .ended
  leased : after.holdsLease = true → before.holdsLease = true ∨ world.exclusive = false
  transaction : ∀ cap, after.capability = some cap
    → before.capability = some cap ∨ cap.transaction = setting.identity.transaction
  editing : ∀ cap, after = .editing cap
    → before.capability = some cap
      ∧ (world.sent = true
        ∨ ∃ journal, world.update.stored = some journal ∧ journal.phase = .committed
          ∧ journal.transactionId = cap.transaction)

theorem moved_of_moves {number : Nat} {before after : Stage}
    (moves : Moves setting world number before after) : Moved setting world before after := by
  cases moves with
  | admitted _ transaction =>
      refine ⟨nofun, nofun, ?_, nofun⟩
      rintro cap ⟨⟩
      exact .inr transaction
  | leased cap free => exact ⟨nofun, fun _ => .inr free, fun _ same => .inl same, nofun⟩
  | gated free => exact ⟨nofun, fun _ => .inr free, nofun, nofun⟩
  | died => exact ⟨fun _ => rfl, nofun, nofun, nofun⟩
  | @answered cap received delivers =>
      rcases answered_cases cap (nextFrame received cap.nonce) with
        loading | ended | ⟨editing, frame, arrived, body⟩
      · rw [loading]
        exact ⟨nofun, fun _ => .inl rfl, fun _ same => .inl same, nofun⟩
      · rw [ended]
        exact ⟨nofun, nofun, nofun, nofun⟩
      · rw [editing]
        refine ⟨nofun, fun _ => .inl rfl, fun _ same => .inl same, ?_⟩
        rintro other ⟨⟩
        obtain ⟨rfl, session⟩ := nextFrame_ok arrived
        exact ⟨rfl, .inl (delivers (by rw [session, body]))⟩
  | @loaded cap outcome read =>
      split
      · rename_i committed
        obtain ⟨journal, rfl, phase, same⟩ := Capability.committedDurably_eq_true committed
        refine ⟨nofun, fun _ => .inl rfl, fun _ same => .inl same, ?_⟩
        rintro other ⟨⟩
        exact ⟨rfl, .inr ⟨journal, (read _ rfl).symm, phase, same⟩⟩
      · exact ⟨nofun, nofun, nofun, nofun⟩
  | verified | reported | notReported =>
      exact ⟨nofun, fun _ => .inl rfl, fun _ same => .inl same, nofun⟩
  | guarded => exact ⟨nofun, nofun, fun _ same => .inl same, nofun⟩
  | _ => exact ⟨nofun, nofun, nofun, nofun⟩

namespace Inv

variable (inv : Inv setting base start was world)

include inv

variable {number : Nat}

theorem moves {stage : Stage} (now : world.Commits setting → was)
    (moves : Moves setting world number (world.stages number) stage)
    : Inv setting base start was (world.put number stage) := by
  have moved := moved_of_moves moves
  have transaction := inv.transaction number
  refine inv.put stage moved.final moved.leased ?_ ?_ inv.consumed
  · exact fun cap same => (moved.transaction cap same).elim (transaction cap) id
  · intro cap same
    obtain ⟨before, sent | ⟨journal, stored, phase, same⟩⟩ := moved.editing cap same
    · exact inv.sent sent
    · exact now ⟨journal, stored, phase, same.trans (transaction cap before)⟩

end Inv

-- The steps of the helper

theorem commits_of_stores (issued : base.transactionId = setting.identity.transaction)
    (kept : Kept base start world.update) (stores : StoresCommit world.update)
    : world.Commits setting := by
  obtain ⟨journal, stored, phase⟩ := stores
  obtain ⟨other, found, holds, _⟩ := kept.sound.stored
  obtain rfl := Option.some.inj (stored.symm.trans found)
  exact ⟨journal, stored, phase, holds.plan.transaction.trans issued⟩

theorem tame {healthy : Bool} {remaining : Concluding}
    (drives : Drives base start healthy remaining world.update)
    (verdict : healthy = true → world.Accepted setting)
    : Kept base start world.update ∧ Intact start.disk world.update
      ∧ (StoresCommit world.update → world.Accepted setting) := by
  obtain ⟨kept, intact, uncommitted⟩ := drives.start
  refine ⟨kept, intact, fun stores => ?_⟩
  cases healthy with
  | true => exact verdict rfl
  | false => exact absurd stores (uncommitted rfl)

namespace Inv

variable (inv : Inv setting base start was world)

include inv

theorem crash
    : Inv setting base start was { world with helper := .ended, exclusive := false } :=
  { inv with
    helper := trivial
    stopped := fun stopped => ⟨(inv.stopped stopped).1, fun alive => absurd rfl alive⟩
    handle := fun owns => owns.elim
    exclusive := nofun }

variable {healthy : Bool} {remaining : Concluding} {next : Resumption} {phase later : StopPhase}
variable {process : Option Nat}

theorem concluding (helper : world.helper = .concluding healthy remaining)
    : world.Owns ∧ Drives base start healthy remaining world.update
      ∧ (healthy = true → world.Accepted setting) := by
  have knows := inv.helper
  rw [Knows, helper] at knows
  exact ⟨by rw [Owns, helper]; trivial, knows⟩

theorem stopping (helper : world.helper = .stopping healthy phase next)
    : world.Owns ∧ Drives base start healthy (.call .stopAndReleaseLease next) world.update
      ∧ (healthy = true → world.Accepted setting)
      ∧ (phase = .acquiring → world.ChildEnded setting) := by
  have knows := inv.helper
  rw [Knows, helper] at knows
  exact ⟨by rw [Owns, helper]; trivial, knows⟩

theorem stops (owns : world.Owns) (stops : world.Stops phase later process)
    : (process = world.process ∨ process = none ∧ world.ChildEnded setting)
      ∧ (later = .acquiring → world.ChildEnded setting) := by
  cases stops with
  | gone none =>
      have ended := inv.handle owns none
      exact ⟨.inr ⟨rfl, ended⟩, fun _ => ended⟩
  | @exited phase number _ own stage =>
      have ended : world.ChildEnded setting := by
        intro other child
        obtain rfl := Option.some.inj ((inv.process number own).symm.trans child)
        exact stage
      exact ⟨.inr ⟨rfl, ended⟩, fun _ => ended⟩
  | grace | killed => exact ⟨.inl rfl, nofun⟩

theorem alive (alive : world.helper ≠ .ended) (stopped : Stopped world.update)
    : world.ChildEnded setting ∧ world.exclusive = true :=
  ⟨(inv.stopped stopped).1, (inv.stopped stopped).2 alive⟩

theorem heard {received : Option Received} (planned : WellPlanned base.steps base.unchanged)
    (awaiting : world.helper = .awaiting)
    (verdict : healthy = true → (world.heard healthy received).Accepted setting)
    : Inv setting base start was (world.heard healthy received) := by
  have uncommitted : Uncommitted world.update := by
    have knows := inv.helper
    rwa [Knows, awaiting] at knows
  exact { inv with
    helper := ⟨drives_concludeHealth healthy planned inv.kept inv.intact uncommitted, verdict⟩
    accepted := fun stores => absurd stores uncommitted
    stopped := fun stopped =>
      ⟨(inv.stopped stopped).1, fun _ => (inv.alive (by rw [awaiting]; nofun) stopped).2⟩
    handle := fun _ => inv.handle (by rw [Owns, awaiting]; trivial) }

/-- The engine goes on after an answer or a failed stop. -/
theorem onward {update : UpdateState} (owns : world.Owns)
    (verdict : healthy = true → world.Accepted setting)
    (drives : Drives base start healthy remaining update)
    (stopped : Stopped update → Stopped world.update)
    : Inv setting base start was
        { world with update, helper := .concluding healthy remaining } := by
  have alive : world.helper ≠ .ended := fun ended => by rwa [Owns, ended] at owns
  obtain ⟨kept, intact, accepted⟩ := @tame setting base start { world with update } _ _ drives
    verdict
  exact { inv with
    helper := ⟨drives, verdict⟩
    kept, intact, accepted
    stopped := fun now =>
      ⟨(inv.alive alive (stopped now)).1, fun _ => (inv.alive alive (stopped now)).2⟩
    handle := fun _ => inv.handle owns }

theorem stopAt (owns : world.Owns) (verdict : healthy = true → world.Accepted setting)
    (drives : Drives base start healthy (.call .stopAndReleaseLease next) world.update)
    (owned : process = world.process ∨ process = none ∧ world.ChildEnded setting)
    (ended : phase = .acquiring → world.ChildEnded setting)
    : Inv setting base start was { world.stopAt healthy phase next with process } := by
  have alive : world.helper ≠ .ended := fun ended => by rwa [Owns, ended] at owns
  refine { inv with
    helper := ⟨drives, verdict, ended⟩
    stopped := fun stopped => ⟨(inv.stopped stopped).1, fun _ => (inv.alive alive stopped).2⟩
    handle := fun _ gone => ?_
    process := fun number own => ?_ }
  · rcases owned with rfl | ⟨_, ended⟩
    · exact inv.handle owns gone
    · exact ended
  · rcases owned with rfl | ⟨rfl, _⟩
    · exact inv.process number own
    · cases own

theorem acquired (ended : world.ChildEnded setting)
    (verdict : healthy = true → world.Accepted setting)
    (drives : Drives base start healthy (.call .stopAndReleaseLease next) world.update)
    (free : world.exclusive = true ∨ ∀ number, (world.stages number).holdsLease = false)
    : Inv setting base start was { world.resume healthy next (.ok ()) with exclusive := true } := by
  have onward := drives.2.2 (.ok ()) _ (.stopped world.update)
  obtain ⟨kept, intact, accepted⟩ :=
    @tame setting base start (world.resume healthy next (.ok ())) _ _ onward verdict
  exact { inv with
    helper := ⟨onward, verdict⟩
    kept, intact, accepted
    stopped := fun _ => ⟨ended, fun _ => rfl⟩
    handle := fun _ _ => ended
    exclusive := fun _ => free.elim inv.exclusive id }

theorem step {next : HealthWorld} (planned : WellPlanned base.steps base.unchanged)
    (issued : base.transactionId = setting.identity.transaction)
    (now : world.Commits setting → was)
    (step : Step setting world next) : Inv setting base start was next := by
  cases step with
  | move moves => exact inv.moves now moves
  | @discard number cap stage _ =>
      exact inv.put .ordinary (by rw [stage]; nofun) nofun nofun nofun
        ⟨inv.consumed.1, fun _ => rfl⟩
  | @take number expected found stage _ file =>
      refine inv.put (.taken expected) (by rw [stage]; nofun) nofun ?_ nofun
        ⟨?_, fun _ => rfl⟩
      · rintro cap ⟨⟩
        exact inv.transaction number expected (by rw [stage]; rfl)
      · cases consumers : world.consumers with
        | nil => exact Nat.le_refl 1
        | cons first rest =>
            have gone := inv.consumed.2 (by rw [consumers]; exact List.cons_ne_nil _ _)
            rw [file] at gone
            cases gone
  | @compare number expected readable stage =>
      have transaction := inv.transaction number expected (by rw [stage]; rfl)
      split
      · refine inv.put (.checked expected) (by rw [stage]; nofun) nofun ?_ nofun inv.consumed
        rintro cap ⟨⟩
        exact transaction
      · exact inv.put .ended (by rw [stage]; nofun) nofun nofun nofun inv.consumed
  | hear received awaiting _ =>
      refine inv.heard planned awaiting fun healthy => ?_
      cases verdict : setting.identity.awaitHealthy setting.nonce received with
      | error err =>
          rw [verdict] at healthy
          cases healthy
      | ok accepted => exact congrArg some (ChildIdentity.awaitHealthy_ok verdict)
  | notLaunched awaiting _ => exact inv.heard planned awaiting nofun
  | call helper other answers =>
      obtain ⟨owns, drives, verdict⟩ := inv.concluding helper
      exact inv.onward owns verdict (drives.2.2 _ _ answers) (answers.stopped_before other)
  | stop helper =>
      obtain ⟨owns, drives, verdict⟩ := inv.concluding helper
      exact inv.stopAt owns verdict drives (.inl rfl) nofun
  | proceed helper stops =>
      obtain ⟨owns, drives, verdict, _⟩ := inv.stopping helper
      obtain ⟨owned, gone⟩ := inv.stops owns stops
      exact inv.stopAt owns verdict drives owned gone
  | acquired helper free =>
      obtain ⟨_, drives, verdict, ended⟩ := inv.stopping helper
      exact inv.acquired (ended rfl) verdict drives free
  | notStopped err helper =>
      obtain ⟨owns, drives, verdict, _⟩ := inv.stopping helper
      refine inv.onward owns verdict
        (drives.2.2 (.error err) _ (.notStopped world.update err)) ?_
      rintro ⟨event, member, rfl⟩
      rcases List.mem_cons.mp member with impossible | earlier
      · cases impossible
      · exact ⟨_, earlier, rfl⟩
  | concluded helper =>
      obtain ⟨_, drives, _⟩ := inv.concluding helper
      have stopped := inv.alive (by rw [helper]; nofun)
      split
      all_goals
        refine { inv with
          helper := ?_
          stopped := fun now => ⟨(stopped now).1, fun _ => (stopped now).2⟩
          handle := fun owns => owns.elim }
      · exact drives.2 rfl
      · trivial
  | notified written helper =>
      have knows := inv.helper
      rw [Knows, helper] at knows
      have alive : world.helper ≠ .ended := by rw [helper]; nofun
      exact { inv with
        helper := trivial
        stopped := fun stopped =>
          ⟨(inv.stopped stopped).1, fun _ => (inv.alive alive stopped).2⟩
        handle := fun owns => owns.elim
        process := nofun
        sent := fun _ => now (commits_of_stores issued inv.kept knows) }
  | crashed => exact inv.crash
  | @torn healthy request next update helper tears =>
      obtain ⟨_, drives, verdict⟩ := inv.concluding helper
      obtain ⟨kept, intact, uncommitted⟩ := drives.2.1 _ tears
      refine { inv.crash with
        kept, intact
        accepted := fun stores => ?_
        stopped := fun stopped =>
          ⟨(inv.stopped (tears.stopped_before stopped)).1, fun alive => absurd rfl alive⟩ }
      cases healthy with
      | true => exact verdict rfl
      | false => exact absurd stores (uncommitted rfl)

end Inv

-- Every interleaving

/-- The helper has started its child, or failed to, and is about to conclude. -/
structure Launched (setting : HealthSetting) (start : HealthWorld) : Prop where
  helper : start.helper = .awaiting
  awaiting : ∃ journal, start.update.stored = some journal ∧ journal.phase = .awaitingHealth
  running : ¬Stopped start.update
  process : start.process = setting.child
  exclusive : start.exclusive = false
  sent : start.sent = false
  consumers : start.consumers = []
  stages : ∀ number, start.stages number = .starting ∨ start.stages number = .ordinary

theorem Launched.inv {start : HealthWorld} (launched : Launched setting start)
    (sound : Sound base start.update) : Inv setting base start.update was start := by
  obtain ⟨journal, stored, awaiting⟩ := launched.awaiting
  have uncommitted : Uncommitted start.update := by
    rintro ⟨other, found, committed⟩
    obtain rfl := Option.some.inj (stored.symm.trans found)
    rw [awaiting] at committed
    cases committed
  refine ⟨?_, sound.kept, .inl rfl, fun stores => absurd stores uncommitted,
    fun stopped => absurd stopped launched.running, ?_, ?_, ?_, ?_, ?_, ?_, ?_⟩
  · rw [Knows, launched.helper]
    exact uncommitted
  · intro _ none number child
    rw [launched.process, child] at none
    cases none
  · exact fun number own => launched.process.symm.trans own
  · exact fun held => absurd held (by rw [launched.exclusive]; exact Bool.false_ne_true)
  · exact fun sent => absurd sent (by rw [launched.sent]; exact Bool.false_ne_true)
  rotate_right
  · rw [launched.consumers]
    exact ⟨Nat.zero_le 1, fun some => absurd rfl some⟩
  all_goals
    intro number
    rcases launched.stages number with stage | stage <;> rw [stage] <;> nofun

/-- By induction over the run. -/
theorem Launched.run {start : HealthWorld} (launched : Launched setting start)
    (planned : WellPlanned base.steps base.unchanged) (sound : Sound base start.update)
    (issued : base.transactionId = setting.identity.transaction) (run : Run setting start world)
    : Inv setting base start.update (world.WasCommitted setting start) world := by
  induction run with
  | refl => exact launched.inv sound
  | @tail world next run step ih =>
      have later : world.WasCommitted setting start → next.WasCommitted setting start :=
        fun ⟨earlier, before, after, commits⟩ => ⟨earlier, before, after.tail step, commits⟩
      exact (ih.mono later).step planned issued
        (fun commits => ⟨world, run, .single step, commits⟩) step

theorem Inv.alone {next : HealthWorld} {later : Prop} (inv : Inv setting base start was world)
    (inv' : Inv setting base start later next) (step : Step setting world next)
    (moved : next.update.disk ≠ world.update.disk)
    : world.ChildEnded setting ∧ world.exclusive = true
      ∧ ∀ number, (world.stages number).holdsLease = false := by
  suffices stopped : world.helper ≠ .ended ∧ Stopped world.update by
    obtain ⟨ended, held⟩ := inv.alive stopped.1 stopped.2
    exact ⟨ended, held, inv.exclusive held⟩
  have earlier := fun before => inv.intact.stopped_of_moved inv'.intact before moved
  cases step with
  | call helper other answers =>
      exact ⟨by rw [helper]; nofun, earlier (answers.stopped_before other)⟩
  | torn helper tears => exact ⟨by rw [helper]; nofun, earlier tears.stopped_before⟩
  | _ => exact absurd rfl moved

/-- However the helper, the child and other launches take turns, with anything on the pipes and a
crash anywhere: a child goes on as the editor only after its transaction was durably committed; a
file is changed only once the child has ended and the helper holds the runtime lease alone; the
capability is taken at most once; and a commit is stored only after the report of the expected
child, in its nonce and in every field.
-/
theorem health_agrees {Json : Type} {crates : Crates Json}
    {serialize : ApplyPlan → Except String (List UInt8)} {plan : ApplyPlan} {ticket : Option String}
    {journal : UpdateJournal}
    (begun : UpdateJournal.begin crates serialize plan ticket = .ok journal)
    {disk : String → Observed} (old : AllOld disk journal.steps)
    (unchanged : AllUnchanged disk journal.unchanged) {start : HealthWorld}
    (reached : Relation.ReflTransGen UpdateStep ⟨disk, some journal, journal, []⟩ start.update)
    (issued : journal.transactionId = setting.identity.transaction)
    (launched : Launched setting start) (run : Run setting start world)
    : (∀ number cap, world.stages number = .editing cap
        → cap.transaction = setting.identity.transaction
          ∧ world.WasCommitted setting start)
      ∧ (∀ next, Step setting world next → next.update.disk ≠ world.update.disk
        → world.ChildEnded setting ∧ world.exclusive = true
          ∧ ∀ number, (world.stages number).holdsLease = false)
      ∧ world.consumers.length ≤ 1
      ∧ (StoresCommit world.update → world.Accepted setting) := by
  obtain ⟨planned, sound⟩ := sound_of_begun begun old unchanged reached
  have inv := launched.run planned sound issued run
  refine ⟨fun number cap editing => ?_, fun next step moved => ?_, inv.consumed.1,
    inv.accepted⟩
  · exact ⟨inv.transaction number cap (by rw [editing]; rfl),
      inv.editing number cap editing⟩
  · exact inv.alone (launched.run planned sound issued (run.tail step)) step moved

-- Handshakes from start to end

/-- The report of the expected child is accepted. -/
theorem Step.report (awaiting : world.helper = .awaiting) (launched : setting.launchError = none)
    : Step setting world
        (world.heard true (some (.item (.frame (.new setting.nonce setting.identity.report))))) := by
  have accepted : setting.identity.awaitHealthy setting.nonce
      (.item (.frame (.new setting.nonce setting.identity.report))) = .ok () := by
    simp [ChildIdentity.awaitHealthy, ChildIdentity.report, nextFrame, Frame.check, Frame.new,
      Nonce.matches, bind, Except.bind, pure, Except.pure]
  have heard := Step.hear (.item (.frame (.new setting.nonce setting.identity.report))) awaiting
    launched
  rw [accepted] at heard
  exact heard

theorem Run.stop {start world : HealthWorld} {healthy : Bool} {next : Resumption}
    (run : Run setting start world)
    (helper : world.helper = .concluding healthy (.call .stopAndReleaseLease next))
    (gone : ∀ number, world.process = some number → world.stages number = .ended)
    (free : ∀ number, (world.stages number).holdsLease = false)
    : Run setting start
        { world.resume healthy next (.ok ()) with exclusive := true, process := none } := by
  have polling : Run setting start (world.stopAt healthy .polling next) := run.tail (.stop helper)
  have stops : (world.stopAt healthy .polling next).Stops .polling .acquiring none := by
    cases process : world.process with
    | none => exact .gone process
    | some number => exact .exited (.inl rfl) process (gone number process)
  exact (polling.tail (.proceed rfl stops)).tail (.acquired rfl (.inr free))

/-- An engine whose calls all succeed may run to its end between two steps of the others, if the
child has ended where it is to be stopped; by induction over its program.
-/
theorem Run.conclude {start world : HealthWorld} {healthy : Bool} {program : Concluding}
    {result : Except UpdateError HealthOutcome} {final : UpdateState}
    (run : Run setting start world) (helper : world.helper = .concluding healthy program)
    (ran : program.run succeeding world.update = (result, final))
    (quiet : Stopped final → (∀ number, world.process = some number → world.stages number = .ended)
      ∧ ∀ number, (world.stages number).holdsLease = false)
    : ∃ process exclusive, Run setting start
        { world with
          update := final
          helper := .concluding healthy (.done result)
          process
          exclusive } := by
  induction program generalizing world with
  | done value =>
      obtain ⟨update, stage, process, exclusive⟩ := world
      obtain rfl : stage = .concluding healthy (.done value) := helper
      cases ran
      exact ⟨process, exclusive, run⟩
  | call request next ih =>
      by_cases stop : request = .stopAndReleaseLease
      · subst stop
        have noted : Stopped (world.update.note (.stopped true)) := stopped_note
        have runs := Program.runs_run succeeding_allowed (next (.ok ()))
          (world.update.note (.stopped true))
        have reached := (Program.Ensures.sound
          (does_afterStop (ExceptT.mk (next (.ok ()))) noted) runs).2 _ rfl
        rw [show (next (.ok ())).run succeeding (world.update.note (.stopped true))
          = (result, final) from ran] at reached
        have stopped : Stopped final := by
          cases result <;> exact reached
        obtain ⟨gone, free⟩ := quiet stopped
        have concluded := ih (.ok ()) (run.stop helper gone free) rfl ran fun _ => ⟨nofun, free⟩
        exact concluded
      · have called := run.tail (.call helper stop (succeeding_allowed world.update request))
        have concluded := ih _ called rfl ran quiet
        exact concluded

theorem Run.moving {start final : HealthWorld} (run : Run setting start final)
    (moved : final.update.disk ≠ start.update.disk)
    : ∃ world next, Run setting start world ∧ Step setting world next
        ∧ next.update.disk ≠ world.update.disk := by
  induction run with
  | refl => exact absurd rfl moved
  | @tail world next run step ih =>
      by_cases here : next.update.disk = world.update.disk
      · exact ih (here ▸ moved)
      · exact ⟨world, next, run, step, here⟩

def sampleCapability : Capability :=
  ⟨⟨"0f"⟩, 5, samplePlan.installId, samplePlan.transactionId, "c0", "0.30.0", "/state", .parent⟩

def sampleSetting : HealthSetting :=
  ⟨⟨samplePlan.installId, samplePlan.transactionId, "c0", "0.30.0", 77⟩, ⟨"0f"⟩, some 0, none,
    fun _ => ⟨some 5, 77, none⟩, fun _ => "0.30.0"⟩

def appliedState : UpdateState := (Program.run succeeding apply.run begunState).2

def sampleLaunch : HealthWorld :=
  ⟨appliedState, .awaiting, some 0, false, false, none, some sampleCapability, none, [],
    fun _ => .starting⟩

theorem not_stopped {update : UpdateState}
    (none : (update.events.any fun
      | .stopped _ => true
      | _ => false) = false)
    : ¬Stopped update := by
  rintro ⟨event, member, rfl⟩
  exact absurd (List.any_eq_false.mp none _ member) (by decide)

theorem sampleLaunch_launched : Launched sampleSetting sampleLaunch where
  helper := rfl
  awaiting := by
    refine ⟨_, Option.some_get (by decide +kernel : appliedState.stored.isSome = true) |>.symm, ?_⟩
    decide +kernel
  running := not_stopped (by decide +kernel)
  process := rfl
  exclusive := rfl
  sent := rfl
  consumers := rfl
  stages := fun _ => .inl rfl

def sampleCommit : Received :=
  .item (.frame (.new sampleCapability.nonce (.commit sampleCapability.transaction)))

/-- The child takes the capability, gets its lease and reports; the helper commits, and the child
goes on as the editor.
-/
theorem sampleLaunch_edits
    : ∃ world, Run sampleSetting sampleLaunch world
      ∧ world.stages 0 = .editing sampleCapability
      ∧ StoresCommit world.update := by
  have admitted := (Relation.ReflTransGen.single
    (@Step.move sampleSetting sampleLaunch 0 .found (.found rfl))).tail
      (@Step.move _ _ 0 (.admitted sampleCapability) (.admitted rfl rfl rfl rfl))
  have taken := (admitted.tail
    (@Step.move _ _ 0 (.guarded sampleCapability) (.guarded sampleCapability))).tail
      (@Step.take _ _ 0 sampleCapability sampleCapability rfl rfl rfl)
  have session := (taken.tail (@Step.compare _ _ 0 sampleCapability true rfl)).tail
    (@Step.move _ _ 0 (.session sampleCapability) (.leased sampleCapability rfl))
  have waiting := (session.tail
    (@Step.move _ _ 0 (.verified sampleCapability) (.verified sampleCapability))).tail
      (@Step.move _ _ 0 (.waiting sampleCapability) (.reported sampleCapability))
  let final := ((concludeHealth true).run.run succeeding appliedState).2
  have ran : (concludeHealth true).run.run succeeding appliedState = (.ok .committed, final) :=
    Prod.ext (by decide +kernel) rfl
  have running : ¬Stopped final := not_stopped (by decide +kernel)
  have committed : (final.stored.map (·.phase)) = some .committed := by
    decide +kernel
  have reported := waiting.tail (.report rfl rfl)
  obtain ⟨process, exclusive, concluded⟩ :=
    Run.conclude reported rfl ran fun stopped => absurd stopped running
  have notified := (concluded.tail (.concluded rfl)).tail (.notified true rfl)
  have edits := notified.tail (@Step.move _ _ 0 (.editing sampleCapability)
    (@Moves.answered _ _ 0 sampleCapability sampleCommit fun _ => rfl))
  exact ⟨_, edits, rfl, Option.map_eq_some_iff.mp committed⟩

/-- The child dies before it reports, and the helper rolls the update back. -/
theorem sampleLaunch_rolledBack
    : ∃ world, Run sampleSetting sampleLaunch world
      ∧ world.update.disk ≠ sampleLaunch.update.disk := by
  have died := (Relation.ReflTransGen.single
    (@Step.move sampleSetting sampleLaunch 0 .ended (.died _))).tail (.hear .timeout rfl rfl)
  let final := ((concludeHealth false).run.run succeeding appliedState).2
  have moved : final.disk "hane.exe" ≠ appliedState.disk "hane.exe" := by
    decide +kernel
  have gone : ∀ number, some 0 = some number
      → (sampleLaunch.put 0 .ended).stages number = .ended := by
    rintro number same
    obtain rfl := Option.some.inj same
    rfl
  have free : ∀ number, ((sampleLaunch.put 0 .ended).stages number).holdsLease = false :=
    put_stages (fun stage => stage.holdsLease = false) rfl fun _ => rfl
  obtain ⟨process, exclusive, concluded⟩ := Run.conclude died rfl rfl fun _ => ⟨gone, free⟩
  exact ⟨_, concluded, fun same => moved (congrFun same _)⟩

/-- In one run the commit was durable when the child went on; in another a file is changed. -/
theorem health_agrees_committed
    : (∃ world, Run sampleSetting sampleLaunch world
        ∧ world.stages 0 = .editing sampleCapability
        ∧ world.WasCommitted sampleSetting sampleLaunch
        ∧ world.consumers.length ≤ 1
        ∧ world.Accepted sampleSetting)
      ∧ ∃ world next, Run sampleSetting sampleLaunch world
        ∧ Step sampleSetting world next
        ∧ next.update.disk ≠ world.update.disk
        ∧ world.ChildEnded sampleSetting
        ∧ world.exclusive = true
        ∧ ∀ number, (world.stages number).holdsLease = false := by
  have reached : Relation.ReflTransGen UpdateStep begunState sampleLaunch.update :=
    .single (.apply (Program.runs_run succeeding_allowed apply.run begunState))
  constructor
  · obtain ⟨world, run, editing, stored⟩ := sampleLaunch_edits
    obtain ⟨edits, -, once, accepted⟩ := health_agrees begunJournal_begun begunState_old
      (List.forall_mem_nil _) reached rfl sampleLaunch_launched run
    exact ⟨world, run, editing, (edits 0 _ editing).2, once, accepted stored⟩
  · obtain ⟨final, run, moved⟩ := sampleLaunch_rolledBack
    obtain ⟨world, next, run, step, changes⟩ := run.moving moved
    obtain ⟨-, alone, -, -⟩ := health_agrees begunJournal_begun begunState_old
      (List.forall_mem_nil _) reached rfl sampleLaunch_launched run
    exact ⟨world, next, run, step, changes, alone next step changes⟩

end HealthWorld

end Hane.Update
