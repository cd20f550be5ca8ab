import Hane.Update.HealthLink
import Hane.Update.HealthVerdicts

/-! The helper, its limited child and every other launch, taking turns in any order: who may write
files, who takes the capability and who goes on as the editor.
-/

namespace Hane.Update

open Hane.Foundations

-- The parties

/-- How far a process has come that was launched, its capability with it once it has read one. -/
inductive Stage where
  | starting
  | found
  | admitted (cap : Capability)
  | guarded (cap : Capability)
  | taken (cap : Capability)
  | checked (cap : Capability)
  | session (cap : Capability)
  | verified (cap : Capability)
  | waiting (cap : Capability)
  | loading (cap : Capability)
  | editing (cap : Capability)
  | ordinary
  | running
  | ended

namespace Stage

def capability : Stage → Option Capability
  | admitted cap | guarded cap | taken cap | checked cap
  | session cap | verified cap | waiting cap | loading cap
  | editing cap => some cap
  | _ => none

/-- The process holds the shared runtime lease. -/
def holdsLease : Stage → Bool
  | session _ | verified _ | waiting _ | loading _ | editing _ | running => true
  | _ => false

/-- What the answer to its report makes of a child; anything but a commit leaves the journal to
decide.
-/
def answered (cap : Capability) : Except UpdateError Frame → Stage
  | .ok ⟨_, _, .commit transactionId⟩ =>
    if transactionId = cap.transaction then editing cap else ended
  | _ => loading cap

end Stage

/-- How far the stop of the child has come. -/
inductive StopPhase where
  | polling
  | killing
  | waiting
  | acquiring
deriving DecidableEq

/-- What is left of the engine's program. -/
abbrev Concluding := Program UpdateCall.Answer (Except UpdateError HealthOutcome)

/-- How the engine goes on once the child is stopped, or is not. -/
abbrev Resumption := UpdateCall.stopAndReleaseLease.Answer → Concluding

inductive HelperStage where
  | awaiting
  | concluding (healthy : Bool) (remaining : Concluding)
  | stopping (healthy : Bool) (phase : StopPhase) (next : Resumption)
  | notifying
  | returned
  | ended

/-- What does not change: the child the helper started, if it could start one, the nonce of its
pipes, and what the OS says of each process.
-/
structure HealthSetting where
  identity : ChildIdentity
  nonce : Nonce
  child : Option Nat
  launchError : Option UpdateError
  own : Nat → OwnProcess
  version : Nat → String

/-- The private directory of one transaction, its leases, and the parties. -/
structure HealthWorld where
  update : UpdateState
  helper : HelperStage
  /-- The handle the helper owns. -/
  process : Option Nat
  /-- The helper holds the exclusive runtime lease. -/
  exclusive : Bool
  /-- The helper wrote the commit to the child's pipe. -/
  sent : Bool
  received : Option Received
  capability : Option Capability
  takenFile : Option Capability
  /-- The processes that took the capability. -/
  consumers : List Nat
  stages : Nat → Stage

namespace HealthWorld

variable (setting : HealthSetting) (world : HealthWorld)

def put (number : Nat) (stage : Stage) : HealthWorld :=
  { world with stages := Function.update world.stages number stage }

/-- Whatever arrives at a child; only a commit of its transaction under its nonce has to have been
sent.
-/
def Delivers (cap : Capability) (received : Received) : Prop :=
  received = .item (.frame (.new cap.nonce (.commit cap.transaction)))
    → world.sent = true

variable (number : Nat) in
/-- The moves of a process that change nothing else. -/
inductive Moves : Stage → Stage → Prop where
  | passedOver : Moves .starting .ordinary
  | found {cap : Capability} : world.capability = some cap → Moves .starting .found
  | notAdmitted : Moves .found .ordinary
  | admitted {cap : Capability}
      : world.capability = some cap
        → cap.transaction = setting.identity.transaction
        → cap.installId = setting.identity.installId
        → cap.launch.matches cap.helperPid (setting.own number) = true
        → Moves .found (.admitted cap)
  | unclear (cap : Capability) : Moves (.admitted cap) .ordinary
  | guarded (cap : Capability) : Moves (.admitted cap) (.guarded cap)
  | otherVersion {cap : Capability}
      : cap.version ≠ setting.version number
        → Moves (.guarded cap) .ended
  | notTaken (cap : Capability) : Moves (.guarded cap) .ended
  | leased (cap : Capability) : world.exclusive = false → Moves (.checked cap) (.session cap)
  | notLeased (cap : Capability) : Moves (.checked cap) .ended
  | verified (cap : Capability) : Moves (.session cap) (.verified cap)
  | notVerified (cap : Capability) : Moves (.session cap) .ended
  | notReading (cap : Capability) : Moves (.verified cap) .ended
  | reported (cap : Capability) : Moves (.verified cap) (.waiting cap)
  | notReported (cap : Capability) : Moves (.verified cap) (.loading cap)
  | answered {cap : Capability} {received : Received}
      : world.Delivers cap received
        → Moves (.waiting cap)
            (.answered cap (nextFrame received cap.nonce))
  | loaded {cap : Capability} {outcome : Except UpdateError (Option UpdateJournal)}
      : (∀ journal, outcome = .ok journal → journal = world.update.stored)
        → Moves (.loading cap)
            (if cap.committedDurably setting.identity.installId outcome = true then
              .editing cap
            else .ended)
  | gated : world.exclusive = false → Moves .ordinary .running
  | died (stage : Stage) : Moves stage .ended

/-- How the stop goes on, with the handle that is left: without a process there is nothing to wait
for, and one that outlives its grace is killed.
-/
inductive Stops : StopPhase → StopPhase → Option Nat → Prop where
  | gone : world.process = none → Stops .polling .acquiring none
  | exited {phase : StopPhase} {number : Nat}
      : phase = .polling ∨ phase = .waiting
        → world.process = some number
        → world.stages number = .ended
        → Stops phase .acquiring none
  | grace : world.process ≠ none → Stops .polling .killing world.process
  | killed : Stops .killing .waiting world.process

/-- The child is known to be gone, if there ever was one. -/
def ChildEnded : Prop := ∀ number, setting.child = some number → world.stages number = .ended

/-- The helper concludes with its verdict on what it read. -/
def heard (healthy : Bool) (received : Option Received) : HealthWorld :=
  { world with received, helper := .concluding healthy (concludeHealth healthy).run }

/-- The helper goes on with the answer to its request to stop the child. -/
def resume (healthy : Bool) (next : Resumption) (answer : Except UpdateError Unit)
    : HealthWorld :=
  { world with
    update := world.update.note (.stopped answer.isOk)
    helper := .concluding healthy (next answer) }

def stopAt (healthy : Bool) (phase : StopPhase) (next : Resumption) : HealthWorld :=
  { world with helper := .stopping healthy phase next }

/-- One step of a process, of the helper, or a crash. -/
inductive Step : HealthWorld → Prop where
  | move {number : Nat} {stage : Stage}
      : Moves setting world number (world.stages number) stage → Step (world.put number stage)
  /-- A free transaction lease: the capability is stale and removed. -/
  | discard {number : Nat} {cap : Capability}
      : world.stages number = .admitted cap
        → world.helper = .ended
        → Step { world.put number .ordinary with capability := none, takenFile := none }
  | take {number : Nat} {expected found : Capability}
      : world.stages number = .guarded expected
        → expected.version = setting.version number
        → world.capability = some found
        → Step
            { world.put number (.taken expected) with
              capability := none
              takenFile := some found
              consumers := number :: world.consumers }
  /-- What was taken has to be readable, and what was read before. -/
  | compare {number : Nat} {expected : Capability} (readable : Bool)
      : world.stages number = .taken expected
        → Step
            { world.put number
                (if readable ∧ world.takenFile = some expected then .checked expected
                  else .ended) with
              takenFile := none }
  | hear (received : Received)
      : world.helper = .awaiting
        → setting.launchError = none
        → Step (world.heard (setting.identity.awaitHealthy setting.nonce received).isOk
            (some received))
  | notLaunched {err : UpdateError}
      : world.helper = .awaiting
        → setting.launchError = some err
        → Step (world.heard false none)
  | call {healthy : Bool} {request : UpdateCall} {answer : request.Answer}
      {next : request.Answer → Concluding} {update : UpdateState}
      : world.helper = .concluding healthy (.call request next)
        → request ≠ .stopAndReleaseLease
        → UpdateAnswers world.update request answer update
        → Step { world with update, helper := .concluding healthy (next answer) }
  | stop {healthy : Bool} {next : Resumption}
      : world.helper = .concluding healthy (.call .stopAndReleaseLease next)
        → Step (world.stopAt healthy .polling next)
  | proceed {healthy : Bool} {phase later : StopPhase} {process : Option Nat}
      {next : Resumption}
      : world.helper = .stopping healthy phase next
        → world.Stops phase later process
        → Step { world.stopAt healthy later next with process }
  | acquired {healthy : Bool} {next : Resumption}
      : world.helper = .stopping healthy .acquiring next
        → world.exclusive = true ∨ (∀ number, (world.stages number).holdsLease = false)
        → Step { world.resume healthy next (.ok ()) with exclusive := true }
  /-- Anything on the way may fail, the wait for the lease by its timeout. -/
  | notStopped {healthy : Bool} {phase : StopPhase} {next : Resumption} (err : UpdateError)
      : world.helper = .stopping healthy phase next
        → Step (world.resume healthy next (.error err))
  | concluded {healthy : Bool} {outcome : Except UpdateError HealthOutcome}
      : world.helper = .concluding healthy (.done outcome)
        → Step
            { world with
              helper :=
                match outcome with
                | .ok .committed => .notifying
                | _ => .returned }
  /-- Whether or not the commit could be written, the child is let go. -/
  | notified (written : Bool)
      : world.helper = .notifying
        → Step { world with sent := world.sent || written, process := none, helper := .returned }
  /-- The helper is done, or crashes; a process it kills as it lets go of the handle has died in a
  step of its own. -/
  | crashed : Step { world with helper := .ended, exclusive := false }
  | torn {healthy : Bool} {request : UpdateCall} {next : request.Answer → Concluding}
      {update : UpdateState}
      : world.helper = .concluding healthy (.call request next)
        → UpdateTears world.update request update
        → Step { world with update, helper := .ended, exclusive := false }

abbrev Run : HealthWorld → HealthWorld → Prop := Relation.ReflTransGen (Step setting)

/-- The store holds the commit of the transaction. -/
def Commits : Prop :=
  ∃ journal, world.update.stored = some journal ∧ journal.phase = .committed
    ∧ journal.transactionId = setting.identity.transaction

/-- The commit was durable at some moment of the run. -/
def WasCommitted (start : HealthWorld) : Prop :=
  ∃ earlier, Run setting start earlier ∧ Run setting earlier world ∧ earlier.Commits setting

/-- What the helper read was the report of the expected child. -/
def Accepted : Prop :=
  world.received = some (.item (.frame (.new setting.nonce setting.identity.report)))

end HealthWorld

end Hane.Update
