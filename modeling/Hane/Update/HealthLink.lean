import Hane.Update.Journal
import Hane.Update.Startup

/-! The private link between the helper and its limited child: the frames, what the helper requires
of a report, the capability, and what a child does with an answer.
-/

namespace Hane.Update

-- Frames

def protocolVersion : Nat := 1

/-- The 256-bit session secret, as its hexadecimal text. -/
structure Nonce where
  text : String
deriving DecidableEq, Repr

/-- The code compares in constant time. -/
def Nonce.matches (nonce : Nonce) (other : String) : Bool := nonce.text == other

inductive Mode where
  | prepare | recover
deriving DecidableEq, Repr

inductive Body where
  | hello (mode : Mode) (installId transactionId : String) (candidateId : Option String)
      (parentPid : Nat)
  | exitAuthorized (transactionId : String)
  | abort
  | healthy (installId transactionId candidateId version : String) (childPid : Nat)
  | commit (transactionId : String)
  | prepared (installId transactionId : String) (helperPid : Nat)
  | recovered (transactionId : String) (report : RecoveryReport)
  | refused (reason : String)
deriving DecidableEq, Repr

structure Frame where
  protocol : Nat
  nonce : String
  body : Body
deriving DecidableEq, Repr

namespace Frame

def new (nonce : Nonce) (body : Body) : Frame := ⟨protocolVersion, nonce.text, body⟩

def check (frame : Frame) (nonce : Nonce) : Except UpdateError Unit := do
  if frame.protocol ≠ protocolVersion then
    throw ⟨.protocolUnsupported, "unsupported updater protocol"⟩
  if nonce.matches frame.nonce = false then
    throw ⟨.identityMismatch, "frame nonce does not belong to this session"⟩

theorem check_ok {frame : Frame} {nonce : Nonce} (passed : frame.check nonce = .ok ())
    : frame = new nonce frame.body := by
  obtain ⟨protocol, text, body⟩ := frame
  unfold check at passed
  dsimp only at passed
  split at passed
  · cases passed
  · rename_i version
    split at passed
    · cases passed
    · rename_i other
      obtain rfl : protocol = protocolVersion := not_not.mp version
      have same : nonce.text = text := by simpa [Nonce.matches] using other
      rw [new, ← same]

end Frame

-- What arrives

inductive Incoming where
  | frame (frame : Frame)
  | closed
  | failed (err : UpdateError)

/-- What a reader waiting with a timeout gets. -/
inductive Received where
  | item (incoming : Incoming)
  | timeout
  | disconnected

def nextFrame (received : Received) (nonce : Nonce) : Except UpdateError Frame :=
  match received with
  | .item (.frame frame) => do
    frame.check nonce
    return frame
  | .item .closed => .error ⟨.truncated, "the private health pipe was closed"⟩
  | .item (.failed err) => .error err
  | .timeout => .error ⟨.timeout, "no answer on the private health pipe in time"⟩
  | .disconnected => .error ⟨.truncated, "the private health pipe ended"⟩

theorem nextFrame_ok {received : Received} {nonce : Nonce} {frame : Frame}
    (arrived : nextFrame received nonce = .ok frame)
    : received = .item (.frame frame) ∧ frame = .new nonce frame.body := by
  unfold nextFrame at arrived
  split at arrived
  · rename_i other
    cases passed : other.check nonce with
    | error err =>
        rw [passed] at arrived
        cases arrived
    | ok checked =>
        rw [passed] at arrived
        cases arrived
        exact ⟨rfl, Frame.check_ok passed⟩
  all_goals cases arrived

-- The helper's side

/-- What the helper requires of the child it spawned. -/
structure ChildIdentity where
  installId : String
  transaction : String
  candidateId : String
  version : String
  pid : Nat
deriving DecidableEq, Repr

namespace ChildIdentity

def report (identity : ChildIdentity) : Body :=
  .healthy identity.installId identity.transaction identity.candidateId identity.version
    identity.pid

def awaitHealthy (expected : ChildIdentity) (nonce : Nonce) (received : Received)
    : Except UpdateError Unit := do
  let frame ← nextFrame received nonce
  match frame.body with
  | .healthy installId transactionId candidateId version childPid =>
    if installId = expected.installId ∧ transactionId = expected.transaction
        ∧ candidateId = expected.candidateId ∧ version = expected.version
        ∧ childPid = expected.pid then
      return ()
    else
      throw ⟨.identityMismatch,
        "Healthy does not come from the expected child, transaction and version"⟩
  | _ => throw ⟨.transitionInvalid, "unexpected message while waiting for Healthy"⟩

theorem awaitHealthy_ok {expected : ChildIdentity} {nonce : Nonce} {received : Received}
    (accepted : expected.awaitHealthy nonce received = .ok ())
    : received = .item (.frame (.new nonce expected.report)) := by
  unfold awaitHealthy at accepted
  cases arrived : nextFrame received nonce with
  | error err =>
      rw [arrived] at accepted
      cases accepted
  | ok frame =>
      obtain ⟨rfl, session⟩ := nextFrame_ok arrived
      obtain ⟨protocol, text, body⟩ := frame
      rw [arrived] at accepted
      cases body with
      | healthy installId transactionId candidateId version childPid =>
          dsimp only [bind, Except.bind] at accepted
          split at accepted
          · rename_i same
            obtain ⟨rfl, rfl, rfl, rfl, rfl⟩ := same
            rw [session]
            rfl
          · cases accepted
      | _ => cases accepted

end ChildIdentity

-- The cap

/-- How the process admitted to health mode is recognised. -/
inductive Launch where
  | parent
  | bound (pid created : Nat)
deriving DecidableEq, Repr

/-- What the OS says about a process. -/
structure OwnProcess where
  parent : Option Nat
  pid : Nat
  created : Option Nat
deriving DecidableEq, Repr

def Launch.matches (launch : Launch) (helperPid : Nat) (process : OwnProcess) : Bool :=
  match launch with
  | parent => process.parent == some helperPid
  | bound pid created => process.pid == pid && process.created == some created

/-- The one-time capability that admits a process to health mode; the file is taken as what it
says.
-/
structure Capability where
  nonce : Nonce
  helperPid : Nat
  installId : String
  transaction : String
  candidateId : String
  version : String
  stateRoot : String
  launch : Launch
deriving DecidableEq, Repr

namespace Capability

/-- Whether the loaded journal lets a child go on that got no answer. -/
def committedDurably (cap : Capability) (installId : String)
    (loaded : Except UpdateError (Option UpdateJournal)) : Bool :=
  match loaded with
  | .ok (some journal) =>
    journal.phase == .committed && journal.transactionId == cap.transaction
      && journal.installId == installId
  | _ => false

theorem committedDurably_eq_true {cap : Capability} {installId : String}
    {loaded : Except UpdateError (Option UpdateJournal)}
    (committed : cap.committedDurably installId loaded = true)
    : ∃ journal, loaded = .ok (some journal) ∧ journal.phase = .committed
      ∧ journal.transactionId = cap.transaction := by
  unfold committedDurably at committed
  split at committed
  · simp only [Bool.and_eq_true, beq_iff_eq] at committed
    exact ⟨_, rfl, committed.1.1, committed.1.2⟩
  · cases committed

end Capability

end Hane.Update
