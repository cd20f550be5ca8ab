import Hane.Foundations.Programs
import Hane.Update.Apply

/-! The startup gate, and the receipts that an apply checks and retires before its own journal
exists. Leases, the private directory, the journals and the recovery runner are the outside.
-/

namespace Hane.Update

open Hane.Foundations

-- The outside

inductive LeaseKind where
  | transaction | startup | runtimeShared | runtimeExclusive
deriving DecidableEq, Repr

/-- The coordination directory of one installation. -/
structure Coordination where
  installId : String
deriving DecidableEq, Repr

/-- What `symlink_metadata` finds under a name. -/
inductive FileKind where
  | directory | symlink | other
deriving DecidableEq, Repr

/-- What recovery concluded. -/
inductive RecoveryReport where
  | nothing | keptOld | keptNew | rolledBack
  | recoveryRequired (why : String)
  | blocked (why : String)
deriving DecidableEq, Repr

/-- The restart ticket of a transaction, bound to its state root. -/
structure TicketRestore where
  transaction : String
deriving DecidableEq, Repr

/-- The calls of the gate and of an apply. Entries of the private directory are named by their
names in it.
-/
inductive GateCall where
  | existingCoordination
  | createCoordination
  | tryAcquire (kind : LeaseKind)
  | acquireWithin (kind : LeaseKind) (waitMs : Nat)
  | release (kind : LeaseKind)
  | readPrivate
  | symlinkMetadata (name : String)
  | loadJournal (transaction : String)
  | observe (relPath : String)
  | sweepSettledAnchors
  | removeRetiredReceipt (name : String)
  | discardUnstarted (transaction : String)
  | cleanupScratch
  | recover (transaction : String)
  | ticketFromBinding (transaction : String)
  | hasUnclaimedTicket (restore : TicketRestore)
  | releaseSecrets (transaction : String)
  | removeDirAll (name : String)
  | renameNewDurable (name target : String)
  | syncPrivate
  | storeJournal (transaction : String) (journal : UpdateJournal)
deriving DecidableEq

/-- The answers. The private directory is `none` when it does not exist. -/
def GateCall.Answer : GateCall → Type
  | existingCoordination => Except UpdateError (Option Coordination)
  | createCoordination => Except UpdateError Coordination
  | tryAcquire _ => Except UpdateError Bool
  | acquireWithin _ _ => Except UpdateError Unit
  | readPrivate => Except IoError (Option (List (Except IoError OsText)))
  | symlinkMetadata _ => Except IoError (Option FileKind)
  | loadJournal _ => Except UpdateError (Option UpdateJournal)
  | observe _ => Except UpdateError Observed
  | removeRetiredReceipt _ => Except UpdateError Bool
  | recover _ => Except UpdateError RecoveryReport
  | ticketFromBinding _ => Except UpdateError TicketRestore
  | hasUnclaimedTicket _ | releaseSecrets _ => Bool
  | removeDirAll _ | renameNewDurable _ _ | syncPrivate => Except IoError Unit
  | storeJournal _ _ => Except UpdateError Unit
  | release _ | sweepSettledAnchors | discardUnstarted _ | cleanupScratch => Unit

/-- A program of the gate that may leave early. -/
abbrev Gating (ε α : Type) : Type := ExceptT ε (Program GateCall.Answer) α

/-- A call whose answer is the result, a failure included. -/
def looked {ε : Type} (call : GateCall) : Gating ε call.Answer :=
  .mk (Except.ok <$> Program.request call)

/-- Runs a program and looks at how it ends. -/
def outcomeOf {ε ε' α : Type} (program : Gating ε α) : Gating ε' (Except ε α) :=
  .mk (Except.ok <$> program.run)

def gateObserve (relPath : String) : Gating UpdateError Observed :=
  .mk (Program.request (GateCall.observe relPath))

def loadJournal (transaction : String) : Gating UpdateError (Option UpdateJournal) :=
  .mk (Program.request (GateCall.loadJournal transaction))

/-- A missing entry is an error of `symlink_metadata`. -/
def symlinkMetadata (name : String) : Gating IoError FileKind :=
  .mk do
    let found : Except IoError (Option FileKind) ← Program.request (GateCall.symlinkMetadata name)
    return found.bind fun kind =>
      match kind with
      | some kind => .ok kind
      | none => .error ⟨.other "NotFound", "entity not found", none⟩

def isTransactionId (text : String) : Bool := isLowerHex text 32

def transactionName (name : OsText) : Option String := name.intoString.filter isTransactionId

-- Looking at the journals

inductive Pending where
  | transaction (transaction : String)
  | stop (why : String)
deriving DecidableEq

/-- A `Committed` or `RolledBack` journal. -/
structure Terminal where
  name : String
  journal : UpdateJournal
deriving DecidableEq

def journalProblem (name why : String) : Pending :=
  .stop (boundedReason s!"journal {name}: {why}")

/-- What the entries say: one that stops the scan, or the pending and the terminal ones. -/
inductive Sorted where
  | problem (found : Pending)
  | sorted (pending : List String) (terminal : List Terminal)

section Scanning

variable (coordination : Coordination)

/-- The loop of `scan_pending` over the entries, with what is sorted so far. -/
def scanEntries : List (Except IoError OsText) → List String → List Terminal → Gating IoError Sorted
  | [], pending, terminal => return .sorted pending terminal
  | entry :: rest, pending, terminal => do
      let entry ← Program.settled entry
      match transactionName entry with
      | none => scanEntries rest pending terminal
      | some name =>
          let kind ← symlinkMetadata name
          if kind ≠ .directory then
            scanEntries rest pending terminal
          else
            match ← outcomeOf (loadJournal name) with
            | .error err => return .problem (journalProblem name err.display)
            | .ok none => scanEntries rest pending terminal
            | .ok (some journal) =>
                if journal.transactionId ≠ name ∨ journal.installId ≠ coordination.installId then
                  return .problem (journalProblem name "belongs to another transaction or install")
                else
                  match journal.phase with
                  | .committed | .rolledBack =>
                      scanEntries rest pending (terminal ++ [⟨name, journal⟩])
                  | .recoveryRequired =>
                      return .problem (journalProblem name "an earlier recovery did not complete")
                  | _ => scanEntries rest (pending ++ [name]) terminal

/-- What a terminal journal's decision means for the start. -/
def terminalProblem (name : String) (phase : Phase)
    : Except UpdateError RecoveryDecision → Option Pending
  | .ok decision =>
      let shown := decision.debug
      match phase, decision with
      | .committed, .keepNew => none
      | .rolledBack, .keepOld => none
      | _, .recoveryRequired why => some (journalProblem name why)
      | .committed, _ =>
          some (journalProblem name
            s!"committed but the install is not at the new version: {shown}")
      | _, _ =>
          some (journalProblem name
            s!"rolled back but the install is not at the old version: {shown}")
  | .error err => some (journalProblem name err.display)

def checkTerminal (name : String) (journal : UpdateJournal) : Gating IoError (Option Pending) := do
  let decision ← outcomeOf (decideRecovery gateObserve (some journal) coordination.installId)
  return terminalProblem name journal.phase decision

/-- At most one terminal receipt exists, and it matches the disk. -/
def checkLatestTerminal (terminal : List Terminal) : Gating IoError (Option Pending) :=
  match terminal with
  | [] => return none
  | [latest] => checkTerminal coordination latest.name latest.journal
  | _ =>
      return some (.stop
        "more than one terminal journal exists; the current one cannot be determined")

def readPrivate : Gating IoError (Option (List (Except IoError OsText))) :=
  .mk (Program.request GateCall.readPrivate)

/-- Finds a transaction that still needs a decision. -/
def scanPending : Gating IoError (Option Pending) := do
  match ← readPrivate with
  | none => return none
  | some entries =>
      match ← scanEntries coordination entries [] [] with
      | .problem found => return some found
      | .sorted [] terminal => checkLatestTerminal coordination terminal
      | .sorted [name] _ => return some (.transaction name)
      | .sorted _ _ => return some (.stop "more than one transaction is pending")

end Scanning

-- The receipts of earlier transactions

section Receipts

variable (coordination : Coordination)

/-- Before a new mutation: nothing is pending and the terminal receipt matches the install. -/
def ensurePriorReceiptsCurrent : Gating UpdateError Unit := do
  match ← ExceptT.adapt ioUpdateError (scanPending coordination) with
  | none => return ()
  | some (.stop why) => throw ⟨.installModified, why⟩
  | some (.transaction _) => throw ⟨.installModified, "another transaction is still pending"⟩

def receiptTombstone (name : String) : String := "." ++ name ++ ".retired"

def removeDirAll (name : String) : Gating IoError Unit :=
  .mk (Program.request (GateCall.removeDirAll name))

/-- A tombstone left by an earlier failed cleanup would block the renaming. -/
def clearTombstone (tombstone : String) : Gating IoError Unit := do
  let left : Except IoError (Option FileKind) ← looked (.symlinkMetadata tombstone)
  match left with
  | .error err => throw err
  | .ok none => return ()
  | .ok (some _) => removeDirAll tombstone

/-- `retire_receipt_dir`: the retirement is complete once the renaming is durable. -/
def retireReceiptDir (name tombstone : String) : Gating IoError Unit := do
  clearTombstone tombstone
  .mk (Program.request (GateCall.renameNewDurable name tombstone))
  removeDirAll tombstone

/-- On Windows the receipt is first renamed, durably, to a name that no scan accepts. -/
def removeReceiptDir (windows : Bool) (name : String) : Gating IoError Unit :=
  if windows then retireReceiptDir name (receiptTombstone name) else removeDirAll name

/-- A receipt of this installation that an apply has to retire. -/
def isReceipt (transaction : String) (journal : Option UpdateJournal) : Bool :=
  journal.any fun journal =>
    journal.transactionId == transaction && journal.installId == coordination.installId
      && (journal.phase == .committed || journal.phase == .rolledBack)

def retireReceipt (windows : Bool) (name : String) : Gating UpdateError Unit := do
  let released : Bool ← looked (.releaseSecrets name)
  if released = false then
    throw ⟨.installModified,
      boundedReason s!"the previous receipt {name} still holds a temporary proxy credential"⟩
  else
    ExceptT.adapt
      (fun err : IoError =>
        let shown := err.display
        ⟨.installModified, boundedReason s!"the previous receipt {name} cannot be retired: {shown}"⟩)
      (removeReceiptDir windows name)

/-- The loop of `retire_prior_receipts` over the entries. -/
def retireEntries (windows : Bool) (current : String)
    : List (Except IoError OsText) → Gating UpdateError Unit
  | [] => return ()
  | entry :: rest => do
      let entry ← Program.settled (entry.mapError ioUpdateError)
      match transactionName entry with
      | none => retireEntries windows current rest
      | some name =>
          if name = current then
            retireEntries windows current rest
          else
            let kind ← ExceptT.adapt ioUpdateError (symlinkMetadata name)
            if kind ≠ .directory then
              retireEntries windows current rest
            else
              let journal ← loadJournal name
              if isReceipt coordination name journal then
                retireReceipt windows name
              retireEntries windows current rest

/-- Retires the terminal receipts of earlier transactions, durably. -/
def retirePriorReceipts (windows : Bool) (current : String) : Gating UpdateError Unit := do
  match ← ExceptT.adapt ioUpdateError readPrivate with
  | none => return ()
  | some entries =>
      retireEntries coordination windows current entries
      if windows = false then
        ExceptT.adapt ioUpdateError (.mk (Program.request GateCall.syncPrivate))

/-- `DurableJournal::create` over the journal file of a transaction. -/
def createJournal {Json : Type} (crates : Crates Json) (transaction : String)
    (journal : UpdateJournal) : Gating UpdateError Unit := do
  Program.settled (journal.validate crates)
  match ← loadJournal transaction with
  | some _ => throw ⟨.staleJournal, "a journal already exists for this installation"⟩
  | none => .mk (Program.request (GateCall.storeJournal transaction journal))

/-- What an apply does with receipts and journals before the first mutation of the install. -/
def beginApply {Json : Type} (crates : Crates Json) (windows : Bool) (current : String)
    (journal : UpdateJournal) : Gating UpdateError Unit := do
  ensurePriorReceiptsCurrent coordination
  retirePriorReceipts coordination windows current
  createJournal crates current journal

end Receipts

-- The gate

structure CommittedRestore where
  restore : TicketRestore
  version : String
deriving DecidableEq, Repr

inductive GateOutcome where
  | proceed (committed : Option CommittedRestore)
  | unmanaged
  | updateInProgress
  | recoveryRequired (why : String)
deriving DecidableEq, Repr

/-- A program of the gate that may settle the outcome early. -/
abbrev Starting (α : Type) : Type := Gating GateOutcome α

def stop (err : UpdateError) : GateOutcome := .recoveryRequired (boundedReason err.display)

def release (kind : LeaseKind) : Starting Unit := looked (.release kind)

/-- Runs a program under a lease, if that can be taken at once. -/
def underLease (kind : LeaseKind) (program : Starting Unit) : Starting Unit := do
  let acquired : Except UpdateError Bool ← looked (.tryAcquire kind)
  if acquired = .ok true then do
    program
    release kind
  else
    return ()

/-- Runs a sweep while `transaction`, `startup` and the exclusive `runtime` lease are held. -/
def whileAlone (sweep : Starting Unit) : Starting Unit :=
  underLease .transaction (underLease .startup (underLease .runtimeExclusive sweep))

def startsWithDot (name : String) : Bool := name.toList.head? = some '.'

def sweepEntry (entry : Except IoError OsText) : Starting Unit :=
  match entry.toOption.bind OsText.intoString with
  | none => return ()
  | some name =>
      if startsWithDot name then do
        let _ ← looked (.removeRetiredReceipt name)
        return ()
      else if isTransactionId name then
        looked (.discardUnstarted name)
      else
        return ()

def sweepEntries : List (Except IoError OsText) → Starting Unit
  | [] => return ()
  | entry :: rest => do
      sweepEntry entry
      sweepEntries rest

def sweepUnjournaled : Starting Unit := do
  let entries : Except IoError (Option (List (Except IoError OsText))) ← looked .readPrivate
  match entries with
  | .error _ | .ok none => return ()
  | .ok (some entries) =>
      sweepEntries entries
      looked .sweepSettledAnchors

def sweepAbandonedTransactions : Starting Unit := whileAlone sweepUnjournaled

def sweepInstallScratch : Starting Unit := whileAlone (looked .cleanupScratch)

/-- The loop of `committed_restore`; an early end gives nothing. -/
def committedEntries (coordination : Coordination)
    : List (Except IoError OsText) → Option (String × String)
      → Starting (Option (String × String))
  | [], found => return found
  | .error _ :: _, _ => return none
  | .ok entry :: rest, found => do
      match transactionName entry with
      | none => committedEntries coordination rest found
      | some name =>
          let kind : Except IoError (Option FileKind) ← looked (.symlinkMetadata name)
          match kind with
          | .error _ | .ok none => return none
          | .ok (some kind) =>
              if kind ≠ .directory then
                committedEntries coordination rest found
              else
                match ← outcomeOf (loadJournal name) with
                | .error _ | .ok none => committedEntries coordination rest found
                | .ok (some journal) =>
                    if journal.phase ≠ .committed ∨ journal.transactionId ≠ name
                        ∨ journal.installId ≠ coordination.installId then
                      committedEntries coordination rest found
                    else if found.isSome then
                      return none
                    else
                      committedEntries coordination rest (some (name, journal.destination.version))

/-- The only terminal receipt, when it is `Committed` and its ticket is still unclaimed. -/
def committedRestore (coordination : Coordination) : Starting (Option CommittedRestore) := do
  let entries : Except IoError (Option (List (Except IoError OsText))) ← looked .readPrivate
  match entries with
  | .error _ | .ok none => return none
  | .ok (some entries) =>
      match ← committedEntries coordination entries none with
      | none => return none
      | some (transaction, version) =>
          let restore : Except UpdateError TicketRestore ← looked (.ticketFromBinding transaction)
          match restore with
          | .error _ => return none
          | .ok restore =>
              let unclaimed : Bool ← looked (.hasUnclaimedTicket restore)
              return if unclaimed then some ⟨restore, version⟩ else none

/-- The runtime lease, taken under the startup lease; the restore is read before that is released. -/
def enterRuntime (coordination : Coordination) : Starting GateOutcome := do
  looked .sweepSettledAnchors
  let runtime : Except UpdateError Bool ← looked (.tryAcquire .runtimeShared)
  match runtime with
  | .ok true =>
      let committed ← committedRestore coordination
      release .startup
      return .proceed committed
  | .ok false =>
      release .startup
      return .updateInProgress
  | .error err =>
      release .startup
      return stop err

/-- One pass of the gate's loop: an outcome, or the transaction that is still pending. -/
def gateLook (coordination : Coordination) (waitMs : Nat) : Starting (Except String GateOutcome) := do
  let acquired : Except UpdateError Unit ← looked (.acquireWithin .startup waitMs)
  match acquired with
  | .error err => return .ok (if err.code = .timeout then .updateInProgress else stop err)
  | .ok () =>
      match ← outcomeOf (scanPending coordination) with
      | .error err =>
          release .startup
          return .ok (stop (ioUpdateError err))
      | .ok (some (.stop why)) =>
          release .startup
          return .ok (.recoveryRequired why)
      | .ok none => return .ok (← enterRuntime coordination)
      | .ok (some (.transaction transaction)) =>
          release .startup
          return .error transaction

def unsettled : GateOutcome :=
  .recoveryRequired "recovery did not settle the pending transaction"

/-- One recovery attempt; the second look must find nothing pending. -/
def gateLoop (coordination : Coordination) (waitMs : Nat) : Starting GateOutcome := do
  match ← gateLook coordination waitMs with
  | .ok outcome => return outcome
  | .error transaction =>
      let report : Except UpdateError RecoveryReport ← looked (.recover transaction)
      match report with
      | .ok (.blocked why) | .ok (.recoveryRequired why) =>
          return .recoveryRequired (boundedReason why)
      | .error err => return stop err
      | .ok _ =>
          match ← gateLook coordination waitMs with
          | .ok outcome => return outcome
          | .error _ => return unsettled

/-- The coordination directory, or the outcome when there is none to use. -/
def gateCoordination : Starting Coordination := do
  let existing : Except UpdateError (Option Coordination) ← looked .existingCoordination
  match existing with
  | .ok (some coordination) => return coordination
  | .error err => throw (stop err)
  | .ok none =>
      let created : Except UpdateError Coordination ← looked .createCoordination
      match created with
      | .ok coordination => return coordination
      | .error err =>
          let again : Except UpdateError (Option Coordination) ← looked .existingCoordination
          match again with
          | .ok none => throw .unmanaged
          | _ => throw (stop err)

def gateSteps (windows : Bool) (waitMs : Nat) : Starting GateOutcome := do
  let coordination ← gateCoordination
  sweepAbandonedTransactions
  if windows then sweepInstallScratch
  gateLoop coordination waitMs

/-- An outcome, however it was reached. -/
def settledOutcome : Except GateOutcome GateOutcome → GateOutcome
  | .ok outcome | .error outcome => outcome

/-- Runs the gate for a verified placement. -/
def startupGate (windows : Bool) (waitMs : Nat) : Program GateCall.Answer GateOutcome :=
  settledOutcome <$> (gateSteps windows waitMs).run

end Hane.Update
