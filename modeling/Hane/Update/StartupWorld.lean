import Hane.Update.Observing
import Hane.Update.Startup
import Mathlib.Data.List.Nodup

/-! What the outside does for the startup gate: leases, a private directory that others change only
while the startup lease is free, and removals that a power loss may undo.
-/

namespace Hane.Update

open Hane.Foundations

-- The private directory

/-- What lies at the journal path of an entry. -/
inductive JournalFile where
  | absent
  | unreadable (err : UpdateError)
  | written (journal : UpdateJournal)
deriving DecidableEq

structure PrivateEntry where
  name : OsText
  kind : FileKind
  journal : JournalFile
deriving DecidableEq

namespace PrivateEntry

/-- A journal lies under the name of a transaction. -/
def Journaled (entry : PrivateEntry) : Prop :=
  (∃ name, entry.name = .text name ∧ isTransactionId name = true) ∧ entry.journal ≠ .absent

/-- The directory of a transaction with a journal. -/
def Tracked (entry : PrivateEntry) : Prop := entry.Journaled ∧ entry.kind = .directory

/-- The readable journal of the entry's own transaction and of this installation. -/
def Holds (installId : String) (entry : PrivateEntry) (journal : UpdateJournal) : Prop :=
  entry.journal = .written journal ∧ entry.name = .text journal.transactionId
    ∧ journal.installId = installId

def IsReceipt (installId : String) (entry : PrivateEntry) : Prop :=
  entry.Tracked ∧ ∃ journal, entry.Holds installId journal
    ∧ (journal.phase = .committed ∨ journal.phase = .rolledBack)

end PrivateEntry

/-- The entries of the private directory have different names. -/
structure PrivateDir where
  entries : List PrivateEntry
  distinct : (entries.map PrivateEntry.name).Nodup

instance : Membership PrivateEntry PrivateDir := ⟨fun directory entry => entry ∈ directory.entries⟩

/-- Two entries of one name are the same, since names differ. -/
theorem PrivateDir.unique {directory : PrivateDir} {entry other : PrivateEntry}
    (member : entry ∈ directory) (member' : other ∈ directory) (same : entry.name = other.name)
    : entry = other :=
  List.inj_on_of_nodup_map directory.distinct member member' same

/-- The journals under transaction names are the same in both. -/
def PrivateDir.Agrees (before after : PrivateDir) : Prop :=
  ∀ entry : PrivateEntry, entry.Journaled → (entry ∈ before ↔ entry ∈ after)

theorem PrivateDir.Agrees.refl (directory : PrivateDir) : directory.Agrees directory :=
  fun _ _ => .rfl

theorem PrivateDir.Agrees.trans {before middle after : PrivateDir} (first : before.Agrees middle)
    (second : middle.Agrees after)
    : before.Agrees after :=
  fun entry journaled => (first entry journaled).trans (second entry journaled)

-- The world

inductive GateStep where
  | acquired (kind : LeaseKind)
  | released (kind : LeaseKind)
  | listed (directory : PrivateDir) (disk : String → Observed)
  | recovered (transaction : String)
  | stored (transaction : String)

/-- A step, with the leases that this process held right before it. -/
structure GateEvent where
  held : List LeaseKind
  step : GateStep

/-- The private directory, the entries whose removal is not durable yet, the installed files, the
leases of this process, and what happened, the latest event first.
-/
structure GateWorld where
  directory : PrivateDir
  removed : List PrivateEntry
  disk : String → Observed
  held : List LeaseKind
  log : List GateEvent

namespace GateWorld

def logged (world : GateWorld) (step : GateStep) : GateWorld :=
  { world with log := ⟨world.held, step⟩ :: world.log }

def acquiring (world : GateWorld) (kind : LeaseKind) : GateWorld :=
  { world.logged (.acquired kind) with held := kind :: world.held }

def releasing (world : GateWorld) (kind : LeaseKind) : GateWorld :=
  { world.logged (.released kind) with held := world.held.erase kind }

/-- What is in the private directory once the power comes back. -/
def PowerLoss (world : GateWorld) (after : PrivateDir) : Prop :=
  ∀ entry ∈ after, entry ∈ world.directory ∨ entry ∈ world.removed

end GateWorld

/-- What others do at any time: while this process holds the startup lease they write no journal and
no installed file.
-/
structure Others (world after : GateWorld) : Prop where
  held : after.held = world.held
  log : after.log = world.log
  agrees : .startup ∈ world.held → world.directory.Agrees after.directory
  removed : .startup ∈ world.held → after.removed = world.removed
  disk : .startup ∈ world.held → after.disk = world.disk

/-- How far the removal of a directory may have come. -/
inductive Removes (name : String) (world : GateWorld) : GateWorld → Prop where
  | untouched : Removes name world world
  | emptied {directory : PrivateDir}
      (others : ∀ entry ∈ directory, entry ∈ world.directory ∨ entry.journal = .absent)
      : Removes name world { world with
          directory
          removed := world.directory.entries.filter (·.name = .text name) ++ world.removed }
  | gone {directory : PrivateDir}
      (others : ∀ entry, entry ∈ directory ↔ entry ∈ world.directory ∧ entry.name ≠ .text name)
      : Removes name world { world with
          directory
          removed := world.directory.entries.filter (·.name = .text name) ++ world.removed }

/-- The durable renaming of an entry to a free name. -/
inductive Renames (name target : String) (world : GateWorld) : GateWorld → Prop where
  | moved {directory : PrivateDir}
      (others : ∀ entry, entry ∈ directory ↔ (entry ∈ world.directory ∧ entry.name ≠ .text name)
        ∨ ∃ moved ∈ world.directory, moved.name = .text name
          ∧ entry = { moved with name := .text target })
      : Renames name target world { world with directory }

/-- The atomic replacement of the journal of an entry. -/
inductive Stores (transaction : String) (journal : UpdateJournal) (world : GateWorld)
    : GateWorld → Prop where
  | stored {directory : PrivateDir}
      (others : ∀ entry, entry ∈ directory
        ↔ (entry ∈ world.directory ∧ entry.name ≠ .text transaction)
          ∨ ∃ old ∈ world.directory, old.name = .text transaction
            ∧ entry = { old with journal := .written journal })
      : Stores transaction journal world { world.logged (.stored transaction) with directory }

/-- What one call does when nobody acts in between. Every call may fail; a failed change may have
taken effect.
-/
def GateEffect (installId : String) (world : GateWorld)
    : (call : GateCall) → call.Answer → GateWorld → Prop
  | .existingCoordination, answer, after =>
      (∀ found, answer = .ok (some found) → found.installId = installId) ∧ after = world
  | .createCoordination, answer, after =>
      (∀ found, answer = .ok found → found.installId = installId) ∧ after = world
  | .tryAcquire kind, answer, after =>
      match answer with
      | .ok true => after = world.acquiring kind
      | _ => after = world
  | .acquireWithin kind _, answer, after =>
      match answer with
      | .ok () => after = world.acquiring kind
      | .error _ => after = world
  | .release kind, _, after => after = world.releasing kind
  | .readPrivate, answer, after =>
      match answer with
      | .error _ => after = world
      | .ok none =>
          world.directory.entries = [] ∧ world.removed = []
            ∧ after = world.logged (.listed world.directory world.disk)
      | .ok (some found) =>
          (∀ names : List OsText, found = names.map .ok → names.Perm (world.directory.entries.map (·.name)))
            ∧ after = world.logged (.listed world.directory world.disk)
  | .symlinkMetadata name, answer, after =>
      (∀ kind, answer = .ok (some kind) → ∃ entry ∈ world.directory, entry.name = .text name
          ∧ entry.kind = kind)
        ∧ (answer = .ok none → ∀ entry ∈ world.directory, entry.name ≠ .text name)
        ∧ after = world
  | .loadJournal transaction, answer, after =>
      (∀ journal, answer = .ok (some journal) → ∃ entry ∈ world.directory,
          entry.name = .text transaction ∧ entry.journal = .written journal)
        ∧ (answer = .ok none → ∀ entry ∈ world.directory, entry.name = .text transaction
          → entry.journal = .absent)
        ∧ after = world
  | .observe relPath, answer, after =>
      (∀ observed, answer = .ok observed → observed = world.disk relPath) ∧ after = world
  | .removeRetiredReceipt _, _, after | .discardUnstarted _, _, after =>
      ∃ directory, world.directory.Agrees directory ∧ after = { world with directory }
  | .recover transaction, _, after =>
      ∃ directory removed disk,
        after = { world.logged (.recovered transaction) with directory, removed, disk }
  | .removeDirAll name, answer, after =>
      Removes name world after
        ∧ (answer = .ok () → ∀ entry ∈ after.directory, entry.name ≠ .text name)
  | .renameNewDurable name target, answer, after =>
      Renames name target world after ∨ (answer ≠ .ok () ∧ after = world)
  | .syncPrivate, answer, after =>
      after = { world with removed := [] } ∨ (answer ≠ .ok () ∧ after = world)
  | .storeJournal transaction journal, answer, after =>
      Stores transaction journal world after ∨ (answer ≠ .ok () ∧ after = world)
  | .sweepSettledAnchors, _, after | .cleanupScratch, _, after | .ticketFromBinding _, _, after
  | .hasUnclaimedTicket _, _, after | .releaseSecrets _, _, after => after = world

/-- A crash inside a call: it may have done what it does, or a part of it. -/
def GateTears (world : GateWorld) : GateCall → GateWorld → Prop
  | .removeDirAll name, after => Removes name world after
  | .renameNewDurable name target, after => Renames name target world after
  | .syncPrivate, after => after = { world with removed := [] }
  | .storeJournal transaction journal, after => Stores transaction journal world after
  | _, _ => False

def gateOutside (installId : String) : Outside GateWorld GateCall.Answer where
  answers world call answer after :=
    ∃ middle, Others world middle ∧ GateEffect installId middle call answer after
  tears world call after := ∃ middle, Others world middle ∧ GateTears middle call after

end Hane.Update
