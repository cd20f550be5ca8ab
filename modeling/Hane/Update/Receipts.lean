import Hane.Update.RecoverySafety
import Hane.Update.StartupRuns

/-! The receipts of earlier transactions over whole runs of an apply: they are retired before its
own journal exists, so that the new receipt is the only one, whenever the process or the power stops.
-/

namespace Hane.Update

open Hane.Foundations

-- What is left of the receipts

def Unstored (log : List GateEvent) : Prop :=
  ∀ event ∈ log, ∀ transaction, event.step ≠ .stored transaction

/-- A receipt that is still there, or that a power loss may bring back, was there at the start, and
no journal was stored since.
-/
def ReceiptsKept (installId : String) (start world : GateWorld) : Prop :=
  ∀ entry, entry ∈ world.directory ∨ entry ∈ world.removed → entry.IsReceipt installId
    → (entry ∈ start.directory ∨ entry ∈ start.removed) ∧ Unstored world.log

/-- Under the startup lease journals have only been removed. On Windows the removals are durable. -/
structure Retiring (windows : Bool) (start world : GateWorld) : Prop where
  held : .startup ∈ world.held
  unstored : Unstored world.log
  directory : ∀ entry ∈ world.directory, entry.Journaled → entry ∈ start.directory
  removed : ∀ entry ∈ world.removed, entry.Journaled
    → entry ∈ start.directory ∨ entry ∈ start.removed
  durable : windows = true → ∀ entry ∈ world.removed, entry.Journaled → entry ∈ start.removed

/-- Every journal of the later directory was there before. -/
def Shrinks (world later : GateWorld) : Prop :=
  ∀ entry ∈ later.directory, entry.Journaled → entry ∈ world.directory

theorem Shrinks.trans {world middle later : GateWorld} (first : Shrinks world middle)
    (second : Shrinks middle later)
    : Shrinks world later :=
  fun entry member journaled => first entry (second entry member journaled) journaled

theorem Steady.shrinks {world later : GateWorld} (steady : Steady world later)
    (under : .startup ∈ world.held)
    : Shrinks world later :=
  fun entry member journaled => (steady.agrees under entry journaled).mpr member

theorem receiptTombstone_untracked {name : String} (tracked : isTransactionId name = true)
    : isTransactionId (receiptTombstone name) = false := by
  have size : name.utf8ByteSize = 32 := by
    rw [isTransactionId, isLowerHex, Bool.and_eq_true, beq_iff_eq] at tracked
    exact tracked.1
  have longer : (receiptTombstone name).utf8ByteSize ≠ 32 := by
    rw [receiptTombstone, String.utf8ByteSize_append, String.utf8ByteSize_append, size]
    decide
  rw [isTransactionId, isLowerHex, beq_eq_false_iff_ne.mpr longer, Bool.false_and]

section Retire

variable {installId : String} {windows : Bool} {start world later : GateWorld}

theorem Retiring.kept (retiring : Retiring windows start world)
    : ReceiptsKept installId start world := by
  rintro entry (member | member) receipt
  · exact ⟨.inl (retiring.directory entry member receipt.1.1), retiring.unstored⟩
  · exact ⟨retiring.removed entry member receipt.1.1, retiring.unstored⟩

theorem Retiring.steady (retiring : Retiring windows start world) (steady : Steady world later)
    : Retiring windows start later := by
  obtain ⟨newer, log, listings⟩ := steady.log
  refine {
    held := steady.held ▸ retiring.held
    unstored := ?_
    directory := fun entry member journaled => retiring.directory entry
      (steady.shrinks retiring.held entry member journaled) journaled
    removed := steady.removed retiring.held ▸ retiring.removed
    durable := steady.removed retiring.held ▸ retiring.durable }
  intro event member transaction
  rw [log] at member
  rcases List.mem_append.mp member with member | member
  · obtain ⟨directory, disk, rfl, _⟩ := listings event member
    exact nofun
  · exact retiring.unstored event member transaction

theorem Retiring.removes {name : String} (retiring : Retiring windows start world)
    (tombstone : windows = true → isTransactionId name = false)
    (removes : Removes name world later)
    : Retiring windows start later ∧ Shrinks world later := by
  have removed : ∀ entry ∈ world.directory.entries.filter (·.name = .text name) ++ world.removed,
      entry.Journaled → entry ∈ start.directory ∨ entry ∈ start.removed := by
    intro entry member journaled
    rcases List.mem_append.mp member with member | member
    · exact .inl (retiring.directory entry (List.mem_of_mem_filter member) journaled)
    · exact retiring.removed entry member journaled
  have durable : windows = true
      → ∀ entry ∈ world.directory.entries.filter (·.name = .text name) ++ world.removed,
        entry.Journaled → entry ∈ start.removed := by
    intro onWindows entry member journaled
    rcases List.mem_append.mp member with member | member
    · obtain ⟨⟨own, named, tracked⟩, _⟩ := journaled
      have same := of_decide_eq_true (List.mem_filter.mp member).2
      rw [named] at same
      cases same
      rw [tombstone onWindows] at tracked
      cases tracked
    · exact retiring.durable onWindows entry member journaled
  cases removes with
  | untouched => exact ⟨retiring, fun _ member _ => member⟩
  | @emptied directory others =>
      have fewer : ∀ entry ∈ directory, entry.Journaled → entry ∈ world.directory :=
        fun entry member journaled => (others entry member).resolve_right journaled.2
      exact ⟨{ retiring with
        directory := fun entry member journaled =>
          retiring.directory entry (fewer entry member journaled) journaled
        removed, durable }, fewer⟩
  | @gone directory others =>
      have fewer : ∀ entry ∈ directory, entry.Journaled → entry ∈ world.directory :=
        fun entry member _ => ((others entry).mp member).1
      exact ⟨{ retiring with
        directory := fun entry member journaled =>
          retiring.directory entry (fewer entry member journaled) journaled
        removed, durable }, fewer⟩

theorem Retiring.renames {name : String} (tracked : isTransactionId name = true)
    (retiring : Retiring windows start world)
    (renames : Renames name (receiptTombstone name) world later)
    : Retiring windows start later ∧ Shrinks world later
      ∧ ∀ entry ∈ later.directory, entry.Journaled → entry.name ≠ .text name := by
  obtain @⟨directory, others⟩ := renames
  have stays : ∀ entry ∈ directory, entry.Journaled → entry ∈ world.directory ∧ entry.name ≠ .text name := by
    intro entry member journaled
    rcases (others entry).mp member with stays | ⟨moved, _, _, rfl⟩
    · exact stays
    · obtain ⟨⟨own, named, tracked'⟩, _⟩ := journaled
      cases named
      rw [receiptTombstone_untracked tracked] at tracked'
      cases tracked'
  exact ⟨{ retiring with
    directory := fun entry member journaled =>
      retiring.directory entry (stays entry member journaled).1 journaled },
    fun entry member journaled => (stays entry member journaled).1,
    fun entry member journaled => (stays entry member journaled).2⟩

/-- A program of an apply keeps the receipts as they should be. -/
abbrev Retires {ε α : Type} (installId : String) (start : GateWorld) (fine : α → GateWorld → Prop)
    (program : Gating ε α) (world : GateWorld) : Prop :=
  Program.Performs (gateOutside installId) (ReceiptsKept installId start) fine (fun _ _ => True)
    program world

theorem removeDirAll_retires {name : String} (retiring : Retiring windows start world)
    (tombstone : windows = true → isTransactionId name = false)
    : Retires installId start
        (fun _ final => Retiring windows start final ∧ Shrinks world final
          ∧ ∀ entry ∈ final.directory, entry.name ≠ .text name)
        (removeDirAll name) world := by
  refine ⟨retiring.kept, ?_, ?_⟩
  · rintro final ⟨middle, others, tears⟩
    exact ((retiring.steady others.steady).removes tombstone tears).1.kept
  · rintro answer final ⟨middle, others, removes, gone⟩
    obtain ⟨retired, fewer⟩ := (retiring.steady others.steady).removes tombstone removes
    refine ⟨retired.kept, ?_⟩
    cases answer with
    | error err => trivial
    | ok value =>
        exact ⟨retired, (others.steady.shrinks retiring.held).trans fewer, gone rfl⟩

theorem renameNewDurable_retires {name : String} (tracked : isTransactionId name = true)
    (retiring : Retiring windows start world)
    : Retires installId start
        (fun _ final => Retiring windows start final ∧ Shrinks world final
          ∧ ∀ entry ∈ final.directory, entry.Journaled → entry.name ≠ .text name)
        (.mk (Program.request (GateCall.renameNewDurable name (receiptTombstone name)))
          : Gating IoError Unit) world := by
  refine ⟨retiring.kept, ?_, ?_⟩
  · rintro final ⟨middle, others, tears⟩
    exact ((retiring.steady others.steady).renames tracked tears).1.kept
  · rintro answer final ⟨middle, others, renames | ⟨failed, rfl⟩⟩
    · obtain ⟨retired, fewer, gone⟩ := (retiring.steady others.steady).renames tracked renames
      refine ⟨retired.kept, ?_⟩
      cases answer with
      | error err => trivial
      | ok value => exact ⟨retired, (others.steady.shrinks retiring.held).trans fewer, gone⟩
    · refine ⟨(retiring.steady others.steady).kept, ?_⟩
      cases answer with
      | error err => trivial
      | ok value => exact absurd rfl failed

theorem clearTombstone_retires {tombstone : String} (untracked : isTransactionId tombstone = false)
    (retiring : Retiring windows start world)
    : Retires installId start
        (fun _ final => Retiring windows start final ∧ Shrinks world final)
        (clearTombstone tombstone) world := by
  refine .bind _ (quiet_performs (fun _ steady => (retiring.steady steady).kept)
    (show (GateCall.symlinkMetadata tombstone).IsQuiet from trivial) (.refl world)) ?_
  rintro (err | _ | kind) final holds ⟨steady, _⟩
  · exact ⟨holds, trivial⟩
  · exact .pure holds ⟨retiring.steady steady, steady.shrinks retiring.held⟩
  · refine (removeDirAll_retires (retiring.steady steady) fun _ => untracked).mono ?_
      fun _ _ _ _ => trivial
    exact fun _ _ _ ⟨retired, fewer, _⟩ => ⟨retired, (steady.shrinks retiring.held).trans fewer⟩

theorem removeReceiptDir_retires {name : String} (tracked : isTransactionId name = true)
    (retiring : Retiring windows start world)
    : Retires installId start
        (fun _ final => Retiring windows start final ∧ Shrinks world final
          ∧ ∀ entry ∈ final.directory, entry.Journaled → entry.name ≠ .text name)
        (removeReceiptDir windows name) world := by
  have untracked := receiptTombstone_untracked tracked
  refine .ite (fun _ => ?_) fun onUnix => ?_
  · refine .bind _ (clearTombstone_retires untracked retiring) ?_
    rintro _ cleared _ ⟨retiring, fewer⟩
    refine .bind _ (renameNewDurable_retires tracked retiring) ?_
    rintro _ renamed _ ⟨retiring, fewer', gone⟩
    refine (removeDirAll_retires retiring fun _ => untracked).mono ?_ fun _ _ _ _ => trivial
    exact fun _ final _ ⟨retiring, fewer'', _⟩ => ⟨retiring, (fewer.trans fewer').trans fewer'',
      fun entry member journaled => gone entry (fewer'' entry member journaled) journaled⟩
  · refine (removeDirAll_retires retiring fun onWindows => absurd onWindows onUnix).mono ?_
      fun _ _ _ _ => trivial
    exact fun _ final _ ⟨retiring, fewer, gone⟩ => ⟨retiring, fewer, fun entry member _ =>
      gone entry member⟩

/-- No receipt of a name is there. -/
def Done (installId : String) (current : String) (name : OsText) (world : GateWorld) : Prop :=
  ∀ entry ∈ world.directory, entry.IsReceipt installId → entry.name = name
    → entry.name = .text current

theorem Done.afterwards {current : String} {name : OsText} (done : Done installId current name world)
    (fewer : Shrinks world later)
    : Done installId current name later :=
  fun entry member receipt => done entry (fewer entry member receipt.1.1) receipt

theorem retireReceipt_retires {name : String} (tracked : isTransactionId name = true)
    (retiring : Retiring windows start world)
    : Retires installId start
        (fun _ final => Retiring windows start final ∧ Shrinks world final
          ∧ ∀ entry ∈ final.directory, entry.Journaled → entry.name ≠ .text name)
        (retireReceipt windows name) world := by
  refine .bind _ (quiet_performs (fun _ steady => (retiring.steady steady).kept)
    (show (GateCall.releaseSecrets name).IsQuiet from trivial) (.refl world)) ?_
  rintro released final holds ⟨steady, _⟩
  refine .ite (fun _ => ⟨holds, trivial⟩) fun _ => .adapt ?_
  refine (removeReceiptDir_retires tracked (retiring.steady steady)).mono ?_ fun _ _ _ _ => trivial
  exact fun _ final _ ⟨retired, fewer, gone⟩ =>
    ⟨retired, (steady.shrinks retiring.held).trans fewer, gone⟩

theorem isReceipt_of_receipt {entry : PrivateEntry} {journal : UpdateJournal} {name : String}
    (receipt : entry.IsReceipt installId) (written : entry.journal = .written journal)
    (named : entry.name = .text name)
    : isReceipt ⟨installId⟩ name (some journal) = true := by
  obtain ⟨_, journal', ⟨written', named', native⟩, phase⟩ := receipt
  rw [written] at written'
  cases written'
  rw [named] at named'
  cases named'
  rcases phase with phase | phase <;> simp [isReceipt, native, phase]

/-- The loop retires the receipts of all names it is shown but its own, by induction over them. -/
theorem retireEntries_retires {current : String} (names : List (Except IoError OsText))
    (retiring : Retiring windows start world)
    : Retires installId start
        (fun _ final => Retiring windows start final ∧ Shrinks world final
          ∧ (∀ name ∈ names, ∃ text, name = .ok text)
          ∧ ∀ name, .ok name ∈ names → Done installId current name final)
        (retireEntries ⟨installId⟩ windows current names) world := by
  induction names generalizing world with
  | nil => exact .pure retiring.kept ⟨retiring, fun _ member _ => member, nofun, nofun⟩
  | cons name rest ih =>
      cases name with
      | error err => exact ⟨retiring.kept, trivial⟩
      | ok name =>
          -- Once nothing of this name is left, the rest of the loop brings nothing back.
          have onward : ∀ {later}, Retiring windows start later → Shrinks world later
              → Done installId current name later
              → Retires installId start
                  (fun _ final => Retiring windows start final ∧ Shrinks world final
                    ∧ (∀ listed ∈ Except.ok name :: rest, ∃ text, listed = .ok text)
                    ∧ ∀ listed, .ok listed ∈ Except.ok name :: rest
                      → Done installId current listed final)
                  (retireEntries ⟨installId⟩ windows current rest) later := by
            intro later retiring fewer done
            refine (ih retiring).mono ?_ fun _ _ _ _ => trivial
            rintro _ final _ ⟨retired, fewer', read, others⟩
            refine ⟨retired, fewer.trans fewer', List.forall_mem_cons.mpr ⟨⟨name, rfl⟩, read⟩, ?_⟩
            intro listed member
            rcases List.mem_cons.mp member with same | member
            · cases same
              exact done.afterwards fewer'
            · exact others listed member
          have keeps : ∀ later, Steady world later → ReceiptsKept installId start later :=
            fun _ steady => (retiring.steady steady).kept
          refine .bind (fun entry final => entry = name ∧ final = world)
            (.settled retiring.kept (fun value same => by cases same; exact ⟨rfl, rfl⟩) nofun) ?_
          rintro entry world _ ⟨rfl, rfl⟩
          cases named : transactionName entry with
          | none =>
              exact onward retiring (fun _ member _ => member) fun found _ receipt same =>
                absurd receipt.1.1 (transactionName_none named same)
          | some transaction =>
              obtain ⟨rfl, tracked⟩ := transactionName_some named
              refine .ite (fun own => ?_) fun _ => ?_
              · exact onward retiring (fun _ member _ => member) fun found _ _ same =>
                  same.trans (congrArg OsText.text own)
              · refine .bind _ (.adapt ((symlinkMetadata_performs keeps retiring.held
                  (.refl world)).mono (fun _ _ _ found => found) fun _ _ _ _ => trivial)) ?_
                rintro kind later _ ⟨steady, kinds⟩
                refine .ite (fun other => ?_) fun _ => ?_
                · refine onward (retiring.steady steady) (steady.shrinks retiring.held) ?_
                  intro entry member receipt same
                  have member := steady.shrinks retiring.held entry member receipt.1.1
                  exact absurd ((kinds entry member receipt.1.1 same).symm.trans receipt.1.2) other
                · refine .bind _ ((loadJournal_performs keeps retiring.held tracked steady).mono
                    (fun _ _ _ found => found) fun _ _ _ _ => trivial) ?_
                  rintro journal loaded _ ⟨steady, found⟩
                  have retiring' := retiring.steady steady
                  have fewer := steady.shrinks retiring.held
                  refine .ite (fun _ => ?_) fun other => ?_
                  · refine .bind _ (retireReceipt_retires tracked retiring') ?_
                    rintro _ retired _ ⟨retiring, fewer', gone⟩
                    refine onward retiring (fewer.trans fewer') ?_
                    exact fun entry member receipt same =>
                      absurd same (gone entry member receipt.1.1)
                  · refine onward retiring' fewer fun entry member receipt same => ?_
                    have member := fewer entry member receipt.1.1
                    cases journal with
                    | none => exact absurd same (found entry member receipt.1.1)
                    | some journal =>
                        obtain ⟨holder, member', _, same', written⟩ := found
                        obtain rfl := PrivateDir.unique member member' (same.trans same'.symm)
                        exact absurd (isReceipt_of_receipt receipt written same) other

/-- What is left once the receipts are retired: at most one of the transaction itself. -/
structure Retired (installId : String) (windows : Bool) (current : String)
    (start world : GateWorld) : Prop where
  retiring : Retiring windows start world
  own : ∀ entry ∈ world.directory, entry.IsReceipt installId → entry.name = .text current
  durable : ∀ entry ∈ world.removed, ¬entry.IsReceipt installId

theorem syncPrivate_retires (retiring : Retiring windows start world)
    : Retires installId start
        (fun _ final => Retiring windows start final ∧ Shrinks world final ∧ final.removed = [])
        (.mk (Program.request GateCall.syncPrivate) : Gating IoError Unit) world := by
  have synced : ∀ {middle}, Others world middle
      → Retiring windows start { middle with removed := [] } := by
    intro middle others
    have steady := retiring.steady others.steady
    exact ⟨steady.held, steady.unstored, steady.directory, fun _ member => (nomatch member),
      fun _ _ member => (nomatch member)⟩
  refine ⟨retiring.kept, ?_, ?_⟩
  · rintro final ⟨middle, others, rfl⟩
    exact (synced others).kept
  · rintro answer final ⟨middle, others, rfl | ⟨failed, rfl⟩⟩
    · refine ⟨(synced others).kept, ?_⟩
      cases answer with
      | error err => trivial
      | ok value => exact ⟨synced others, others.steady.shrinks retiring.held, rfl⟩
    · refine ⟨(retiring.steady others.steady).kept, ?_⟩
      cases answer with
      | error err => trivial
      | ok value => exact absurd rfl failed

/-- Retiring succeeds only when no other receipt is left, and none comes back. -/
theorem retirePriorReceipts_retires {current : String}
    (lasting : windows = true → ∀ entry ∈ start.removed, ¬entry.IsReceipt installId)
    (retiring : Retiring windows start world)
    : Retires installId start (fun _ => Retired installId windows current start)
        (retirePriorReceipts ⟨installId⟩ windows current) world := by
  have durable : windows = true → ∀ {later}, Retiring windows start later
      → ∀ entry ∈ later.removed, ¬entry.IsReceipt installId :=
    fun onWindows later retiring entry member receipt => lasting onWindows entry
      (retiring.durable onWindows entry member receipt.1.1) receipt
  have keeps : ∀ later, Steady world later → ReceiptsKept installId start later :=
    fun _ steady => (retiring.steady steady).kept
  refine .bind _ (.adapt ((readPrivate_performs keeps (.refl world)).mono
    (fun _ _ _ found => found) fun _ _ _ _ => trivial)) ?_
  rintro (_ | names) listing holds ⟨steady, _, listed⟩
  · obtain ⟨empty, removed⟩ := listed
    refine .pure holds ⟨retiring.steady steady, fun entry member => ?_, fun entry member => ?_⟩
    · have member : entry ∈ listing.directory.entries := member
      rw [empty] at member
      cases member
    · rw [removed] at member
      cases member
  refine .bind _ (retireEntries_retires names (retiring.steady steady)) ?_
  rintro _ retired holds ⟨retiring, fewer, read, done⟩
  obtain ⟨texts, rfl⟩ := exists_texts read
  have own : ∀ entry ∈ retired.directory, entry.IsReceipt installId
      → entry.name = .text current := by
    intro entry member receipt
    have named : entry.name ∈ texts := (listed texts rfl).mem_iff.mpr
      (List.mem_map_of_mem (fewer entry member receipt.1.1))
    exact done entry.name (List.mem_map_of_mem named) entry member receipt rfl
  refine .ite (fun _ => .adapt ((syncPrivate_retires retiring).mono ?_ fun _ _ _ _ => trivial))
    fun other => ?_
  · rintro _ synced _ ⟨retiring, fewer, removed⟩
    refine ⟨retiring, fun entry member receipt =>
      own entry (fewer entry member receipt.1.1) receipt, fun entry member => ?_⟩
    rw [removed] at member
    cases member
  · exact .pure holds ⟨retiring, own, durable (by simpa using other) retiring⟩

/-- No receipt is there, and none comes back. -/
def Bare (installId : String) (world : GateWorld) : Prop :=
  ∀ entry, entry ∈ world.directory ∨ entry ∈ world.removed → ¬entry.IsReceipt installId

theorem Bare.kept (bare : Bare installId world) : ReceiptsKept installId start world :=
  fun entry member receipt => absurd receipt (bare entry member)

theorem Bare.stores {transaction : String} {journal : UpdateJournal}
    (unfinished : journal.phase.isTerminal = false) (bare : Bare installId world)
    (stores : Stores transaction journal world later)
    : Bare installId later := by
  obtain @⟨directory, others⟩ := stores
  rintro entry (member | member) receipt
  · rcases (others entry).mp member with ⟨stays, _⟩ | ⟨old, _, _, rfl⟩
    · exact bare entry (.inl stays) receipt
    · obtain ⟨_, _, ⟨written, _⟩, phase⟩ := receipt
      cases written
      rcases phase with phase | phase <;> rw [phase] at unfinished <;> cases unfinished
  · exact bare entry (.inr member) receipt

theorem createJournal_retires {Json : Type} {crates : Crates Json} {current : String}
    {journal : UpdateJournal} (tracked : isTransactionId current = true)
    (unfinished : journal.phase.isTerminal = false)
    (retired : Retired installId windows current start world)
    : Retires installId start (fun _ _ => True) (createJournal crates current journal) world := by
  have keeps : ∀ later, Steady world later → ReceiptsKept installId start later :=
    fun _ steady => (retired.retiring.steady steady).kept
  refine .bind (fun _ final => final = world) (.settled retired.retiring.kept
    (fun _ _ => rfl) fun _ _ => trivial) ?_
  rintro _ world _ rfl
  have under := retired.retiring.held
  refine .bind _ ((loadJournal_performs keeps under tracked (.refl world)).mono
    (fun _ _ _ found => found) fun _ _ _ _ => trivial) ?_
  rintro (_ | journal') loaded holds ⟨steady, absent⟩
  rotate_left
  · exact ⟨holds, trivial⟩
  have bare : ∀ {later}, Steady loaded later → Bare installId later := by
    intro later steady'
    have whole := steady.trans steady'
    rintro entry (member | member) receipt
    · have member := whole.shrinks under entry member receipt.1.1
      exact absent entry member receipt.1.1 (retired.own entry member receipt)
    · rw [whole.removed under] at member
      exact retired.durable entry member receipt
  refine ⟨holds, ?_, ?_⟩
  · rintro final ⟨middle, others, stores⟩
    exact ((bare others.steady).stores unfinished stores).kept
  · rintro answer final ⟨middle, others, stores | ⟨_, rfl⟩⟩
    · refine ⟨((bare others.steady).stores unfinished stores).kept, ?_⟩
      cases answer <;> trivial
    · refine ⟨(bare others.steady).kept, ?_⟩
      cases answer <;> trivial

/-- An apply keeps the receipts as they should be, in every run. -/
theorem beginApply_retires {Json : Type} {crates : Crates Json} {current : String}
    {journal : UpdateJournal} (tracked : isTransactionId current = true)
    (unfinished : journal.phase.isTerminal = false)
    (lasting : windows = true → ∀ entry ∈ start.removed, ¬entry.IsReceipt installId)
    (under : .startup ∈ start.held) (fresh : Unstored start.log)
    : Retires installId start (fun _ _ => True)
        (beginApply ⟨installId⟩ crates windows current journal) start := by
  have retiring : Retiring windows start start :=
    ⟨under, fresh, fun _ member _ => member, fun _ member _ => .inr member,
      fun _ _ member _ => member⟩
  have keeps : ∀ later, Steady start later → ReceiptsKept installId start later :=
    fun _ steady => (retiring.steady steady).kept
  refine .bind (fun _ => Retiring windows start) ?_ ?_
  · refine .bind _ (.adapt ((scanPending_performs keeps under (.refl start)).mono
      (fun _ _ _ found => found.1) fun _ _ _ _ => trivial)) ?_
    rintro (_ | _ | _) scanned holds steady
    · exact .pure holds (retiring.steady steady)
    · exact ⟨holds, trivial⟩
    · exact ⟨holds, trivial⟩
  · intro _ checked _ retiring
    exact .bind _ (retirePriorReceipts_retires lasting retiring) fun _ _ _ retired =>
      createJournal_retires tracked unfinished retired

end Retire

def AtMostOneReceipt (installId : String) (directory : PrivateDir) : Prop :=
  ∀ entry ∈ directory, entry.IsReceipt installId
    → ∀ other ∈ directory, other.IsReceipt installId → entry = other

/-- Two entries of a directory, as a directory of their own. -/
def PrivateDir.pair (entry other : PrivateEntry) (differ : entry.name ≠ other.name) : PrivateDir :=
  ⟨[entry, other], by simp [differ]⟩

/-- What an apply leaves after a stop and a power loss: once its journal was stored, whatever
becomes of that journal, the receipt is the only one; and two receipts are never left where there
was at most one.
-/
structure OneReceipt (installId current : String) (start final : GateWorld) (after : PrivateDir)
    : Prop where
  created : (∃ event ∈ final.log, ∃ transaction, event.step = .stored transaction)
    → ∀ later : PrivateDir, (∀ entry ∈ later, entry ∈ after ∨ entry.name = .text current)
      → AtMostOneReceipt installId later
  kept : (∀ before, start.PowerLoss before → AtMostOneReceipt installId before)
    → AtMostOneReceipt installId after

theorem ReceiptsKept.oneReceipt {installId current : String} {start final : GateWorld}
    {after : PrivateDir} (receipts : ReceiptsKept installId start final)
    (loss : final.PowerLoss after)
    : OneReceipt installId current start final after where
  created := by
    rintro ⟨event, logged, transaction, stored⟩ later same
    have own : ∀ entry ∈ later, entry.IsReceipt installId → entry.name = .text current := by
      intro entry member receipt
      refine (same entry member).resolve_left fun member => ?_
      exact (receipts entry (loss entry member) receipt).2 event logged transaction stored
    exact fun entry member receipt other member' receipt' => PrivateDir.unique member member'
      ((own entry member receipt).trans (own other member' receipt').symm)
  kept single := by
    intro entry member receipt other member' receipt'
    by_cases same : entry.name = other.name
    · exact PrivateDir.unique member member' same
    · have there : start.PowerLoss (PrivateDir.pair entry other same) := by
        intro found listed
        rcases List.mem_pair.mp listed with rfl | rfl
        · exact (receipts _ (loss _ member) receipt).1
        · exact (receipts _ (loss _ member') receipt').1
      exact single _ there entry (List.mem_pair.mpr (.inl rfl)) receipt other
        (List.mem_pair.mpr (.inr rfl)) receipt'

/-- In every run of the gate an application starts only after a clean scan under the startup lease,
with the shared runtime lease, and the runner is called at most once and in order. In every run of
an apply under the startup lease two receipts are never left.
-/
theorem startup_gate_safe {Json : Type} (crates : Crates Json) (installId current : String)
    (windows : Bool) (waitMs : Nat) (journal : UpdateJournal) (directory : PrivateDir)
    (removed : List PrivateEntry) (disk : String → Observed) (held : List LeaseKind)
    (tracked : isTransactionId current = true) (unfinished : journal.phase.isTerminal = false)
    (under : .startup ∈ held)
    (lasting : windows = true → ∀ entry ∈ removed, ¬entry.IsReceipt installId)
    : (∀ ending final,
        Program.Runs (gateOutside installId) (startupGate windows waitMs)
          ⟨directory, removed, disk, [], []⟩ ending final
        → RunnerCalls installId final.log
          ∧ ∀ committed, ending = .finished (.proceed committed)
            → final.held = [.runtimeShared] ∧ Entered installId final.log)
      ∧ ∀ ending final after,
        Program.Runs (gateOutside installId)
          (beginApply ⟨installId⟩ crates windows current journal).run
          ⟨directory, removed, disk, held, []⟩ ending final
        → final.PowerLoss after
        → OneReceipt installId current ⟨directory, removed, disk, held, []⟩ final after := by
  constructor
  · intro ending final runs
    obtain ⟨calls, reached⟩ :=
      (startupGate_ensures rfl (show NoRecovery [] from List.forall_mem_nil _)).sound runs
    exact ⟨calls, fun committed same => reached _ same committed rfl⟩
  · intro ending final after runs loss
    have retires : Retires installId _ (fun _ _ => True)
        (beginApply ⟨installId⟩ crates windows current journal)
        ⟨directory, removed, disk, held, []⟩ :=
      beginApply_retires tracked unfinished lasting under (List.forall_mem_nil _)
    exact (retires.sound runs).1.oneReceipt loss

-- One start and one apply

def PrivateDir.without (directory : PrivateDir) (name : String) : PrivateDir where
  entries := directory.entries.filter (·.name ≠ .text name)
  distinct := (List.Sublist.map _ List.filter_sublist).nodup directory.distinct

/-- The directory with another journal under a name. -/
def PrivateDir.storing (directory : PrivateDir) (name : String) (journal : UpdateJournal)
    : PrivateDir where
  entries := directory.entries.map fun entry =>
    if entry.name = .text name then { entry with journal := .written journal } else entry
  distinct := by
    have same : ∀ entry : PrivateEntry, PrivateEntry.name
        (if entry.name = .text name then { entry with journal := .written journal } else entry)
        = entry.name := by
      intro entry
      split <;> rfl
    simpa only [List.map_map, Function.comp_def, same] using directory.distinct

def PrivateDir.find (directory : PrivateDir) (name : String) : Option PrivateEntry :=
  directory.entries.find? (·.name = .text name)

theorem PrivateDir.find_some {directory : PrivateDir} {name : String} {entry : PrivateEntry}
    (found : directory.find name = some entry)
    : entry ∈ directory ∧ entry.name = .text name :=
  have holds := List.find?_some (p := fun entry : PrivateEntry => entry.name = .text name) found
  ⟨List.mem_of_find?_eq_some found, of_decide_eq_true holds⟩

theorem PrivateDir.find_none {directory : PrivateDir} {name : String}
    (missing : directory.find name = none)
    : ∀ entry ∈ directory, entry.name ≠ .text name := by
  intro entry member named
  exact List.find?_eq_none.mp missing entry member (decide_eq_true named)

def JournalFile.load : JournalFile → Except UpdateError (Option UpdateJournal)
  | absent => .ok none
  | unreadable err => .error err
  | written journal => .ok (some journal)

theorem JournalFile.load_some {file : JournalFile} {journal : UpdateJournal}
    (loaded : file.load = .ok (some journal))
    : file = .written journal := by
  cases file with
  | written found =>
      cases loaded
      rfl
  | absent | unreadable => cases loaded

theorem JournalFile.load_none {file : JournalFile} (loaded : file.load = .ok none)
    : file = .absent := by
  cases file with
  | absent => rfl
  | unreadable | written => cases loaded

/-- An outside without failures and without anybody else. -/
def unhindered (installId : String) (world : GateWorld)
    : (call : GateCall) → call.Answer × GateWorld
  | .existingCoordination => (.ok (some ⟨installId⟩), world)
  | .createCoordination => (.ok ⟨installId⟩, world)
  | .tryAcquire kind => (.ok true, world.acquiring kind)
  | .acquireWithin kind _ => (.ok (), world.acquiring kind)
  | .release kind => ((), world.releasing kind)
  | .readPrivate =>
      (.ok (some ((world.directory.entries.map (·.name)).map .ok)),
        world.logged (.listed world.directory world.disk))
  | .symlinkMetadata name => (.ok ((world.directory.find name).map (·.kind)), world)
  | .loadJournal name =>
      (match world.directory.find name with
        | none => .ok none
        | some entry => entry.journal.load, world)
  | .observe relPath => (.ok (world.disk relPath), world)
  | .sweepSettledAnchors | .cleanupScratch => ((), world)
  | .removeRetiredReceipt _ => (.ok false, world)
  | .discardUnstarted _ => ((), world)
  | .recover transaction => (.ok .nothing, world.logged (.recovered transaction))
  | .ticketFromBinding transaction => (.ok ⟨transaction⟩, world)
  | .hasUnclaimedTicket _ => (false, world)
  | .releaseSecrets _ => (true, world)
  | .removeDirAll name =>
      (.ok (), { world with
        directory := world.directory.without name
        removed := world.directory.entries.filter (·.name = .text name) ++ world.removed })
  | .renameNewDurable _ _ => (.error ⟨.other "AlreadyExists", "file exists", none⟩, world)
  | .syncPrivate => (.ok (), { world with removed := [] })
  | .storeJournal name journal =>
      (.ok (), { world.logged (.stored name) with
        directory := world.directory.storing name journal })

theorem unhindered_allowed (installId : String) (world : GateWorld) (call : GateCall)
    : (gateOutside installId).answers world call (unhindered installId world call).1
        (unhindered installId world call).2 := by
  refine ⟨world, ⟨rfl, rfl, fun _ => .refl _, fun _ => rfl, fun _ => rfl⟩, ?_⟩
  cases call with
  | existingCoordination => exact ⟨fun _ same => by cases same; rfl, rfl⟩
  | createCoordination => exact ⟨fun _ same => by cases same; rfl, rfl⟩
  | readPrivate =>
      refine ⟨fun names same => ?_, rfl⟩
      rw [List.map_injective_iff.mpr (fun _ _ => Except.ok.inj) same]
  | symlinkMetadata name =>
      refine ⟨fun kind same => ?_, fun same => ?_, rfl⟩
      · obtain ⟨entry, found, rfl⟩ := Option.map_eq_some_iff.mp (Except.ok.inj same)
        obtain ⟨member, named⟩ := PrivateDir.find_some found
        exact ⟨entry, member, named, rfl⟩
      · exact PrivateDir.find_none (Option.map_eq_none_iff.mp (Except.ok.inj same))
  | loadJournal name =>
      cases found : world.directory.find name with
      | none =>
          simp only [unhindered, found]
          refine ⟨fun _ same => (nomatch same), fun _ entry member named => ?_, rfl⟩
          exact absurd named (PrivateDir.find_none found entry member)
      | some entry =>
          obtain ⟨member, named⟩ := PrivateDir.find_some found
          simp only [unhindered, found]
          refine ⟨fun journal same => ⟨entry, member, named, JournalFile.load_some same⟩,
            fun same other member' named' => ?_, rfl⟩
          rw [PrivateDir.unique member' member (named'.trans named.symm)]
          exact JournalFile.load_none same
  | removeRetiredReceipt | discardUnstarted => exact ⟨_, .refl _, rfl⟩
  | recover => exact ⟨_, _, _, rfl⟩
  | observe => exact ⟨fun _ same => (Except.ok.inj same).symm, rfl⟩
  | removeDirAll name =>
      have others : ∀ entry, entry ∈ world.directory.without name
          ↔ entry ∈ world.directory ∧ entry.name ≠ .text name :=
        fun entry => List.mem_filter.trans (and_congr_right' decide_eq_true_iff)
      exact ⟨.gone others, fun _ entry member => ((others entry).mp member).2⟩
  | renameNewDurable => exact .inr ⟨nofun, rfl⟩
  | syncPrivate => exact .inl rfl
  | storeJournal name journal =>
      refine .inl (.stored fun entry => ?_)
      refine List.mem_map.trans ⟨?_, ?_⟩
      · rintro ⟨old, member, rfl⟩
        by_cases named : old.name = .text name
        · exact .inr ⟨old, member, named, if_pos named⟩
        · rw [if_neg named]
          exact .inl ⟨member, named⟩
      · rintro (⟨member, other⟩ | ⟨old, member, named, rfl⟩)
        · exact ⟨entry, member, if_neg other⟩
        · exact ⟨old, member, if_pos named⟩
  | _ => exact rfl

/-- The receipt of an earlier update beside the directory of a new transaction. -/
def sampleDirectory : PrivateDir where
  entries :=
    [⟨.text "89abcdef0123456789abcdef01234567", .directory,
      .written { sampleJournal with
        transactionId := "89abcdef0123456789abcdef01234567"
        phase := .committed }⟩,
    ⟨.text sampleJournal.transactionId, .directory, .absent⟩]
  distinct := by decide

/-- With the new version installed a start enters, and the next apply leaves its own receipt only. -/
theorem startup_gate_safe_sample
    : Entered sampleJournal.installId
        (Program.run (unhindered sampleJournal.installId) (startupGate false 30000)
          ⟨sampleDirectory, [], diskOf [("hane.exe", sampleNew)], [], []⟩).2.log
      ∧ AtMostOneReceipt sampleJournal.installId
        (Program.run (unhindered sampleJournal.installId)
          (beginApply ⟨sampleJournal.installId⟩ sampleCrates false sampleJournal.transactionId
            { sampleJournal with phase := .prepared }).run
          ⟨sampleDirectory, [], diskOf [("hane.exe", sampleNew)], [.startup], []⟩).2.directory := by
  obtain ⟨gate, apply⟩ := startup_gate_safe sampleCrates sampleJournal.installId
    sampleJournal.transactionId false 30000 { sampleJournal with phase := .prepared }
    sampleDirectory [] (diskOf [("hane.exe", sampleNew)]) [.startup] (by decide +kernel) rfl
    List.mem_cons_self nofun
  constructor
  · exact ((gate _ _ (Program.runs_run (unhindered_allowed _) _ _)).2 none (by rfl)).2
  · have kept := apply _ _ _ (Program.runs_run (unhindered_allowed _) _ _)
      (fun entry member => .inl member)
    have stored : ∃ older, (Program.run (unhindered sampleJournal.installId)
        (beginApply ⟨sampleJournal.installId⟩ sampleCrates false sampleJournal.transactionId
          { sampleJournal with phase := .prepared }).run
        ⟨sampleDirectory, [], diskOf [("hane.exe", sampleNew)], [.startup], []⟩).2.log
        = ⟨[.startup], .stored sampleJournal.transactionId⟩ :: older := ⟨_, by rfl⟩
    obtain ⟨older, log⟩ := stored
    exact kept.created ⟨_, by rw [log]; exact List.mem_cons_self, _, rfl⟩ _
      fun entry member => .inl member

end Hane.Update
