import Hane.Update.StartupWorld

/-! What a scan of the private directory under the startup lease establishes, whatever fails in it.
-/

namespace Hane.Update

open Hane.Foundations

-- Calls that only look

/-- A listing by a process that holds what it held at the start, of what it found there. -/
def Listing (start : GateWorld) (event : GateEvent) : Prop :=
  ∃ directory disk, event = ⟨start.held, .listed directory disk⟩
    ∧ (.startup ∈ start.held → start.directory.Agrees directory ∧ disk = start.disk)

/-- Nothing but listings happened, and under the startup lease no journal and no installed file
changed.
-/
structure Steady (start world : GateWorld) : Prop where
  held : world.held = start.held
  log : ∃ newer, world.log = newer ++ start.log ∧ ∀ event ∈ newer, Listing start event
  agrees : .startup ∈ start.held → start.directory.Agrees world.directory
  removed : .startup ∈ start.held → world.removed = start.removed
  disk : .startup ∈ start.held → world.disk = start.disk

namespace Steady

variable {start middle world : GateWorld}

theorem refl (start : GateWorld) : Steady start start where
  held := rfl
  log := ⟨[], rfl, fun _ member => nomatch member⟩
  agrees _ := .refl _
  removed _ := rfl
  disk _ := rfl

theorem trans (first : Steady start middle) (second : Steady middle world)
    : Steady start world := by
  obtain ⟨newer, log, listings⟩ := first.log
  obtain ⟨latest, log', listings'⟩ := second.log
  have under : .startup ∈ start.held → .startup ∈ middle.held := fun held => first.held ▸ held
  refine {
    held := second.held.trans first.held
    log := ⟨latest ++ newer, by rw [log', log, List.append_assoc], ?_⟩
    agrees := fun held => (first.agrees held).trans (second.agrees (under held))
    removed := fun held => (second.removed (under held)).trans (first.removed held)
    disk := fun held => (second.disk (under held)).trans (first.disk held) }
  intro event member
  rcases List.mem_append.mp member with member | member
  · obtain ⟨directory, disk, rfl, same⟩ := listings' event member
    refine ⟨directory, disk, by rw [first.held], fun held => ?_⟩
    obtain ⟨agrees, same⟩ := same (under held)
    exact ⟨(first.agrees held).trans agrees, same.trans (first.disk held)⟩
  · exact listings event member

theorem listed (start : GateWorld)
    : Steady start (start.logged (.listed start.directory start.disk)) where
  held := rfl
  log := by
    refine ⟨[_], rfl, fun event member => ?_⟩
    rw [List.mem_singleton.mp member]
    exact ⟨_, _, rfl, fun _ => ⟨.refl _, rfl⟩⟩
  agrees _ := .refl _
  removed _ := rfl
  disk _ := rfl

end Steady

theorem Others.steady {start world : GateWorld} (others : Others start world)
    : Steady start world where
  held := others.held
  log := ⟨[], others.log, fun _ member => nomatch member⟩
  agrees := others.agrees
  removed := others.removed
  disk := others.disk

/-- Calls that take no lease and change nothing that is tracked. -/
def GateCall.IsQuiet : GateCall → Prop
  | .tryAcquire _ | .acquireWithin _ _ | .release _ | .recover _ | .removeDirAll _
  | .renameNewDurable _ _ | .syncPrivate | .storeJournal _ _ => False
  | _ => True

theorem GateCall.IsQuiet.whole {call : GateCall} (quiet : call.IsQuiet) (world after : GateWorld)
    : ¬GateTears world call after := by
  cases call with
  | removeDirAll | renameNewDurable | syncPrivate | storeJournal => exact quiet.elim
  | _ => exact id

/-- A quiet call keeps everything steady, by cases on it. -/
theorem GateCall.IsQuiet.steady {installId : String} {call : GateCall} (quiet : call.IsQuiet)
    {world after : GateWorld} {answer : call.Answer}
    (effect : GateEffect installId world call answer after)
    : Steady world after := by
  cases call with
  | tryAcquire | acquireWithin | release | recover | removeDirAll | renameNewDurable
  | syncPrivate | storeJournal => exact quiet.elim
  | existingCoordination | createCoordination | observe =>
      obtain ⟨_, rfl⟩ := effect
      exact .refl _
  | symlinkMetadata | loadJournal =>
      obtain ⟨_, _, rfl⟩ := effect
      exact .refl _
  | readPrivate =>
      rcases answer with err | _ | found
      · cases effect
        exact .refl _
      · obtain ⟨_, _, rfl⟩ := effect
        exact .listed _
      · obtain ⟨_, rfl⟩ := effect
        exact .listed _
  | removeRetiredReceipt | discardUnstarted =>
      obtain ⟨directory, agrees, rfl⟩ := effect
      exact { Steady.refl world with agrees := fun _ => agrees }
  | sweepSettledAnchors | cleanupScratch | ticketFromBinding | hasUnclaimedTicket
  | releaseSecrets =>
      cases effect
      exact .refl _

section Calls

variable {installId : String} {kept : GateWorld → Prop} {start world : GateWorld}

/-- A call whose answer is looked at, by cases on the answer. -/
theorem looked_performs {ε : Type} {call : GateCall} {fine : call.Answer → GateWorld → Prop}
    {failed : ε → GateWorld → Prop} (holds : kept world)
    (whole : ∀ middle after, ¬GateTears middle call after)
    (answered : ∀ answer middle after, Others world middle
      → GateEffect installId middle call answer after → kept after ∧ fine answer after)
    : Program.Performs (gateOutside installId) kept fine failed (looked call) world := by
  have requested : Program.Ensures (gateOutside installId) kept fine (Program.request call) world := by
    refine ⟨holds, ?_, ?_⟩
    · rintro after ⟨middle, _, tears⟩
      exact (whole middle after tears).elim
    · rintro answer after ⟨middle, others, effect⟩
      exact answered answer middle after others effect
  exact requested.map fun _ _ _ reached => reached

variable (keeps : ∀ world, Steady start world → kept world)
include keeps

theorem quiet_call {ε α : Type} {call : GateCall} (quiet : call.IsQuiet)
    (steady : Steady start world) {program : Gating ε α}
    {fine : α → GateWorld → Prop} {failed : ε → GateWorld → Prop}
    (next : call.Answer → Except ε α)
    (same : program = .mk (next <$> Program.request call))
    (answered : ∀ answer middle final, Steady start middle → Steady start final
      → GateEffect installId middle call answer final
      → Program.byOutcome fine failed (next answer) final)
    : Program.Performs (gateOutside installId) kept fine failed program world := by
  subst same
  have requested : Program.Ensures (gateOutside installId) kept
      (fun answer final => Steady start final
        ∧ ∃ middle, Steady start middle ∧ GateEffect installId middle call answer final)
      (Program.request call) world := by
    refine ⟨keeps world steady, ?_, ?_⟩
    · rintro after ⟨middle, _, tears⟩
      exact (quiet.whole middle after tears).elim
    · rintro answer after ⟨middle, others, effect⟩
      have before := steady.trans others.steady
      have reached := before.trans (quiet.steady effect)
      exact ⟨keeps after reached, reached, middle, before, effect⟩
  exact requested.map fun answer final _ ⟨reached, middle, before, effect⟩ =>
    answered answer middle final before reached effect

theorem quiet_performs {ε : Type} {failed : ε → GateWorld → Prop} {call : GateCall}
    (quiet : call.IsQuiet) (steady : Steady start world)
    : Program.Performs (gateOutside installId) kept
        (fun answer final => Steady start final
          ∧ ∃ middle, Steady start middle ∧ GateEffect installId middle call answer final)
        failed (looked call) world :=
  quiet_call keeps quiet steady Except.ok rfl
    fun _ middle _ before reached effect => ⟨reached, middle, before, effect⟩

theorem readPrivate_performs {world : GateWorld} (steady : Steady start world)
    : Program.Performs (gateOutside installId) kept
        (fun found final => Steady start final
          ∧ (∃ newer, final.log
            = ⟨start.held, .listed final.directory final.disk⟩ :: newer ++ start.log)
          ∧ match found with
            | none => final.directory.entries = [] ∧ final.removed = []
            | some found => ∀ names : List OsText, found = names.map .ok
                → names.Perm (final.directory.entries.map (·.name)))
        (fun _ => Steady start) readPrivate world := by
  refine quiet_call keeps (show GateCall.readPrivate.IsQuiet from trivial) steady id (by rfl) ?_
  intro answer middle final before reached effect
  obtain ⟨newer, log, _⟩ := before.log
  rcases answer with err | _ | found
  · exact reached
  · obtain ⟨empty, durable, rfl⟩ := effect
    exact ⟨reached, ⟨newer, by simp [GateWorld.logged, log, before.held]⟩, empty, durable⟩
  · obtain ⟨listed, rfl⟩ := effect
    exact ⟨reached, ⟨newer, by simp [GateWorld.logged, log, before.held]⟩, listed⟩

variable (under : .startup ∈ start.held)
include under

/-- What `symlink_metadata` says about a name is so of the journaled entry of that name. -/
theorem symlinkMetadata_performs {name : String} (steady : Steady start world)
    : Program.Performs (gateOutside installId) kept
        (fun kind final => Steady start final
          ∧ ∀ entry ∈ start.directory, entry.Journaled → entry.name = .text name
            → entry.kind = kind)
        (fun _ => Steady start) (symlinkMetadata name) world := by
  refine quiet_call keeps (by trivial) steady _ rfl ?_
  intro answer middle final before reached ⟨found, _, same⟩
  rcases answer with err | _ | kind
  · exact reached
  · exact reached
  · refine ⟨reached, fun entry member journaled named => ?_⟩
    obtain ⟨other, member', named', rfl⟩ := found kind rfl
    have there := (before.agrees under _ journaled).mp member
    rw [PrivateDir.unique there member' (named.trans named'.symm)]

theorem loadJournal_performs {name : String} (tracked : isTransactionId name = true)
    (steady : Steady start world)
    : Program.Performs (gateOutside installId) kept
        (fun found final => Steady start final ∧ match found with
          | some journal => ∃ entry ∈ start.directory, entry.Journaled ∧ entry.name = .text name
              ∧ entry.journal = .written journal
          | none => ∀ entry ∈ start.directory, entry.Journaled → entry.name ≠ .text name)
        (fun _ => Steady start) (loadJournal name) world := by
  refine quiet_call keeps (show (GateCall.loadJournal name).IsQuiet from trivial) steady id
    (by rfl) ?_
  intro answer middle final before reached ⟨found, missing, same⟩
  rcases answer with err | _ | journal
  · exact reached
  · refine ⟨reached, fun entry member journaled named => journaled.2 ?_⟩
    exact missing rfl entry ((before.agrees under _ journaled).mp member) named
  · obtain ⟨entry, member, named, written⟩ := found journal rfl
    have journaled : entry.Journaled := ⟨⟨name, named, tracked⟩, by rw [written]; exact nofun⟩
    exact ⟨reached, entry, (before.agrees under _ journaled).mpr member, journaled, named, written⟩

theorem gateObserve_performs {relPath : String} (steady : Steady start world)
    : Program.Performs (gateOutside installId) kept
        (fun observed final => Steady start final ∧ observed = start.disk relPath)
        (fun _ => Steady start) (gateObserve relPath) world := by
  refine quiet_call keeps (show (GateCall.observe relPath).IsQuiet from trivial) steady id
    (by rfl) ?_
  intro answer middle final before reached ⟨found, same⟩
  cases answer with
  | error err => exact reached
  | ok observed => exact ⟨reached, (found observed rfl).trans (congrFun (before.disk under) relPath)⟩

/-- What the gate's observing programs see, under the startup lease. -/
def gateLooking (installId : String) : Determines start.disk gateObserve where
  sees value program := ∀ world, Steady start world
    → Program.Performs (gateOutside installId) kept
        (fun seen final => Steady start final ∧ seen = value) (fun _ => Steady start) program world
  done value world steady := .pure (keeps world steady) ⟨steady, rfl⟩
  bind first second world steady := by
    refine .bind _ (first world steady) ?_
    rintro seen final _ ⟨reached, rfl⟩
    exact second final reached
  observed relPath world steady := gateObserve_performs keeps under steady

end Calls

theorem outcomeOf_performs {installId : String} {kept : GateWorld → Prop} {world : GateWorld}
    {ε ε' α : Type} {fine : α → GateWorld → Prop} {failed : ε → GateWorld → Prop}
    {failing : ε' → GateWorld → Prop} {program : Gating ε α}
    (performs : Program.Performs (gateOutside installId) kept fine failed program world)
    : Program.Performs (gateOutside installId) kept (Program.byOutcome fine failed) failing
        (outcomeOf program) world :=
  Program.Ensures.map performs fun _ _ _ reached => reached

-- What a scan finds

/-- Every tracked journal is a readable one of its own transaction and of this installation, which
`fits`.
-/
def OwnJournals (installId : String) (directory : PrivateDir) (fits : UpdateJournal → Prop) : Prop :=
  ∀ entry ∈ directory, entry.Tracked → ∃ journal, entry.Holds installId journal ∧ fits journal

/-- Nothing is pending or given up, and the only receipt, if there is one, matches the disk. -/
structure Clean (installId : String) (directory : PrivateDir) (disk : String → Observed) : Prop where
  receipts : OwnJournals installId directory fun journal =>
    journal.phase = .committed ∧ decideOn disk journal = .keepNew
      ∨ journal.phase = .rolledBack ∧ decideOn disk journal = .keepOld
  single : ∀ entry ∈ directory, entry.Tracked → ∀ other ∈ directory, other.Tracked → entry = other

/-- A transaction is the only one that is pending. -/
structure SinglePending (installId : String) (directory : PrivateDir) (transaction : String)
    : Prop where
  pending : ∃ entry ∈ directory, entry.Tracked ∧ ∃ journal, entry.Holds installId journal
    ∧ journal.phase.isTerminal = false ∧ journal.transactionId = transaction
  others : OwnJournals installId directory fun journal =>
    journal.transactionId = transaction ∨ journal.phase = .committed ∨ journal.phase = .rolledBack

/-- The tracked journals of the named entries are sorted into the two lists, which hold at least
what they held before; what is new among the pending ones is pending.
-/
structure Sorts (installId : String) (directory : PrivateDir) (names : List (Except IoError OsText))
    (pending pending' : List String) (terminal terminal' : List Terminal) : Prop where
  found : ∀ name, .ok name ∈ names → ∀ entry ∈ directory, entry.name = name → entry.Tracked
    → ∃ journal, entry.Holds installId journal
      ∧ ((journal.phase = .committed ∨ journal.phase = .rolledBack)
          ∧ ⟨journal.transactionId, journal⟩ ∈ terminal'
        ∨ journal.phase.isTerminal = false ∧ journal.transactionId ∈ pending')
  earlier : pending ⊆ pending' ∧ terminal ⊆ terminal'
  native : ∀ receipt ∈ terminal', receipt ∈ terminal ∨ receipt.journal.installId = installId
  pending : ∀ name ∈ pending', name ∈ pending ∨ ∃ entry ∈ directory, entry.Tracked
    ∧ ∃ journal, entry.Holds installId journal ∧ journal.phase.isTerminal = false
      ∧ journal.transactionId = name

namespace Sorts

variable {installId : String} {directory : PrivateDir} {names : List (Except IoError OsText)}
  {pending pending' : List String} {terminal terminal' : List Terminal} {name : OsText}

theorem nil (installId : String) (directory : PrivateDir) (pending : List String)
    (terminal : List Terminal)
    : Sorts installId directory [] pending pending terminal terminal where
  found _ member := nomatch member
  earlier := ⟨List.Subset.refl _, List.Subset.refl _⟩
  native _ member := .inl member
  pending _ member := .inl member

theorem skip (rest : Sorts installId directory names pending pending' terminal terminal')
    (untracked : ∀ entry ∈ directory, entry.name = name → ¬entry.Tracked)
    : Sorts installId directory (.ok name :: names) pending pending' terminal terminal' where
  found other member entry member' named tracked := by
    rcases List.mem_cons.mp member with same | member
    · cases same
      exact absurd tracked (untracked entry member' named)
    · exact rest.found other member entry member' named tracked
  earlier := rest.earlier
  native := rest.native
  pending := rest.pending

variable {entry : PrivateEntry} {journal : UpdateJournal} (member : entry ∈ directory)
  (holds : entry.Holds installId journal) (named : entry.name = name)
include member holds named

theorem receipt
    (rest : Sorts installId directory names pending pending'
      (terminal ++ [⟨journal.transactionId, journal⟩]) terminal')
    (phase : journal.phase = .committed ∨ journal.phase = .rolledBack)
    : Sorts installId directory (.ok name :: names) pending pending' terminal terminal' where
  found other listed entry' member' named' tracked := by
    rcases List.mem_cons.mp listed with same | listed
    · cases same
      obtain rfl := PrivateDir.unique member' member (named'.trans named.symm)
      exact ⟨journal, holds, .inl ⟨phase, rest.earlier.2 (by simp)⟩⟩
    · exact rest.found other listed entry' member' named' tracked
  earlier := ⟨rest.earlier.1, fun _ member => rest.earlier.2 (List.mem_append_left _ member)⟩
  native other listed := by
    rcases rest.native other listed with before | native
    · rcases List.mem_append.mp before with before | added
      · exact .inl before
      · rw [List.mem_singleton.mp added]
        exact .inr holds.2.2
    · exact .inr native
  pending := rest.pending

theorem unfinished (tracked : entry.Tracked)
    (rest : Sorts installId directory names (pending ++ [journal.transactionId]) pending'
      terminal terminal')
    (phase : journal.phase.isTerminal = false)
    : Sorts installId directory (.ok name :: names) pending pending' terminal terminal' where
  found other listed entry' member' named' tracked := by
    rcases List.mem_cons.mp listed with same | listed
    · cases same
      obtain rfl := PrivateDir.unique member' member (named'.trans named.symm)
      exact ⟨journal, holds, .inr ⟨phase, rest.earlier.1 (by simp)⟩⟩
    · exact rest.found other listed entry' member' named' tracked
  earlier := ⟨fun _ member => rest.earlier.1 (List.mem_append_left _ member), rest.earlier.2⟩
  native := rest.native
  pending other listed := by
    rcases rest.pending other listed with before | found
    · rcases List.mem_append.mp before with before | added
      · exact .inl before
      · rw [List.mem_singleton.mp added]
        exact .inr ⟨entry, member, tracked, journal, holds, phase, rfl⟩
    · exact .inr found

end Sorts

theorem transactionName_some {name : OsText} {transaction : String}
    (named : transactionName name = some transaction)
    : name = .text transaction ∧ isTransactionId transaction = true := by
  unfold transactionName at named
  cases name with
  | other raw => cases named
  | text content =>
      obtain ⟨same, tracked⟩ := Option.filter_eq_some_iff.mp named
      cases same
      exact ⟨rfl, tracked⟩

theorem transactionName_none {name : OsText} (unnamed : transactionName name = none)
    {entry : PrivateEntry} (named : entry.name = name)
    : ¬entry.Journaled := by
  rintro ⟨⟨transaction, named', tracked⟩, _⟩
  rw [← named, named'] at unnamed
  exact Option.filter_eq_none_iff.mp unnamed transaction rfl tracked

/-- What the loop over the entries gives: a reason to stop, or everything sorted. -/
def Sorted.Sound (installId : String) (directory : PrivateDir)
    (names : List (Except IoError OsText)) (pending : List String) (terminal : List Terminal)
    : Sorted → Prop
  | .problem (.transaction _) => False
  | .problem (.stop _) => True
  | .sorted pending' terminal' =>
      (∀ name ∈ names, ∃ text, name = .ok text)
        ∧ Sorts installId directory names pending pending' terminal terminal'

theorem exists_texts {names : List (Except IoError OsText)}
    (read : ∀ name ∈ names, ∃ text, name = .ok text)
    : ∃ texts : List OsText, names = texts.map .ok := by
  induction names with
  | nil => exact ⟨[], rfl⟩
  | cons name rest ih =>
      obtain ⟨⟨text, rfl⟩, others⟩ := List.forall_mem_cons.mp read
      obtain ⟨texts, rfl⟩ := ih others
      exact ⟨text :: texts, rfl⟩

/-- What the outcome of a scan says about what was listed in it. -/
def Verdict (installId : String) (directory : PrivateDir) (disk : String → Observed)
    : Option Pending → Prop
  | none => Clean installId directory disk
  | some (.transaction transaction) => SinglePending installId directory transaction
  | some (.stop _) => True

section Scan

variable {installId : String} {kept : GateWorld → Prop} {start : GateWorld}
  (keeps : ∀ world, Steady start world → kept world) (under : .startup ∈ start.held)
include keeps under

/-- The loop sorts every tracked journal it is shown, by induction over the entries. -/
theorem scanEntries_performs (names : List (Except IoError OsText)) {pending : List String}
    {terminal : List Terminal} {world : GateWorld} (steady : Steady start world)
    : Program.Performs (gateOutside installId) kept
        (fun found final => Steady start final
          ∧ found.Sound installId start.directory names pending terminal)
        (fun _ => Steady start) (scanEntries ⟨installId⟩ names pending terminal) world := by
  induction names generalizing pending terminal world with
  | nil => exact .pure (keeps world steady) ⟨steady, nofun, .nil _ _ _ _⟩
  | cons name rest ih =>
      cases name with
      | error err => exact ⟨keeps world steady, steady⟩
      | ok name =>
          -- The rest sorts what it is given; `extends` adds the entry at the front.
          have onward : ∀ {before : List String} {ended : List Terminal} {world : GateWorld},
              Steady start world
              → (∀ {pending' terminal'},
                Sorts installId start.directory rest before pending' ended terminal'
                → Sorts installId start.directory (.ok name :: rest) pending pending'
                    terminal terminal')
              → Program.Performs (gateOutside installId) kept
                  (fun found final => Steady start final
                    ∧ found.Sound installId start.directory (.ok name :: rest) pending terminal)
                  (fun _ => Steady start) (scanEntries ⟨installId⟩ rest before ended) world := by
            intro before ended world steady extends_
            refine (ih steady).mono ?_ fun _ _ _ steady => steady
            rintro ((_ | _) | ⟨pending', terminal'⟩) final _ ⟨reached, sorts⟩
            · exact ⟨reached, sorts⟩
            · exact ⟨reached, sorts⟩
            · exact ⟨reached, List.forall_mem_cons.mpr ⟨⟨name, rfl⟩, sorts.1⟩, extends_ sorts.2⟩
          refine .bind (fun entry final => entry = name ∧ final = world)
            (.settled (keeps world steady) (fun value same => by cases same; exact ⟨rfl, rfl⟩) nofun) ?_
          rintro entry world _ ⟨rfl, rfl⟩
          cases named : transactionName entry with
          | none =>
              exact onward steady fun sorts => sorts.skip fun _ _ same tracked =>
                transactionName_none named same tracked.1
          | some transaction =>
              obtain ⟨rfl, tracked⟩ := transactionName_some named
              refine .bind _ (symlinkMetadata_performs keeps under steady) ?_
              rintro kind world _ ⟨steady, kinds⟩
              refine .ite (fun other => ?_) fun directory => ?_
              · refine onward steady fun sorts => sorts.skip fun entry member same tracked => ?_
                exact other ((kinds entry member tracked.1 same).symm.trans tracked.2)
              · refine .bind _ (outcomeOf_performs (loadJournal_performs keeps under tracked steady)) ?_
                rintro (err | _ | journal) world _ reached
                · exact .pure (keeps world reached) ⟨reached, trivial⟩
                · obtain ⟨steady, missing⟩ := reached
                  exact onward steady fun sorts => sorts.skip fun entry member same tracked =>
                    missing entry member tracked.1 same
                · obtain ⟨steady, entry, member, journaled, same, written⟩ := reached
                  refine .ite (fun _ => .pure (keeps world steady) ⟨steady, trivial⟩) fun own => ?_
                  obtain ⟨own, native⟩ := not_or.mp own
                  have own := not_ne_iff.mp own
                  subst own
                  have holds : entry.Holds installId journal :=
                    ⟨written, same, not_ne_iff.mp native⟩
                  have there : entry.Tracked :=
                    ⟨journaled, (kinds entry member journaled same).trans (not_ne_iff.mp directory)⟩
                  cases phase : journal.phase with
                  | committed | rolledBack =>
                      exact onward steady fun sorts =>
                        sorts.receipt member holds same (by simp [phase])
                  | recoveryRequired => exact .pure (keeps world steady) ⟨steady, trivial⟩
                  | prepared | exitAuthorized | applying | awaitingHealth | rollingBack =>
                      exact onward steady fun sorts =>
                        sorts.unfinished member holds same there (by simp [phase, Phase.isTerminal])

theorem checkTerminal_performs {journal : UpdateJournal} {world : GateWorld} (name : String)
    (native : journal.installId = installId) (steady : Steady start world)
    : Program.Performs (gateOutside installId) kept
        (fun found final => Steady start final ∧ match found with
          | some (.transaction _) => False
          | some (.stop _) => True
          | none => journal.phase = .committed ∧ decideOn start.disk journal = .keepNew
              ∨ journal.phase = .rolledBack ∧ decideOn start.disk journal = .keepOld)
        (fun _ => Steady start) (checkTerminal ⟨installId⟩ name journal) world := by
  subst native
  refine .bind _ (outcomeOf_performs
    ((gateLooking keeps under journal.installId).decideRecovery journal world steady)) ?_
  rintro (err | decision) world _ reached
  · exact .pure (keeps world reached) ⟨reached, trivial⟩
  · obtain ⟨steady, rfl⟩ := reached
    refine .pure (keeps world steady) ⟨steady, ?_⟩
    generalize decideOn start.disk journal = decision
    unfold terminalProblem
    cases phase : journal.phase <;> cases decision <;> simp [journalProblem]

/-- A scan, under the startup lease, of what it lists. -/
theorem scanPending_performs {world : GateWorld} (steady : Steady start world)
    : Program.Performs (gateOutside installId) kept
        (fun found final => Steady start final ∧ ∃ newer directory disk,
          final.log = newer ++ start.log ∧ (∀ event ∈ newer, Listing start event)
            ∧ ⟨start.held, .listed directory disk⟩ ∈ newer
            ∧ Verdict installId directory disk found)
        (fun _ => Steady start) (scanPending ⟨installId⟩) world := by
  refine .bind _ (readPrivate_performs keeps steady) ?_
  rintro names listing _ ⟨reached, ⟨older, log⟩, listed⟩
  have keeps' : ∀ world, Steady listing world → kept world :=
    fun world after => keeps world (reached.trans after)
  have under' : .startup ∈ listing.held := reached.held ▸ under
  -- The listing stays in the log, whatever is looked at behind it.
  have conclude : ∀ {found final}, Steady listing final
      → Verdict installId listing.directory listing.disk found
      → Steady start final ∧ ∃ newer directory disk,
        final.log = newer ++ start.log ∧ (∀ event ∈ newer, Listing start event)
          ∧ ⟨start.held, .listed directory disk⟩ ∈ newer
          ∧ Verdict installId directory disk found := by
    intro found final after verdict
    have whole := reached.trans after
    obtain ⟨newer, log', listings⟩ := whole.log
    obtain ⟨latest, grown, _⟩ := after.log
    refine ⟨whole, newer, _, _, log', listings, ?_, verdict⟩
    rw [grown, log, ← List.append_assoc] at log'
    rw [← List.append_cancel_right log']
    simp
  cases names with
  | none =>
      have empty : ∀ entry, entry ∉ listing.directory := fun entry member => by
        have member : entry ∈ listing.directory.entries := member
        rw [listed.1] at member
        cases member
      exact .pure (keeps listing reached) (conclude (.refl _)
        ⟨fun entry member => absurd member (empty entry),
          fun entry member => absurd member (empty entry)⟩)
  | some names =>
      refine .bind _ ((scanEntries_performs keeps' under' names (.refl _)).mono
        (fun _ _ _ sorted => sorted) fun _ _ _ after => reached.trans after) ?_
      rintro ((transaction | why) | ⟨pending, terminal⟩) final _ ⟨after, sound⟩
      · exact sound.elim
      · exact .pure (keeps' final after) (conclude after trivial)
      obtain ⟨read, sorts⟩ := sound
      obtain ⟨texts, rfl⟩ := exists_texts read
      have all : ∀ entry ∈ listing.directory, entry.Tracked → ∃ journal,
          entry.Holds installId journal
            ∧ ((journal.phase = .committed ∨ journal.phase = .rolledBack)
                ∧ ⟨journal.transactionId, journal⟩ ∈ terminal
              ∨ journal.phase.isTerminal = false ∧ journal.transactionId ∈ pending) := by
        intro entry member tracked
        have named : entry.name ∈ texts :=
          (listed texts rfl).mem_iff.mpr (List.mem_map_of_mem member)
        exact sorts.found entry.name (List.mem_map_of_mem named) entry member rfl tracked
      rcases pending with _ | ⟨name, _ | ⟨second, more⟩⟩
      · rcases terminal with _ | ⟨latest, _ | ⟨second, more⟩⟩
        · have untracked : ∀ entry ∈ listing.directory, ¬entry.Tracked := by
            intro entry member tracked
            obtain ⟨journal, _, ⟨_, there⟩ | ⟨_, there⟩⟩ := all entry member tracked <;> cases there
          exact .pure (keeps' final after) (conclude after
            ⟨fun entry member tracked => absurd tracked (untracked entry member),
              fun entry member tracked => absurd tracked (untracked entry member)⟩)
        · have native : latest.journal.installId = installId := by
            rcases sorts.native latest List.mem_cons_self with there | native
            · cases there
            · exact native
          have own : ∀ entry ∈ listing.directory, entry.Tracked
              → entry.Holds installId latest.journal := by
            intro entry member tracked
            obtain ⟨journal, holds, ⟨_, there⟩ | ⟨_, there⟩⟩ := all entry member tracked
            · rw [← List.mem_singleton.mp there]
              exact holds
            · cases there
          refine (checkTerminal_performs keeps' under' latest.name native after).mono ?_
            fun _ _ _ after => reached.trans after
          rintro (_ | _ | _) final _ ⟨after, matched⟩
          · exact conclude after ⟨fun entry member tracked => ⟨_, own entry member tracked, matched⟩,
              fun entry member tracked other member' tracked' => PrivateDir.unique member member'
                ((own entry member tracked).2.1.trans (own other member' tracked').2.1.symm)⟩
          · exact matched.elim
          · exact conclude after trivial
        · exact .pure (keeps' final after) (conclude after trivial)
      · refine .pure (keeps' final after) (conclude after ⟨?_, ?_⟩)
        · rcases sorts.pending name List.mem_cons_self with there | found
          · cases there
          · exact found
        · intro entry member tracked
          obtain ⟨journal, holds, ⟨phase, _⟩ | ⟨_, there⟩⟩ := all entry member tracked
          · exact ⟨journal, holds, .inr phase⟩
          · exact ⟨journal, holds, .inl (List.mem_singleton.mp there)⟩
      · exact .pure (keeps' final after) (conclude after trivial)

end Scan

end Hane.Update
