import Hane.Session.Installing
import Mathlib.Data.List.Nodup
import Mathlib.Logic.Relation

/-! What a process that died in a save leaves beside the target, and what a later one makes of
it.
-/

namespace Hane.Session

open Hane.Foundations

-- Saves, crashes and deletions of one path

/-- What a save began with: the version at the target, and how many versions had been installed
there so far.
-/
structure Origin (Version : Type) where
  version : Option Version
  installs : Nat
  deriving DecidableEq

/-- A version that a recovery put back at the target, with the origin of the save that had set it
aside and the number of installs at the time of the recovery.
-/
structure Restoration (Version : Type) where
  version : Version
  origin : Origin Version
  installs : Nat
  deriving DecidableEq

/-- The disk with its history: the origin of the save under way once it is past its recovery, the
names it set versions aside under, and the origins of all displaced files.
-/
structure Shelf (Version : Type) where
  disk : Disk Version
  installs : Nat
  begun : Option (Origin Version)
  mine : List DisplacedName
  origins : DisplacedName → Option (Origin Version)
  restored : List (Restoration Version)

namespace Shelf

variable {Version : Type}

def start (target : Option Version) : Shelf Version where
  disk := ⟨target, none, fun _ => none⟩
  installs := 0
  begun := none
  mine := []
  origins _ := none
  restored := []

/-- The user deletes the file. -/
def delete (shelf : Shelf Version) : Shelf Version :=
  { shelf with disk := { shelf.disk with target := none } }

def setsAside (shelf : Shelf Version) (aside : DisplacedName) : Shelf Version :=
  { shelf with
    mine := aside :: shelf.mine
    origins := Function.update shelf.origins aside shelf.begun }

/-- A version came back from under a displaced name; outside a save that is a recovery. -/
def restores (shelf : Shelf Version) (aside : DisplacedName) : Shelf Version :=
  match shelf.begun, shelf.disk.displaced aside, shelf.origins aside with
  | none, some version, some origin =>
    { shelf with restored := ⟨version, origin, shelf.installs⟩ :: shelf.restored }
  | _, _, _ => shelf

/-- What a call adds to the history. The look at the target is the first step of a save after
its recovery.
-/
def notes (shelf : Shelf Version) : (call : DiskCall) → call.Answer → Shelf Version
  | .targetIsDirectory, _ => { shelf with begun := some ⟨shelf.disk.target, shelf.installs⟩ }
  | .hardLink aside, .ok () => shelf.setsAside aside
  | .moveAside aside, .ok () => shelf.setsAside aside
  | .replace, .ok () => { shelf with installs := shelf.installs + 1 }
  | .install, .ok () => { shelf with installs := shelf.installs + 1 }
  | .restore aside, .ok () => shelf.restores aside
  | _, _ => shelf

/-- A step of a save or a recovery. -/
def after (shelf : Shelf Version) (call : DiskCall) (answer : call.Answer) (disk : Disk Version)
    : Shelf Version :=
  { shelf.notes call answer with disk }

def ended (shelf : Shelf Version) : Shelf Version := { shelf with begun := none, mine := [] }

end Shelf

/-- Each step comes after any number of deletions and meets the condition. -/
def shelfOutside {Version : Type} (condition : Shelf Version → DiskCall → Prop)
    : Outside (Shelf Version) DiskCall.Answer where
  answers shelf call answer final :=
    ∃ before disk,
      (before = shelf ∨ before = shelf.delete)
      ∧ condition before call
      ∧ DiskAnswers before.disk call answer disk
      ∧ final = before.after call answer disk
  tears _ _ _ := False

/-- One save up to its end or a crash anywhere in it, one recovery for a load, or a deletion. -/
inductive Shelf.Step {Version : Type} (condition : Shelf Version → DiskCall → Prop)
    (ends : Shelf Version → Prop) (shelf : Shelf Version) : Shelf Version → Prop where
  | save {shows : ShowsName} {path : String} {pid : Nat} {pins createParent : Bool}
      {ending : Ending (Except SaveFailure Unit)} {final : Shelf Version}
      (runs : Program.Runs (shelfOutside condition)
        (atomicWriteChecked shows path pid pins createParent) shelf ending final)
      (ended : ends final)
      : Step condition ends shelf final.ended
  | load {pid : Nat} {ending : Ending Bool} {final : Shelf Version}
      (runs : Program.Runs (shelfOutside condition) (recoverDisplacedFile pid) shelf ending final)
      : Step condition ends shelf final
  | delete : Step condition ends shelf shelf.delete

/-- No version is installed while a displaced file of an earlier save is on the disk. -/
def NoneLeft {Version : Type} (shelf : Shelf Version) : DiskCall → Prop
  | .replace | .install => ∀ name, (shelf.disk.displaced name).isSome → name ∈ shelf.mine
  | _ => True

/-- A save that installed its version left no displaced file of its own. -/
def CleanedUp {Version : Type} (shelf : Shelf Version) : Prop :=
  ∀ origin, shelf.begun = some origin → origin.installs < shelf.installs
    → ∀ name ∈ shelf.mine, shelf.disk.displaced name = none

/-- Every recovery put back the version its save began with, and none was installed since. -/
def Shelf.Faithful {Version : Type} (shelf : Shelf Version) : Prop :=
  ∀ restoration ∈ shelf.restored,
    restoration.origin = ⟨some restoration.version, restoration.installs⟩

-- What one step leaves true

namespace Shelf

variable {Version : Type} {shelf : Shelf Version}

/-- Every displaced file is the version its save began with, and none was installed since. -/
def Current (shelf : Shelf Version) : Prop :=
  ∀ name version, shelf.disk.displaced name = some version
    → shelf.origins name = some ⟨some version, shelf.installs⟩

/-- Between saves, and in a recovery. -/
structure Rest (shelf : Shelf Version) : Prop where
  idle : shelf.begun = none
  none_mine : shelf.mine = []
  current : shelf.Current
  faithful : shelf.Faithful

/-- In a save that has not installed its version, the target is what it began with or gone. -/
structure Unchanged (origin : Origin Version) (shelf : Shelf Version) : Prop where
  installs : shelf.installs = origin.installs
  target : shelf.disk.target = origin.version ∨ shelf.disk.target = none
  current : shelf.Current
  own : ∀ name ∈ shelf.mine, ∀ version, shelf.disk.displaced name = some version
    → origin.version = some version

/-- In a save that has, the displaced files are its own. -/
structure Installed (origin : Origin Version) (shelf : Shelf Version) : Prop where
  installs : origin.installs < shelf.installs
  own : ∀ name, (shelf.disk.displaced name).isSome → name ∈ shelf.mine

/-- In a save. -/
structure During (shelf : Shelf Version) : Prop where
  faithful : shelf.Faithful
  phase : ∃ origin, shelf.begun = some origin
    ∧ (Unchanged origin shelf ∨ Installed origin shelf)

theorem Rest.delete (rest : shelf.Rest) : shelf.delete.Rest :=
  ⟨rest.idle, rest.none_mine, rest.current, rest.faithful⟩

theorem During.delete (during : shelf.During) : shelf.delete.During := by
  obtain ⟨origin, begun, phase⟩ := during.phase
  refine ⟨during.faithful, origin, begun, ?_⟩
  rcases phase with unchanged | installed
  · exact .inl ⟨unchanged.installs, .inr rfl, unchanged.current, unchanged.own⟩
  · exact .inr ⟨installed.installs, installed.own⟩

/-- Files that only go away leave the rest current. -/
theorem Current.fewer (current : shelf.Current) {disk : Disk Version}
    (fewer : ∀ name version, disk.displaced name = some version
      → shelf.disk.displaced name = some version)
    : Current { shelf with disk } :=
  fun name version found => current name version (fewer name version found)

theorem displaced_of_removed {disk : Disk Version} {aside name : DisplacedName}
    {version : Version} (found : (disk.setDisplaced aside none).displaced name = some version)
    : disk.displaced name = some version := by
  by_cases same : name = aside
  · subst same
    rw [show (disk.setDisplaced name none).displaced name = none from
      Function.update_self _ _ _] at found
    cases found
  · rwa [show (disk.setDisplaced aside none).displaced name = disk.displaced name from
      Function.update_of_ne same _ _] at found

/-- A step that leaves the target and the history alone, and takes at most displaced files away.
-/
theorem During.fewer {call : DiskCall} {answer : call.Answer} {disk : Disk Version}
    (during : shelf.During) (silent : shelf.notes call answer = shelf)
    (target : disk.target = shelf.disk.target)
    (fewer : ∀ name version, disk.displaced name = some version
      → shelf.disk.displaced name = some version)
    : (shelf.after call answer disk).During := by
  have after : shelf.after call answer disk = { shelf with disk } := by
    unfold Shelf.after
    rw [silent]
  rw [after]
  obtain ⟨origin, begun, phase⟩ := during.phase
  refine ⟨during.faithful, origin, begun, ?_⟩
  rcases phase with unchanged | installed
  · refine .inl ⟨unchanged.installs, ?_, unchanged.current.fewer fewer, ?_⟩
    · rw [show ({ shelf with disk } : Shelf Version).disk.target = shelf.disk.target from target]
      exact unchanged.target
    · intro name mine version found
      exact unchanged.own name mine version (fewer name version found)
  · refine .inr ⟨installed.installs, ?_⟩
    intro name found
    obtain ⟨version, found⟩ := Option.isSome_iff_exists.mp found
    exact installed.own name (Option.isSome_of_eq_some (fewer name version found))

theorem displaced_of_set {disk : Disk Version} {aside name : DisplacedName}
    {version moved : Version}
    (found : (disk.setDisplaced aside (some moved)).displaced name = some version)
    : (name = aside ∧ moved = version) ∨ (name ≠ aside ∧ disk.displaced name = some version) := by
  by_cases same : name = aside
  · subst same
    rw [show (disk.setDisplaced name (some moved)).displaced name = some moved from
      Function.update_self _ _ _] at found
    exact .inl ⟨rfl, Option.some.inj found⟩
  · rw [show (disk.setDisplaced aside (some moved)).displaced name = disk.displaced name from
      Function.update_of_ne same _ _] at found
    exact .inr ⟨same, found⟩

theorem During.setsAside {aside : DisplacedName} {version : Version} (during : shelf.During)
    (found : shelf.disk.target = some version) {target : Option Version}
    (left : target = shelf.disk.target ∨ target = none)
    : During { shelf.setsAside aside with
        disk := { shelf.disk.setDisplaced aside (some version) with target } } := by
  obtain ⟨origin, begun, phase⟩ := during.phase
  refine ⟨during.faithful, origin, begun, ?_⟩
  rcases phase with unchanged | installed
  · have began : origin.version = some version := by
      rcases unchanged.target with same | gone
      · rw [← same, found]
      · rw [gone] at found
        cases found
    have stays : target = origin.version ∨ target = none := by
      rcases left with same | gone
      · exact .inl (same.trans (found.trans began.symm))
      · exact .inr gone
    refine .inl ⟨unchanged.installs, stays, ?_, ?_⟩
    · intro name other displaced
      rcases displaced_of_set displaced with ⟨rfl, rfl⟩ | ⟨elsewhere, displaced⟩
      · have whole : (⟨some version, shelf.installs⟩ : Origin Version) = origin := by
          rw [unchanged.installs, ← began]
        exact (Function.update_self _ _ _).trans (begun.trans (congrArg some whole.symm))
      · exact (Function.update_of_ne elsewhere _ _).trans
          (unchanged.current name other displaced)
    · intro name mine other displaced
      rcases displaced_of_set displaced with ⟨_, rfl⟩ | ⟨elsewhere, displaced⟩
      · exact began
      · rcases List.mem_cons.mp mine with same | mine
        · exact absurd same elsewhere
        · exact unchanged.own name mine other displaced
  · refine .inr ⟨installed.installs, ?_⟩
    intro name displaced
    obtain ⟨other, displaced⟩ := Option.isSome_iff_exists.mp displaced
    rcases displaced_of_set displaced with ⟨same, _⟩ | ⟨_, displaced⟩
    · exact List.mem_cons.mpr (.inl same)
    · exact List.mem_cons_of_mem _ (installed.own name (Option.isSome_of_eq_some displaced))

theorem During.installs (during : shelf.During)
    (own : ∀ name, (shelf.disk.displaced name).isSome → name ∈ shelf.mine)
    (target temporary : Option Version)
    : During { shelf with
        installs := shelf.installs + 1
        disk := { shelf.disk with target, temporary } } := by
  obtain ⟨origin, begun, phase⟩ := during.phase
  have earlier : origin.installs ≤ shelf.installs := by
    rcases phase with unchanged | installed
    · exact Nat.le_of_eq unchanged.installs.symm
    · exact Nat.le_of_lt installed.installs
  exact ⟨during.faithful, origin, begun, .inr ⟨Nat.lt_succ_of_le earlier, own⟩⟩

/-- A version of the save's own put back. -/
theorem During.restores {aside : DisplacedName} {version : Version} (during : shelf.During)
    (mine : aside ∈ shelf.mine) (found : shelf.disk.displaced aside = some version)
    : During { shelf.restores aside with
        disk := { shelf.disk.setDisplaced aside none with target := some version } } := by
  obtain ⟨origin, begun, phase⟩ := during.phase
  have silent : shelf.restores aside = shelf := by
    unfold Shelf.restores
    rw [begun]
  rw [silent]
  refine ⟨during.faithful, origin, begun, ?_⟩
  rcases phase with unchanged | installed
  · refine .inl ⟨unchanged.installs, .inl (unchanged.own aside mine version found).symm, ?_, ?_⟩
    · intro name other displaced
      exact unchanged.current name other (displaced_of_removed displaced)
    · intro name mine other displaced
      exact unchanged.own name mine other (displaced_of_removed displaced)
  · refine .inr ⟨installed.installs, ?_⟩
    intro name displaced
    obtain ⟨other, displaced⟩ := Option.isSome_iff_exists.mp displaced
    exact installed.own name (Option.isSome_of_eq_some (displaced_of_removed displaced))

/-- A recovery puts back a version that is current. -/
theorem Rest.restores {aside : DisplacedName} {version : Version} (rest : shelf.Rest)
    (found : shelf.disk.displaced aside = some version)
    : Rest { shelf.restores aside with
        disk := { shelf.disk.setDisplaced aside none with target := some version } } := by
  have origin := rest.current aside version found
  have noted : shelf.restores aside
      = { shelf with
          restored := ⟨version, ⟨some version, shelf.installs⟩, shelf.installs⟩
            :: shelf.restored } := by
    simp only [Shelf.restores, rest.idle, found, origin]
  rw [noted]
  refine ⟨rest.idle, rest.none_mine, ?_, List.forall_mem_cons.mpr ⟨rfl, rest.faithful⟩⟩
  intro name other displaced
  exact rest.current name other (displaced_of_removed displaced)

/-- The first step of a save after its recovery. -/
theorem Rest.begins (rest : shelf.Rest)
    : During { shelf with begun := some ⟨shelf.disk.target, shelf.installs⟩ } := by
  refine ⟨rest.faithful, _, rfl, .inl ⟨rfl, .inl rfl, rest.current, ?_⟩⟩
  intro name own
  have own : name ∈ shelf.mine := own
  rw [rest.none_mine] at own
  cases own

theorem Rest.look {call : DiskCall} {answer : call.Answer} (rest : shelf.Rest)
    (silent : shelf.notes call answer = shelf)
    : (shelf.after call answer shelf.disk).Rest := by
  have after : shelf.after call answer shelf.disk = shelf := by
    unfold Shelf.after
    rw [silent]
  rwa [after]

/-- A save that cleaned up, or did not install, leaves the displaced files current. -/
theorem During.ended (during : shelf.During) (cleaned : CleanedUp shelf)
    : shelf.ended.Rest := by
  obtain ⟨origin, begun, phase⟩ := during.phase
  refine ⟨rfl, rfl, ?_, during.faithful⟩
  rcases phase with unchanged | installed
  · exact unchanged.current
  · intro name version displaced
    have mine := installed.own name (Option.isSome_of_eq_some displaced)
    rw [show shelf.ended.disk.displaced name = none from
      cleaned origin begun installed.installs name mine] at displaced
    cases displaced

-- The programs

/-- What holds whenever a process may die. -/
def Sound (shelf : Shelf Version) : Prop := shelf.Rest ∨ shelf.During

/-- A program keeps the history sound, and has a property where it is done. -/
abbrev Keeps {α : Type} (post : Shelf Version → Prop) (program : DiskProgram α)
    (shelf : Shelf Version) : Prop :=
  Program.Ensures (shelfOutside NoneLeft) Sound (fun _ => post) program shelf

theorem Keeps.step {α : Type} {post : Shelf Version → Prop} {call : DiskCall}
    {next : call.Answer → DiskProgram α} (property : Shelf Version → Prop)
    (deletes : ∀ shelf, property shelf → property shelf.delete) (holds : property shelf)
    (sound : shelf.Sound)
    (onward : ∀ before answer disk, property before → NoneLeft before call
      → DiskAnswers before.disk call answer disk
      → Keeps post (next answer) (before.after call answer disk))
    : Keeps post (ask call >>= next) shelf := by
  refine ⟨sound, fun _ never => never.elim, ?_⟩
  intro answer final ⟨before, disk, deleted, condition, answers, same⟩
  subst same
  refine onward before answer disk ?_ condition answers
  rcases deleted with rfl | rfl
  · exact holds
  · exact deletes _ holds

theorem Keeps.finished {α : Type} {post : Shelf Version → Prop} {value : α}
    (sound : shelf.Sound) (holds : post shelf)
    : Keeps post (pure value : DiskProgram α) shelf :=
  ⟨sound, holds⟩

theorem Keeps.within {call : DiskCall}
    {next : call.Answer → DiskProgram (Except SaveFailure Unit)} (during : shelf.During)
    (onward : ∀ (before : Shelf Version) answer disk, before.During → NoneLeft before call
      → DiskAnswers before.disk call answer disk
      → Keeps During (next answer) (before.after call answer disk))
    : Keeps During (ask call >>= next) shelf :=
  Keeps.step During (fun _ => During.delete) during (.inr during) onward

theorem Keeps.aside {call : DiskCall} (aside : DisplacedName)
    {next : call.Answer → DiskProgram (Except SaveFailure Unit)} (during : shelf.During)
    (mine : aside ∈ shelf.mine)
    (onward : ∀ (before : Shelf Version) answer disk, before.During → aside ∈ before.mine
      → NoneLeft before call → DiskAnswers before.disk call answer disk
      → Keeps During (next answer) (before.after call answer disk))
    : Keeps During (ask call >>= next) shelf :=
  Keeps.step (fun shelf => shelf.During ∧ aside ∈ shelf.mine)
    (fun _ both => ⟨both.1.delete, both.2⟩) ⟨during, mine⟩ (.inr during)
    fun before answer disk both => onward before answer disk both.1 both.2

theorem Keeps.done {outcome : Except SaveFailure Unit} (during : shelf.During)
    : Keeps During (pure outcome) shelf :=
  ⟨.inr during, during⟩

theorem During.look {call : DiskCall} {answer : call.Answer} (during : shelf.During)
    (silent : shelf.notes call answer = shelf)
    : (shelf.after call answer shelf.disk).During :=
  during.fewer silent rfl fun _ _ found => found

theorem During.removed {aside : DisplacedName} {answer : Unit} {disk : Disk Version}
    (during : shelf.During) (answers : DiskAnswers shelf.disk (.removeDisplaced aside) answer disk)
    : (shelf.after (.removeDisplaced aside) answer disk).During := by
  cases answers with
  | removed => exact during.fewer rfl rfl fun _ _ found => displaced_of_removed found
  | notRemoved => exact during.look rfl

theorem During.written (during : shelf.During) (version : Version)
    : (shelf.after .writeTemporary (.ok ())
        { shelf.disk with temporary := some version }).During :=
  during.fewer rfl rfl fun _ _ found => found

theorem restoreDisplaced_keeps {shows : ShowsName} {aside : DisplacedName}
    {failure : SaveFailure} (during : shelf.During) (mine : aside ∈ shelf.mine)
    : Keeps During (restoreDisplaced shows aside failure) shelf := by
  refine Keeps.aside aside during mine ?_
  intro before answer disk during mine _ answers
  cases answers with
  | restored found free => exact Keeps.done (during.restores mine found)
  | notRestored => exact Keeps.done (during.look rfl)

theorem installMissing_keeps {retry : DiskProgram (Except SaveFailure Unit)}
    (retries : ∀ {shelf : Shelf Version}, shelf.During → Keeps During retry shelf)
    (during : shelf.During)
    : Keeps During (installMissing retry) shelf := by
  refine Keeps.within during ?_
  intro before answer disk during _ answers
  cases answers with
  | checked =>
      cases answer with
      | error failure => exact Keeps.done (during.look rfl)
      | ok =>
          refine Keeps.within (during.look rfl) ?_
          intro before answer disk during noneLeft answers
          cases answers with
          | installed => exact Keeps.done (during.installs noneLeft _ _)
          | notInstalled =>
              rename_i error _
              by_cases again : error.kind = .alreadyExists
              · simpa only [again, if_true] using retries (during.look rfl)
              · simpa only [again, if_false] using Keeps.done (during.look rfl)

theorem installPinned_keeps {aside : DisplacedName}
    {retry : DiskProgram (Except SaveFailure Unit)}
    (retries : ∀ {shelf : Shelf Version}, shelf.During → Keeps During retry shelf)
    (during : shelf.During)
    : Keeps During (installPinned aside retry) shelf := by
  refine Keeps.within during ?_
  intro before answer disk during _ answers
  cases answers with
  | checked =>
      cases answer with
      | error failure =>
          refine Keeps.within (during.look rfl) ?_
          intro before answer disk during _ answers
          exact Keeps.done (during.removed answers)
      | ok =>
          refine Keeps.within (during.look rfl) ?_
          intro before answer disk during _ answers
          cases answers with
          | notSame =>
              refine Keeps.within (during.look rfl) ?_
              intro before answer disk during _ answers
              exact retries (during.removed answers)
          | same =>
              refine Keeps.within (during.look rfl) ?_
              intro before answer disk during noneLeft answers
              have swapped : (before.after .replace answer disk).During := by
                cases answers with
                | replaced => exact during.installs noneLeft _ _
                | notReplaced => exact during.look rfl
              refine Keeps.within swapped ?_
              intro before answer disk during _ answers
              exact Keeps.done (during.removed answers)

theorem installMoved_keeps {shows : ShowsName} {aside : DisplacedName}
    {retry : DiskProgram (Except SaveFailure Unit)}
    (retries : ∀ {shelf : Shelf Version}, shelf.During → Keeps During retry shelf)
    (during : shelf.During)
    : Keeps During (installMoved shows aside retry) shelf := by
  refine Keeps.within during ?_
  intro before answer disk during _ answers
  cases answers with
  | notMoved =>
      rename_i error _
      by_cases missing : error.kind = .notFound
      · simpa only [missing, if_true] using installMissing_keeps retries (during.look rfl)
      · simpa only [missing, if_false] using Keeps.done (during.look rfl)
  | moved found free =>
      refine Keeps.aside aside (during.setsAside found (.inr rfl)) List.mem_cons_self ?_
      intro before answer disk during mine _ answers
      cases answers with
      | checked =>
          cases answer with
          | error failure => exact restoreDisplaced_keeps (during.look rfl) mine
          | ok =>
              refine Keeps.aside aside (during.look rfl) mine ?_
              intro before answer disk during mine noneLeft answers
              cases answers with
              | installed =>
                  refine Keeps.within (during.installs noneLeft _ _) ?_
                  intro before answer disk during _ answers
                  exact Keeps.done (during.removed answers)
              | notInstalled =>
                  rename_i error _
                  by_cases again : error.kind = .alreadyExists
                  · simp only [again, if_true]
                    refine Keeps.within (during.look rfl) ?_
                    intro before answer disk during _ answers
                    exact retries (during.removed answers)
                  · simpa only [again, if_false]
                      using restoreDisplaced_keeps (during.look rfl) mine

/-- All rounds, by induction on the attempts left. -/
theorem installCheckedWith_keeps (shows : ShowsName) (pid : Nat) (pins : Bool) (attempts : Nat)
    (during : shelf.During)
    : Keeps During (installCheckedWith shows pid pins attempts) shelf := by
  induction attempts generalizing shelf with
  | zero => exact Keeps.done during
  | succ attempts ih =>
      refine Keeps.within during ?_
      intro before sequence disk during _ answers
      cases answers
      cases pins with
      | false => exact installMoved_keeps ih (during.look rfl)
      | true =>
          refine Keeps.within (during.look rfl) ?_
          intro before answer disk during _ answers
          cases answers with
          | linked found free => exact installPinned_keeps ih (during.setsAside found (.inl rfl))
          | notLinked =>
              rename_i error _
              dsimp only
              by_cases missing : error.kind = .notFound
              · simpa only [missing, if_true] using installMissing_keeps ih (during.look rfl)
              · simpa only [missing, if_false] using installMoved_keeps ih (during.look rfl)

/-- A step outside a save. -/
theorem Keeps.idle {α : Type} {post : Shelf Version → Prop} {call : DiskCall}
    {next : call.Answer → DiskProgram α} (rest : shelf.Rest)
    (onward : ∀ (before : Shelf Version) answer disk, before.Rest
      → DiskAnswers before.disk call answer disk
      → Keeps post (next answer) (before.after call answer disk))
    : Keeps post (ask call >>= next) shelf :=
  Keeps.step Rest (fun _ => Rest.delete) rest (.inl rest)
    fun before answer disk rest _ => onward before answer disk rest

/-- A recovery never leaves a save under way, also where it is stopped. -/
abbrev Recovers {α : Type} (program : DiskProgram α) (shelf : Shelf Version) : Prop :=
  Program.Ensures (shelfOutside NoneLeft) Rest (fun _ => Rest) program shelf

theorem Recovers.step {α : Type} {call : DiskCall} {next : call.Answer → DiskProgram α}
    (rest : shelf.Rest)
    (onward : ∀ (before : Shelf Version) answer disk, before.Rest
      → DiskAnswers before.disk call answer disk
      → Recovers (next answer) (before.after call answer disk))
    : Recovers (ask call >>= next) shelf := by
  refine ⟨rest, fun _ never => never.elim, ?_⟩
  intro answer final ⟨before, disk, deleted, _, answers, same⟩
  subst same
  refine onward before answer disk ?_ answers
  rcases deleted with rfl | rfl
  · exact rest
  · exact rest.delete

theorem Recovers.done {α : Type} {value : α} (rest : shelf.Rest)
    : Recovers (pure value : DiskProgram α) shelf :=
  ⟨rest, rest⟩

theorem recoverDisplacedFile_recovers (pid : Nat) (rest : shelf.Rest)
    : Recovers (recoverDisplacedFile pid) shelf := by
  refine Recovers.step rest ?_
  intro before present disk rest answers
  cases answers
  split
  · exact Recovers.done (rest.look rfl)
  refine Recovers.step (rest.look rfl) ?_
  intro before listing disk rest answers
  cases answers with
  | notListed => exact Recovers.done (rest.look rfl)
  | displacedFiles =>
      dsimp only
      split
      · exact Recovers.done (rest.look rfl)
      split
      · refine Recovers.step (rest.look rfl) ?_
        intro before answer disk rest answers
        cases answers with
        | restored found free => exact Recovers.done (rest.restores found)
        | notRestored => exact Recovers.done (rest.look rfl)
      · exact Recovers.done (rest.look rfl)

theorem removeTemporary_keeps {outcome : Except SaveFailure Unit} (during : shelf.During)
    : Keeps During (do
        let () ← ask .removeTemporary
        return outcome) shelf := by
  refine Keeps.within during ?_
  intro before answer disk during _ answers
  cases answers with
  | removedTemporary => exact Keeps.done (during.fewer rfl rfl fun _ _ found => found)
  | keptTemporary => exact Keeps.done (during.look rfl)

theorem writeAndInstall_keeps (shows : ShowsName) (pid : Nat) (pins : Bool)
    (during : shelf.During)
    : Keeps During (writeAndInstall shows pid pins) shelf := by
  refine Keeps.within during ?_
  intro before answer disk during _ answers
  cases answers with
  | notWritten => exact removeTemporary_keeps (during.look rfl)
  | written =>
      rename_i version
      have during := during.written version
      refine (installCheckedWith_keeps shows pid pins maxInstallAttempts during).bind ?_
      intro outcome shelf _ during
      cases outcome with
      | ok => exact Keeps.done during
      | error failure => exact removeTemporary_keeps during

theorem recoverAndWrite_keeps (shows : ShowsName) (path : String) (pid : Nat) (pins : Bool)
    (rest : shelf.Rest)
    : Keeps Sound (recoverAndWrite shows path pid pins) shelf := by
  refine ((recoverDisplacedFile_recovers pid rest).weaken fun _ => .inl).bind ?_
  intro _ shelf _ rest
  refine Keeps.idle rest ?_
  intro before directory disk rest answers
  cases answers
  split
  · exact Keeps.finished (.inr rest.begins) (.inr rest.begins)
  · exact (writeAndInstall_keeps shows pid pins rest.begins).mono fun _ _ _ during => .inr during

theorem atomicWriteChecked_keeps (shows : ShowsName) (path : String) (pid : Nat)
    (pins createParent : Bool) (rest : shelf.Rest)
    : Keeps Sound (atomicWriteChecked shows path pid pins createParent) shelf := by
  unfold atomicWriteChecked
  split
  · refine Keeps.idle rest ?_
    intro before created disk rest answers
    cases answers
    cases created with
    | error error => exact Keeps.finished (.inl (rest.look rfl)) (.inl (rest.look rfl))
    | ok => exact recoverAndWrite_keeps shows path pid pins (rest.look rfl)
  · exact recoverAndWrite_keeps shows path pid pins rest

/-- Saves that end well, recoveries and deletions leave the displaced files current. -/
theorem Rest.step {final : Shelf Version} (rest : shelf.Rest)
    (step : Step NoneLeft CleanedUp shelf final)
    : final.Rest := by
  cases step with
  | delete => exact rest.delete
  | load runs => exact ((recoverDisplacedFile_recovers _ rest).sound runs).1
  | save runs cleaned =>
      rcases ((atomicWriteChecked_keeps _ _ _ _ _ rest).sound runs).1 with rest | during
      · exact ⟨rfl, rfl, rest.current, rest.faithful⟩
      · exact during.ended cleaned

/-- In every sequence of saves, crashes, loads and deletions, a recovery puts back only the
version its save began with, and only while no other one has been installed, as long as no
version is installed beside a displaced file of an earlier save and every save that installs
removes its own before it ends.
-/
theorem recoveries_faithful {target : Option Version} {final : Shelf Version}
    (run : Relation.ReflTransGen (Step NoneLeft CleanedUp) (start target) final)
    : final.Faithful := by
  have rest : final.Rest := by
    induction run with
    | refl => exact ⟨rfl, rfl, (fun _ _ none => nomatch none), List.forall_mem_nil _⟩
    | tail _ step ih => exact ih.step step
  exact rest.faithful

/-- Any displaced file of another process comes back to a missing target when it is the only one:
a load cannot tell how old it is.
-/
theorem load_restores (condition : Shelf Version → DiskCall → Prop) (pid : Nat)
    {shelf : Shelf Version} {name : DisplacedName} {version : Version}
    (looks : ∀ shelf, condition shelf .targetExists)
    (lists : ∀ shelf, condition shelf .displacedFiles)
    (restores : ∀ shelf, condition shelf (.restore name))
    (missing : shelf.disk.target = none)
    (displaced : shelf.disk.displaced = Function.update (fun _ => none) name (some version))
    (other : name.pid ≠ pid)
    : Program.Runs (shelfOutside condition) (recoverDisplacedFile pid) shelf (.finished true)
        { shelf.restores name with
          disk := { shelf.disk.setDisplaced name none with target := some version } } := by
  have found : shelf.disk.displaced name = some version := by
    rw [displaced, Function.update_self]
  have listing : shelf.disk.Lists [(name, true)] := by
    refine ⟨List.nodup_singleton name, ?_⟩
    intro listed
    rw [displaced]
    by_cases same : listed = name
    · simp [same]
    · simp [same]
  have gone : shelf.disk.target.isSome = false := by rw [missing]; rfl
  have others : [(name, true)].any (fun entry => entry.1.pid = pid) = false := by
    simpa using other
  have looked := DiskAnswers.targetExists shelf.disk
  rw [gone] at looked
  refine .step ⟨shelf, shelf.disk, .inl rfl, looks shelf, looked, rfl⟩ ?_
  refine .step ⟨shelf, shelf.disk, .inl rfl, lists shelf, .displacedFiles listing, rfl⟩ ?_
  simp only [Program.bind, others, Bool.false_eq_true, if_false]
  exact .step ⟨shelf, _, .inl rfl, restores shelf, .restored found missing, rfl⟩
    (.finish true _)

/-- A process that dies between the two renames leaves the version it moved aside, and the next
load puts that one back.
-/
theorem recoveries_faithful_moved
    : ∃ final : Shelf Nat,
        final.restored = [⟨0, ⟨some 0, 0⟩, 0⟩] ∧ final.Faithful := by
  obtain ⟨crashed, runs, cleaned, displaced, missing, restored⟩ :
      ∃ crashed : Shelf Nat,
        Program.Runs (shelfOutside NoneLeft)
          (atomicWriteChecked (fun _ => "") "" 7 false false) (start (some 0)) .stopped crashed
        ∧ CleanedUp crashed
        ∧ crashed.disk.displaced = Function.update (fun _ => none) ⟨7, 0⟩ (some 0)
        ∧ crashed.disk.target = none
        ∧ (crashed.ended.restores ⟨7, 0⟩).restored = [⟨0, ⟨some 0, 0⟩, 0⟩] :=
    ⟨_,
      .step ⟨_, _, .inl rfl, trivial, .targetExists _, rfl⟩ <|
      .step ⟨_, _, .inl rfl, trivial, .targetIsDirectory _ false, rfl⟩ <|
      .step ⟨_, _, .inl rfl, trivial, .written _ 1, rfl⟩ <|
      .step ⟨_, _, .inl rfl, trivial, .nextSequence _ 0, rfl⟩ <|
      .step ⟨_, _, .inl rfl, trivial, .moved rfl rfl, rfl⟩ <|
      .stop _ _,
      (by
        intro origin begun installed
        obtain rfl := Option.some.inj begun
        exact absurd installed (Nat.lt_irrefl 0)),
      rfl, rfl, rfl⟩
  have load := load_restores NoneLeft 8 (fun _ => trivial) (fun _ => trivial) (fun _ => trivial)
    (show crashed.ended.disk.target = none from missing) displaced (by decide)
  refine ⟨_, ?_, recoveries_faithful
    ((Relation.ReflTransGen.single (.save runs cleaned)).tail (.load load))⟩
  exact restored

/-- A process that dies after the replacing rename leaves the pinned old version; once the user
deletes the new one, the next load brings the old one back.
-/
theorem recovery_brings_back_old_version
    : ∃ final : Shelf Nat,
        Relation.ReflTransGen (Step (fun _ _ => True) fun _ => True) (start (some 0)) final
        ∧ final.disk.target = some 0
        ∧ final.restored = [⟨0, ⟨some 0, 0⟩, 1⟩] := by
  obtain ⟨crashed, runs, displaced, restored⟩ :
      ∃ crashed : Shelf Nat,
        Program.Runs (shelfOutside fun _ _ => True)
          (atomicWriteChecked (fun _ => "") "" 7 true false) (start (some 0)) .stopped crashed
        ∧ crashed.disk.displaced = Function.update (fun _ => none) ⟨7, 0⟩ (some 0)
        ∧ (crashed.ended.delete.restores ⟨7, 0⟩).restored = [⟨0, ⟨some 0, 0⟩, 1⟩] :=
    ⟨_,
      .step ⟨_, _, .inl rfl, trivial, .targetExists _, rfl⟩ <|
      .step ⟨_, _, .inl rfl, trivial, .targetIsDirectory _ false, rfl⟩ <|
      .step ⟨_, _, .inl rfl, trivial, .written _ 1, rfl⟩ <|
      .step ⟨_, _, .inl rfl, trivial, .nextSequence _ 0, rfl⟩ <|
      .step ⟨_, _, .inl rfl, trivial, .linked rfl rfl, rfl⟩ <|
      .step ⟨_, _, .inl rfl, trivial, .checked _ _ (.ok ()), rfl⟩ <|
      .step ⟨_, _, .inl rfl, trivial, .same rfl rfl, rfl⟩ <|
      .step ⟨_, _, .inl rfl, trivial, .replaced rfl, rfl⟩ <|
      .stop _ _,
      rfl, rfl⟩
  have load := load_restores (fun _ _ => True) 8 (fun _ => trivial) (fun _ => trivial)
    (fun _ => trivial) (show crashed.ended.delete.disk.target = none from rfl) displaced
    (by decide)
  exact ⟨_, ((Relation.ReflTransGen.single (.save runs trivial)).tail .delete).tail (.load load),
    rfl, restored⟩

end Shelf

end Hane.Session
