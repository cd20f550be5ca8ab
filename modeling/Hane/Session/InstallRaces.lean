import Hane.Session.Installing
import Mathlib.Logic.Relation

/-! A save against writers that replace, create or delete the target between any two of its
steps.
-/

namespace Hane.Session

open Hane.Foundations

-- Races

/-- The disk with what happened to the target since the save began: the versions that were
there, those that passed a check, those another writer took away and did not put back, and the
last one a step of the save found there.
-/
structure Race (Version : Type) where
  disk : Disk Version
  seen : List Version
  passed : List Version
  dropped : List Version
  held : Option Version

def DiskCall.onTarget : DiskCall → Bool
  | hardLink _ | check .target | sameFile _ | replace | install | moveAside _ | restore _ => true
  | _ => false

namespace Race

variable {Version : Type} [DecidableEq Version]

def start (disk : Disk Version) : Race Version where
  disk
  seen := disk.target.toList
  passed := []
  dropped := []
  held := none

/-- Another writer puts a version at the target, or nothing. -/
def write (race : Race Version) (new : Option Version) : Race Version :=
  { race with
    disk := { race.disk with target := new }
    seen := new.toList ++ race.seen
    dropped := (race.disk.target.toList ++ race.dropped).filter fun version =>
      new ≠ some version }

/-- What other writers do between two steps of the save. -/
abbrev Writes : Race Version → Race Version → Prop :=
  Relation.ReflTransGen fun before after => ∃ new, after = before.write new

/-- The versions a call lets pass. -/
def passes (race : Race Version) : (call : DiskCall) → call.Answer → List Version
  | .check place, .ok () => (race.disk.at? place).toList
  | _, _ => []

/-- A step of the save. -/
def after (race : Race Version) (call : DiskCall) (answer : call.Answer) (disk : Disk Version)
    : Race Version where
  disk
  seen := disk.target.toList ++ race.seen
  passed := race.passes call answer ++ race.passed
  dropped := race.dropped
  held := if call.onTarget then race.disk.target.or race.held else race.held

/-- The version is still at the target, or another writer took it away. -/
def There (race : Race Version) (version : Version) : Prop :=
  race.disk.target = some version ∨ version ∈ race.dropped

/-- The save did not lose the version. -/
def Kept (race : Race Version) (version : Version) : Prop :=
  race.There version ∨ ∃ name, race.disk.displaced name = some version

/-- No version that was at the target is lost without a check. -/
def Safe (race : Race Version) : Prop :=
  ∀ version ∈ race.seen, version ∈ race.passed ∨ race.Kept version

/-- The version the save found last is not lost. -/
def HeldKept (race : Race Version) : Prop :=
  ∀ version, race.held = some version → race.Kept version

end Race

/-- Each step of the save comes after any number of writes and meets the condition. -/
def raceOutside {Version : Type} [DecidableEq Version]
    (condition : Race Version → DiskCall → Prop)
    : Outside (Race Version) DiskCall.Answer where
  answers race call answer final :=
    ∃ before disk,
      race.Writes before
      ∧ condition before call
      ∧ DiskAnswers before.disk call answer disk
      ∧ final = before.after call answer disk
  tears _ _ _ := False

/-- The replacing rename finds nothing at the target that no check let pass. -/
def Undisturbed {Version : Type} (race : Race Version) : DiskCall → Prop
  | .replace => ∀ version, race.disk.target = some version → version ∈ race.passed
  | _ => True

-- What the other writers leave true

namespace Race

variable {Version : Type} {race : Race Version}

/-- What the last step found has not been moved by the save since. -/
def HeldThere (race : Race Version) : Prop :=
  ∀ version, race.held = some version → race.There version

def AsidePassed (race : Race Version) (aside : DisplacedName) : Prop :=
  ∀ version, race.disk.displaced aside = some version → version ∈ race.passed

section Writers

variable [DecidableEq Version]

theorem There.write {version : Version} (there : race.There version) (new : Option Version)
    : (race.write new).There version := by
  by_cases same : new = some version
  · exact .inl same
  · refine .inr (List.mem_filter.mpr ⟨?_, by simpa using same⟩)
    rcases there with found | dropped
    · exact List.mem_append_left _ (by simp [found])
    · exact List.mem_append_right _ dropped

theorem Kept.write {version : Version} (kept : race.Kept version) (new : Option Version)
    : (race.write new).Kept version := by
  rcases kept with there | aside
  · exact .inl (there.write new)
  · exact .inr aside

theorem Safe.write (safe : race.Safe) (new : Option Version) : (race.write new).Safe := by
  intro version seen
  rcases List.mem_append.mp seen with written | seen
  · exact .inr (.inl (.inl (Option.mem_toList.mp written)))
  · rcases safe version seen with passed | kept
    · exact .inl passed
    · exact .inr (kept.write new)

theorem HeldKept.write (held : race.HeldKept) (new : Option Version)
    : (race.write new).HeldKept :=
  fun version found => (held version found).write new

/-- A property no writer can break, so that it holds until the next step of the save. -/
def Stable (property : Race Version → Prop) : Prop :=
  ∀ race new, property race → property (race.write new)

theorem Stable.writes {property : Race Version → Prop} (stable : Stable property)
    {before after : Race Version} (writes : before.Writes after) (holds : property before)
    : property after := by
  induction writes with
  | refl => exact holds
  | tail _ write ih =>
      obtain ⟨new, rfl⟩ := write
      exact stable _ new ih

theorem HeldThere.write (held : race.HeldThere) (new : Option Version)
    : (race.write new).HeldThere :=
  fun version found => (held version found).write new

end Writers

-- What a step of the save leaves true

theorem HeldThere.kept (held : race.HeldThere) : race.HeldKept :=
  fun version found => .inl (held version found)

section After

variable {call : DiskCall} {answer : call.Answer} {disk : Disk Version}

theorem Safe.after (safe : race.Safe)
    (keeps : ∀ version, race.Kept version
      → version ∈ race.passed ∨ (race.after call answer disk).Kept version)
    : (race.after call answer disk).Safe := by
  intro version seen
  rcases List.mem_append.mp seen with found | seen
  · exact .inr (.inl (.inl (Option.mem_toList.mp found)))
  · rcases safe version seen with passed | kept
    · exact .inl (List.mem_append_right _ passed)
    · rcases keeps version kept with passed | kept
      · exact .inl (List.mem_append_right _ passed)
      · exact .inr kept

theorem held_after {version : Version} (found : (race.after call answer disk).held = some version)
    : race.disk.target = some version ∨ race.held = some version := by
  simp only [Race.after] at found
  split at found
  · rcases Option.or_eq_some_iff.mp found with target | ⟨_, held⟩
    · exact .inl target
    · exact .inr held
  · exact .inr found

theorem HeldKept.after (held : race.HeldKept)
    (keeps : ∀ version, race.Kept version → (race.after call answer disk).Kept version)
    : (race.after call answer disk).HeldKept := by
  intro version found
  rcases held_after found with target | earlier
  · exact keeps version (.inl (.inl target))
  · exact keeps version (held version earlier)

theorem Safe.look (safe : race.Safe) : (race.after call answer race.disk).Safe :=
  safe.after fun _ kept => .inr kept

theorem HeldKept.look (held : race.HeldKept) : (race.after call answer race.disk).HeldKept :=
  held.after fun _ kept => kept

theorem HeldThere.look (held : race.HeldThere)
    : (race.after call answer race.disk).HeldThere := by
  intro version found
  rcases held_after found with target | earlier
  · exact .inl target
  · exact held version earlier

theorem AsidePassed.after {aside : DisplacedName} (passed : race.AsidePassed aside)
    (same : disk.displaced aside = race.disk.displaced aside)
    : (race.after call answer disk).AsidePassed aside := by
  intro version found
  exact List.mem_append_right _ (passed version (same ▸ found))

end After

theorem asidePassed_check {aside : DisplacedName}
    : (race.after (.check (.displaced aside)) (.ok ()) race.disk).AsidePassed aside :=
  fun _ found => List.mem_append_left _ (Option.mem_toList.mpr found)

theorem Kept.link {aside : DisplacedName} {version linked : Version} (kept : race.Kept version)
    (free : race.disk.displaced aside = none)
    : (race.after (.hardLink aside) (.ok ())
        (race.disk.setDisplaced aside (some linked))).Kept version := by
  rcases kept with there | ⟨name, found⟩
  · exact .inl there
  · have other : name ≠ aside := by
      rintro rfl
      rw [free] at found
      cases found
    exact .inr ⟨name, (Function.update_of_ne other _ _).trans found⟩

theorem Kept.install {version new : Version} (kept : race.Kept version)
    (free : race.disk.target = none)
    : (race.after .install (.ok ())
        { race.disk with target := some new, temporary := none }).Kept version := by
  rcases kept with (found | dropped) | aside
  · rw [free] at found
    cases found
  · exact .inl (.inr dropped)
  · exact .inr aside

theorem Kept.moveAside {aside : DisplacedName} {version moved : Version}
    (kept : race.Kept version) (found : race.disk.target = some moved)
    (free : race.disk.displaced aside = none)
    : (race.after (.moveAside aside) (.ok ())
        { race.disk.setDisplaced aside (some moved) with target := none }).Kept version := by
  rcases kept with (target | dropped) | ⟨name, elsewhere⟩
  · obtain rfl := Option.some.inj (found.symm.trans target)
    exact .inr ⟨aside, Function.update_self _ _ _⟩
  · exact .inl (.inr dropped)
  · have other : name ≠ aside := by
      rintro rfl
      rw [free] at elsewhere
      cases elsewhere
    exact .inr ⟨name, (Function.update_of_ne other _ _).trans elsewhere⟩

theorem Kept.restore {aside : DisplacedName} {version restored : Version}
    (kept : race.Kept version) (found : race.disk.displaced aside = some restored)
    (free : race.disk.target = none)
    : (race.after (.restore aside) (.ok ())
        { race.disk.setDisplaced aside none with target := some restored }).Kept version := by
  rcases kept with (target | dropped) | ⟨name, elsewhere⟩
  · rw [free] at target
    cases target
  · exact .inl (.inr dropped)
  · by_cases same : name = aside
    · subst same
      obtain rfl := Option.some.inj (found.symm.trans elsewhere)
      exact .inl (.inl rfl)
    · exact .inr ⟨name, (Function.update_of_ne same _ _).trans elsewhere⟩

theorem Kept.remove {aside : DisplacedName} {version : Version} (kept : race.Kept version)
    (spare : race.disk.displaced aside = some version → race.There version)
    : (race.after (.removeDisplaced aside) ()
        (race.disk.setDisplaced aside none)).Kept version := by
  rcases kept with there | ⟨name, elsewhere⟩
  · exact .inl there
  · by_cases same : name = aside
    · subst same
      exact .inl (spare elsewhere)
    · exact .inr ⟨name, (Function.update_of_ne same _ _).trans elsewhere⟩

/-- Between rounds nothing is known but that nothing is lost. -/
structure Calm (race : Race Version) : Prop where
  safe : race.Safe
  held : race.HeldKept

theorem Calm.look {call : DiskCall} {answer : call.Answer} (calm : race.Calm)
    : (race.after call answer race.disk).Calm :=
  ⟨calm.safe.look, calm.held.look⟩

theorem Calm.after {call : DiskCall} {answer : call.Answer} {disk : Disk Version}
    (calm : race.Calm)
    (keeps : ∀ version, race.Kept version → (race.after call answer disk).Kept version)
    : (race.after call answer disk).Calm :=
  ⟨calm.safe.after fun version kept => .inr (keeps version kept), calm.held.after keeps⟩

theorem Calm.install (calm : race.Calm) (free : race.disk.target = none) (new : Version)
    : (race.after .install (.ok ())
        { race.disk with target := some new, temporary := none }).Calm :=
  calm.after fun _ kept => kept.install free

theorem Calm.moveAside {aside : DisplacedName} {version : Version} (calm : race.Calm)
    (found : race.disk.target = some version) (free : race.disk.displaced aside = none)
    : (race.after (.moveAside aside) (.ok ())
        { race.disk.setDisplaced aside (some version) with target := none }).Calm :=
  calm.after fun _ kept => kept.moveAside found free

/-- The file set aside is not needed: what it holds is still at the target, another writer took
it away, or it passed a check.
-/
structure Spare (race : Race Version) (aside : DisplacedName) : Prop where
  safe : race.Safe
  held : race.HeldThere
  spare : ∀ version, race.disk.displaced aside = some version
    → version ∈ race.passed ∨ race.There version

theorem Spare.look {call : DiskCall} {answer : call.Answer} {aside : DisplacedName}
    (spare : race.Spare aside)
    : (race.after call answer race.disk).Spare aside := by
  refine ⟨spare.safe.look, spare.held.look, ?_⟩
  intro version found
  rcases spare.spare version found with passed | there
  · exact .inl (List.mem_append_right _ passed)
  · exact .inr there

theorem Calm.pinned {aside : DisplacedName} {version : Version} (calm : race.Calm)
    (found : race.disk.target = some version) (free : race.disk.displaced aside = none)
    : (race.after (.hardLink aside) (.ok ())
        (race.disk.setDisplaced aside (some version))).Spare aside := by
  refine ⟨calm.safe.after fun _ kept => .inr (kept.link free), ?_, ?_⟩
  · intro held same
    have same : race.disk.target.or race.held = some held := same
    rw [found, Option.some_or] at same
    exact .inl (found.trans same)
  · intro linked same
    have same : Function.update race.disk.displaced aside (some version) aside = some linked :=
      same
    rw [Function.update_self] at same
    exact .inr (.inl (found.trans same))

/-- Removing a file whose version passed or is still there, whether or not that succeeds. -/
theorem Safe.removed {aside : DisplacedName} {answer : Unit} {disk : Disk Version}
    (safe : race.Safe)
    (spare : ∀ version, race.disk.displaced aside = some version
      → version ∈ race.passed ∨ race.There version)
    (answers : DiskAnswers race.disk (.removeDisplaced aside) answer disk)
    : (race.after (.removeDisplaced aside) answer disk).Safe := by
  cases answers with
  | notRemoved => exact safe.look
  | removed =>
      refine safe.after ?_
      intro version kept
      by_cases holds : race.disk.displaced aside = some version
      · rcases spare version holds with passed | there
        · exact .inl passed
        · exact .inr (.inl there)
      · exact .inr (kept.remove fun found => absurd found holds)

theorem Spare.removed {aside : DisplacedName} {answer : Unit} {disk : Disk Version}
    (spare : race.Spare aside)
    (answers : DiskAnswers race.disk (.removeDisplaced aside) answer disk)
    : (race.after (.removeDisplaced aside) answer disk).Calm := by
  have held : (race.after (.removeDisplaced aside) answer disk).HeldThere := by
    cases answers <;> exact spare.held
  exact ⟨spare.safe.removed spare.spare answers, held.kept⟩

/-- A replacing rename that finds only what a check let pass. -/
theorem Safe.replace (safe : race.Safe) (new : Version)
    (undisturbed : Undisturbed race .replace)
    : (race.after .replace (.ok ())
        { race.disk with target := some new, temporary := none }).Safe := by
  refine safe.after ?_
  intro version kept
  rcases kept with (found | dropped) | aside
  · exact .inl (undisturbed version found)
  · exact .inr (.inl (.inr dropped))
  · exact .inr (.inr aside)

-- The programs

variable [DecidableEq Version]

theorem Safe.stable : Stable (Safe : Race Version → Prop) := fun _ new safe => safe.write new

theorem HeldKept.stable : Stable (HeldKept : Race Version → Prop) :=
  fun _ new held => held.write new

theorem Calm.stable : Stable (Calm : Race Version → Prop) :=
  fun _ new calm => ⟨calm.safe.write new, calm.held.write new⟩

theorem Spare.stable (aside : DisplacedName)
    : Stable fun race : Race Version => race.Spare aside := by
  intro race new spare
  refine ⟨spare.safe.write new, spare.held.write new, ?_⟩
  intro version found
  rcases spare.spare version found with passed | there
  · exact .inl passed
  · exact .inr (there.write new)

/-- A program never loses an unchecked version, and where it fails, not the one it found last. -/
abbrev Saves (condition : Race Version → DiskCall → Prop)
    (program : DiskProgram (Except SaveFailure Unit)) (race : Race Version) : Prop :=
  Program.Ensures (raceOutside condition) Safe
    (fun outcome race => ∀ failure, outcome = .error failure → race.HeldKept) program race

variable {condition : Race Version → DiskCall → Prop}

theorem Saves.step {call : DiskCall}
    {next : call.Answer → DiskProgram (Except SaveFailure Unit)}
    (property : Race Version → Prop) (stable : Stable property) (holds : property race)
    (safe : race.Safe)
    (onward : ∀ before answer disk, property before → condition before call
      → DiskAnswers before.disk call answer disk
      → Saves condition (next answer) (before.after call answer disk))
    : Saves condition (ask call >>= next) race := by
  refine ⟨safe, fun _ never => never.elim, ?_⟩
  intro answer final ⟨before, disk, writes, undisturbed, answers, same⟩
  subst same
  exact onward before answer disk (stable.writes writes holds) undisturbed answers

theorem Saves.failed {failure : SaveFailure} (calm : race.Calm)
    : Saves condition (pure (.error failure)) race :=
  ⟨calm.safe, fun _ _ => calm.held⟩

theorem Saves.ok (safe : race.Safe) : Saves condition (pure (.ok ())) race :=
  ⟨safe, fun _ same => nomatch same⟩

theorem restoreDisplaced_saves {shows : ShowsName} {aside : DisplacedName}
    {failure : SaveFailure} (calm : race.Calm)
    : Saves condition (restoreDisplaced shows aside failure) race := by
  refine Saves.step Calm Calm.stable calm calm.safe ?_
  intro before answer disk calm _ answers
  cases answers with
  | restored found free => exact Saves.failed (calm.after fun _ kept => kept.restore found free)
  | notRestored => exact Saves.failed calm.look

/-- A round that found nothing at the target never replaces anything. -/
theorem installMissing_saves {retry : DiskProgram (Except SaveFailure Unit)}
    (retries : ∀ {race : Race Version}, race.Calm → Saves condition retry race) (calm : race.Calm)
    : Saves condition (installMissing retry) race := by
  refine Saves.step Calm Calm.stable calm calm.safe ?_
  intro before answer disk calm _ answers
  cases answers with
  | checked =>
      cases answer with
      | error failure => exact Saves.failed calm.look
      | ok =>
          refine Saves.step Calm Calm.stable calm.look calm.safe.look ?_
          intro before answer disk calm _ answers
          cases answers with
          | installed _ free => exact Saves.ok (calm.install free _).safe
          | notInstalled =>
              rename_i error _
              by_cases again : error.kind = .alreadyExists
              · simpa only [again, if_true] using retries calm.look
              · simpa only [again, if_false] using Saves.failed calm.look

/-- A pinned round replaces a version that passed, as long as no other one is put in its place
after the identity test.
-/
theorem installPinned_saves {aside : DisplacedName}
    (guards : ∀ race, condition race .replace → Undisturbed race .replace)
    {retry : DiskProgram (Except SaveFailure Unit)}
    (retries : ∀ {race : Race Version}, race.Calm → Saves condition retry race)
    (spare : race.Spare aside)
    : Saves condition (installPinned aside retry) race := by
  refine Saves.step (Spare · aside) (Spare.stable aside) spare spare.safe ?_
  intro before answer disk spare _ answers
  cases answers with
  | checked =>
      cases answer with
      | error failure =>
          refine Saves.step (Spare · aside) (Spare.stable aside) spare.look spare.safe.look ?_
          intro before answer disk spare _ answers
          exact Saves.failed (spare.removed answers)
      | ok =>
          refine Saves.step (fun race => race.Spare aside ∧ race.AsidePassed aside)
            (fun race new both => ⟨Spare.stable aside race new both.1, both.2⟩)
            ⟨spare.look, asidePassed_check⟩ spare.safe.look ?_
          intro before answer disk both _ answers
          obtain ⟨spare, passed⟩ := both
          cases answers with
          | notSame =>
              refine Saves.step (Spare · aside) (Spare.stable aside) spare.look
                spare.safe.look ?_
              intro before answer disk spare _ answers
              exact retries (spare.removed answers)
          | same =>
              refine Saves.step (fun race => race.Spare aside ∧ race.AsidePassed aside)
                (fun race new both => ⟨Spare.stable aside race new both.1, both.2⟩)
                ⟨spare.look, passed.after rfl⟩ spare.safe.look ?_
              intro before answer disk both undisturbed answers
              obtain ⟨spare, passed⟩ := both
              cases answers with
              | replaced =>
                  rename_i new _
                  -- What the rename replaced had passed, and so had the pinned version.
                  have safe := spare.safe.replace new (guards before undisturbed)
                  refine Saves.step (fun race => race.Safe ∧ race.AsidePassed aside)
                    (fun race new both => ⟨both.1.write new, both.2⟩)
                    ⟨safe, passed.after rfl⟩ safe ?_
                  intro before answer disk both _ answers
                  obtain ⟨safe, passed⟩ := both
                  exact Saves.ok (safe.removed (fun version found => .inl (passed version found))
                    answers)
              | notReplaced =>
                  refine Saves.step (Spare · aside) (Spare.stable aside) spare.look
                    spare.safe.look ?_
                  intro before answer disk spare _ answers
                  exact Saves.failed (spare.removed answers)

/-- A round that moves the target aside never replaces anything. -/
theorem installMoved_saves {shows : ShowsName} {aside : DisplacedName}
    {retry : DiskProgram (Except SaveFailure Unit)}
    (retries : ∀ {race : Race Version}, race.Calm → Saves condition retry race) (calm : race.Calm)
    : Saves condition (installMoved shows aside retry) race := by
  refine Saves.step Calm Calm.stable calm calm.safe ?_
  intro before answer disk calm _ answers
  cases answers with
  | notMoved =>
      rename_i error _
      by_cases missing : error.kind = .notFound
      · simpa only [missing, if_true] using installMissing_saves retries calm.look
      · simpa only [missing, if_false] using Saves.failed calm.look
  | moved found free =>
      have calm := calm.moveAside found free
      refine Saves.step Calm Calm.stable calm calm.safe ?_
      intro before answer disk calm _ answers
      cases answers with
      | checked =>
          cases answer with
          | error failure => exact restoreDisplaced_saves calm.look
          | ok =>
              refine Saves.step (fun race => race.Calm ∧ race.AsidePassed aside)
                (fun race new both => ⟨Calm.stable race new both.1, both.2⟩)
                ⟨calm.look, asidePassed_check⟩ calm.safe.look ?_
              intro before answer disk both _ answers
              obtain ⟨calm, passed⟩ := both
              cases answers with
              | installed _ free =>
                  rename_i new _
                  have safe := (calm.install free new).safe
                  refine Saves.step (fun race => race.Safe ∧ race.AsidePassed aside)
                    (fun race new both => ⟨both.1.write new, both.2⟩)
                    ⟨safe, passed.after rfl⟩ safe ?_
                  intro before answer disk both _ answers
                  obtain ⟨safe, passed⟩ := both
                  exact Saves.ok (safe.removed (fun version found => .inl (passed version found))
                    answers)
              | notInstalled taken =>
                  rename_i error
                  by_cases again : error.kind = .alreadyExists
                  · -- The file in the way is the one found last, and it stays.
                    obtain ⟨version, found⟩ := Option.isSome_iff_exists.mp (taken again)
                    have spare : (before.after .install (.error error) before.disk).Spare aside := by
                      refine ⟨calm.safe.look, ?_, fun version found => .inl
                        (List.mem_append_right _ (passed version found))⟩
                      intro held same
                      have same : before.disk.target.or before.held = some held := same
                      rw [found, Option.some_or] at same
                      exact .inl (found.trans same)
                    simp only [again, if_true]
                    refine Saves.step (Spare · aside) (Spare.stable aside) spare spare.safe ?_
                    intro before answer disk spare _ answers
                    exact retries (spare.removed answers)
                  · simpa only [again, if_false] using restoreDisplaced_saves calm.look

/-- All rounds, by induction on the attempts left. -/
theorem installCheckedWith_saves (shows : ShowsName) (pid : Nat) (pins : Bool) (attempts : Nat)
    (guards : pins = true → ∀ race, condition race .replace → Undisturbed race .replace)
    (calm : race.Calm)
    : Saves condition (installCheckedWith shows pid pins attempts) race := by
  induction attempts generalizing race with
  | zero => exact Saves.failed calm
  | succ attempts ih =>
      refine Saves.step Calm Calm.stable calm calm.safe ?_
      intro before sequence disk calm _ answers
      cases answers
      cases pins with
      | false => exact installMoved_saves ih calm.look
      | true =>
          refine Saves.step Calm Calm.stable calm.look calm.safe.look ?_
          intro before answer disk calm _ answers
          cases answers with
          | linked found free => exact installPinned_saves (guards rfl) ih (calm.pinned found free)
          | notLinked =>
              rename_i error _
              dsimp only
              by_cases missing : error.kind = .notFound
              · simpa only [missing, if_true] using installMissing_saves ih calm.look
              · simpa only [missing, if_false] using installMoved_saves ih calm.look

/-- Where the platform can pin, the replacing rename must not be disturbed; a save that only ever
moves aside needs nothing.
-/
def Guarded (pins : Bool) (race : Race Version) (call : DiskCall) : Prop :=
  pins = true → Undisturbed race call

/-- In every such run, whatever other writers do between the steps of a save, no version that was
at the target is lost without a check, at any moment; and if the save fails, the version it found
there last is still there or kept aside, unless another writer took it away.
-/
theorem install_keeps_versions (shows : ShowsName) (pid : Nat) (pins : Bool)
    (disk : Disk Version) {ending : Ending (Except SaveFailure Unit)} {final later : Race Version}
    (runs : Program.Runs (raceOutside (Guarded pins))
      (installCheckedWith shows pid pins maxInstallAttempts) (start disk) ending final)
    (writes : final.Writes later)
    : later.Safe ∧ ∀ failure, ending = .finished (.error failure) → later.HeldKept := by
  have calm : (start disk).Calm := by
    refine ⟨?_, fun _ none => nomatch none⟩
    intro version seen
    exact .inr (.inl (.inl (Option.mem_toList.mp seen)))
  have saves : Saves (Guarded pins) (installCheckedWith shows pid pins maxInstallAttempts)
      (start disk) :=
    installCheckedWith_saves shows pid pins maxInstallAttempts
      (fun pinned _ guarded => guarded pinned) calm
  obtain ⟨safe, reached⟩ := saves.sound runs
  refine ⟨Safe.stable.writes writes safe, ?_⟩
  intro failure failed
  exact HeldKept.stable.writes writes (reached _ failed failure rfl)

-- A writer in the one gap

/-- Version 0 at the target, and version 1 to be saved. -/
def sampleDisk : Disk Nat := ⟨some 0, some 1, fun _ => none⟩

/-- Version 2 is put at the target after the identity test, and the replacing rename destroys it:
no check let it pass.
-/
theorem install_loses_version
    : ∃ final : Race Nat,
        Program.Runs (raceOutside fun _ _ => True)
          (installCheckedWith (fun _ => "") 7 true maxInstallAttempts) (start sampleDisk)
          (.finished (.ok ())) final
        ∧ 2 ∈ final.seen ∧ 2 ∉ final.passed ∧ ¬ final.Kept 2 := by
  refine ⟨_,
    .step ⟨_, _, .refl, trivial, .nextSequence _ 0, rfl⟩ <|
    .step ⟨_, _, .refl, trivial, .linked rfl rfl, rfl⟩ <|
    .step ⟨_, _, .refl, trivial, .checked _ _ (.ok ()), rfl⟩ <|
    .step ⟨_, _, .refl, trivial, .same rfl rfl, rfl⟩ <|
    .step ⟨_, _, .single ⟨some 2, rfl⟩, trivial, .replaced rfl, rfl⟩ <|
    .step ⟨_, _, .refl, trivial, .removed _ _, rfl⟩ <|
    .finish _ _, by decide, by decide, ?_⟩
  intro kept
  rcases kept with (target | dropped) | ⟨name, found⟩
  · exact absurd target (by decide)
  · exact absurd dropped (by decide)
  · have found : Function.update
        (Function.update (fun _ => none) (DisplacedName.mk 7 0) (some 0)) ⟨7, 0⟩ none name
          = some 2 := found
    by_cases same : name = ⟨7, 0⟩
    · rw [same, Function.update_self] at found
      cases found
    · rw [Function.update_of_ne same, Function.update_of_ne same] at found
      cases found

/-- A save that is refused keeps the version it found, although another writer has taken the
target over.
-/
theorem install_keeps_versions_refused
    : ∃ final : Race Nat,
        final.held = some 0 ∧ final.disk.target = some 2 ∧ final.Safe ∧ final.HeldKept := by
  obtain ⟨final, runs, held, target⟩ : ∃ final : Race Nat,
      Program.Runs (raceOutside (Guarded true))
        (installCheckedWith (fun _ => "") 7 true maxInstallAttempts) (start sampleDisk)
        (.finished (.error .externalChange)) final
      ∧ final.held = some 0 ∧ final.disk.target = some 2 :=
    ⟨_,
      .step ⟨_, _, .refl, fun _ => trivial, .nextSequence _ 0, rfl⟩ <|
      .step ⟨_, _, .refl, fun _ => trivial, .linked rfl rfl, rfl⟩ <|
      .step ⟨_, _, .single ⟨some 2, rfl⟩, fun _ => trivial,
        .checked _ _ (.error .externalChange), rfl⟩ <|
      .step ⟨_, _, .refl, fun _ => trivial, .removed _ _, rfl⟩ <|
      .finish _ _, rfl, rfl⟩
  have kept := install_keeps_versions (fun _ => "") 7 true sampleDisk runs .refl
  exact ⟨final, held, target, kept.1, kept.2 .externalChange rfl⟩

end Race

end Hane.Session
