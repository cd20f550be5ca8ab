import Hane.Update.OwnedFiles
import Hane.Update.Planning
import Hane.Update.UpdateRuns

/-! What a plan does to an install: its steps lead from the files of the old release to those of the
new one, and their reverse leads back.
-/

namespace Hane.Update

open Hane.Foundations
open Archive (sampleInventory sampleArchiveCrates sampleArchiveCandidate)

-- Lists of files

theorem holding_eq_some_iff {files : List (String × FileIdentity)} {key : String}
    {file : String × FileIdentity}
    (distinct : (files.map fun file => collisionKey file.1).Nodup)
    : holding files key = some file ↔ file ∈ files ∧ collisionKey file.1 = key := by
  constructor
  · intro found
    exact ⟨List.mem_of_find?_eq_some found, by simpa using List.find?_some found⟩
  · rintro ⟨member, same⟩
    cases found : holding files key with
    | none =>
        have missed := List.find?_eq_none.mp found file member
        simp [same] at missed
    | some other =>
        have present := List.mem_of_find?_eq_some found
        have same' : collisionKey other.1 = key := by simpa using List.find?_some found
        rw [List.inj_on_of_nodup_map distinct present member (same'.trans same.symm)]

theorem holding_eq_none_iff {files : List (String × FileIdentity)} {key : String}
    : holding files key = none ↔ ∀ file ∈ files, collisionKey file.1 ≠ key := by
  rw [holding, List.find?_eq_none]
  simp only [beq_iff_eq, ne_eq]

/-- The files of an inventory: distinct collision keys, and none under the name of an inventory
file.
-/
structure Listed (files : List (String × FileIdentity)) : Prop where
  keys : (files.map fun file => collisionKey file.1).Nodup
  names : ∀ file ∈ files,
    file.1 ≠ inventoryFileName ∧ file.1 ≠ inventorySignatureFileName

theorem Listed.perm {files others : List (String × FileIdentity)} (listed : Listed files)
    (same : others.Perm files)
    : Listed others :=
  ⟨(same.map _).nodup_iff.mpr listed.keys, fun file member =>
    listed.names file (same.mem_iff.mp member)⟩

theorem Listed.paths {files : List (String × FileIdentity)} (listed : Listed files)
    : (files.map Prod.fst).Nodup :=
  Archive.nodup_paths_of_keys listed.keys

theorem Listed.lookup_iff {files : List (String × FileIdentity)} (listed : Listed files)
    {path : String} {identity : FileIdentity}
    : files.lookup path = some identity ↔ (path, identity) ∈ files :=
  SortedMaps.lookup_eq_some_iff listed.paths

theorem Listed.lookup_none {files : List (String × FileIdentity)} {path : String}
    (listed : Listed files) (absent : files.lookup path = none)
    : ∀ file ∈ files, file.1 ≠ path := by
  rintro ⟨other, identity⟩ member rfl
  rw [listed.lookup_iff.mpr member] at absent
  cases absent

theorem validateFiles_each {files : List InventoryFile} {keys : List String}
    (passed : validateFiles files keys = .ok ())
    : ∀ file ∈ files, file.validate = .ok () := by
  induction files generalizing keys with
  | nil => exact fun _ member => nomatch member
  | cons file rest ih =>
      simp only [validateFiles, except_bind_ok_iff, except_guard_ok_iff] at passed
      obtain ⟨_, checked, _, later⟩ := passed
      exact List.forall_mem_cons.mpr ⟨checked, ih later⟩

theorem Inventory.listed {Json : Type} {crates : ArchiveCrates Json} {inventory : Inventory}
    (valid : inventory.validate crates = .ok ())
    : Listed (inventory.files.map fun file => (file.path, file.identity)) := by
  simp only [Inventory.validate, except_bind_ok_iff, except_guard_ok_iff] at valid
  obtain ⟨_, _, _, _, _, _, files⟩ := valid
  constructor
  · rw [List.map_map]
    exact (Archive.validateFiles_nodup files).1
  · intro file member
    obtain ⟨given, present, rfl⟩ := List.mem_map.mp member
    have checked := validateFiles_each files given present
    simp only [InventoryFile.validate, except_bind_ok_iff, except_guard_ok_iff] at checked
    obtain ⟨_, _, apart, _⟩ := checked
    exact not_or.mp apart

theorem fileMap_perm {Json : Type} {crates : ArchiveCrates Json} {signed : SignedInventory}
    (valid : signed.inventory.validate crates = .ok ())
    : (fileMap signed).Perm (signed.inventory.files.map fun file => (file.path, file.identity)) :=
  SortedMaps.collect_perm _ (Inventory.listed valid).paths

/-- No name differs from an installed one in its case only. -/
theorem checkCase_ok {files : List (String × FileIdentity)} (listed : Listed files)
    {file : String × FileIdentity} (checked : checkCase (keyMap files) file = .ok ())
    : ∀ other ∈ files, collisionKey other.1 = collisionKey file.1 → other.1 = file.1 := by
  rintro ⟨path, identity⟩ member same
  have distinct : ((files.map fun file => (collisionKey file.1, file.1)).map Prod.fst).Nodup := by
    rw [List.map_map]
    exact listed.keys
  have collected := SortedMaps.collect_perm _ distinct
  have found : (keyMap files).lookup (collisionKey file.1) = some path := by
    refine (SortedMaps.lookup_eq_some_iff ((collected.map _).nodup_iff.mpr distinct)).mpr ?_
    rw [← same]
    exact collected.mem_iff.mpr (List.mem_map.mpr ⟨(path, identity), member, rfl⟩)
  rw [checkCase] at checked
  simp only [found] at checked
  split at checked
  · cases checked
  · next equal => exact not_not.mp equal

-- The steps of a plan

/-- What the checks before an update make sure of about its two releases. -/
structure Matched (old new : SignedInventory) : Prop where
  oldSame : (fileMap old).Perm (old.inventory.files.map fun file => (file.path, file.identity))
  newSame : (fileMap new).Perm (new.inventory.files.map fun file => (file.path, file.identity))
  oldListed : Listed (fileMap old)
  newListed : Listed (fileMap new)
  cased : ∀ file ∈ fileMap new, ∀ other ∈ fileMap old,
    collisionKey other.1 = collisionKey file.1 → other.1 = file.1
  distinct : (((planSteps old new).map PlanStep.relPath
    ++ (unchangedFiles old (planSteps old new)).map UnchangedFile.relPath).map collisionKey).Nodup

theorem mem_planSteps {old new : SignedInventory} {step : PlanStep}
    : step ∈ planSteps old new
        ↔ (∃ file ∈ fileMap new, newStep (fileMap old) file = some step)
          ∨ (∃ file ∈ fileMap old, removalStep (fileMap new) file = some step)
          ∨ step ∈ inventorySteps old new := by
  rw [planSteps, List.mem_insertionSort, List.mem_append, List.mem_append, List.mem_filterMap,
    List.mem_filterMap, or_assoc]

theorem mem_unchangedFiles {old : SignedInventory} {steps : List PlanStep} {file : UnchangedFile}
    : file ∈ unchangedFiles old steps
        ↔ (file.relPath, file.identity) ∈ fileMap old
          ∧ file.relPath ∉ steps.map PlanStep.relPath := by
  simp only [unchangedFiles, List.mem_map, List.mem_filter, Bool.not_eq_true',
    List.contains_eq_mem, decide_eq_false_iff_not]
  constructor
  · rintro ⟨⟨path, identity⟩, ⟨member, apart⟩, rfl⟩
    exact ⟨member, by simpa using apart⟩
  · rintro ⟨member, apart⟩
    exact ⟨(file.relPath, file.identity), ⟨member, by simpa using apart⟩, rfl⟩

theorem mem_inventorySteps {old new : SignedInventory} {step : PlanStep}
    : step ∈ inventorySteps old new
        ↔ step = ⟨inventoryFileName, some old.raw, some new.raw,
            some (backupPath inventoryFileName)⟩
          ∨ step = ⟨inventorySignatureFileName, some old.signature, some new.signature,
            some (backupPath inventorySignatureFileName)⟩ := by
  simp [inventorySteps]

theorem newStep_eq_some_iff {oldFiles : List (String × FileIdentity)}
    {file : String × FileIdentity} {step : PlanStep}
    : newStep oldFiles file = some step
        ↔ (∃ oldId, oldFiles.lookup file.1 = some oldId ∧ oldId ≠ file.2
            ∧ step = ⟨file.1, some oldId, some file.2, some (backupPath file.1)⟩)
          ∨ (oldFiles.lookup file.1 = none ∧ step = ⟨file.1, none, some file.2, none⟩) := by
  rw [newStep]
  cases oldFiles.lookup file.1 with
  | none => simp [eq_comm]
  | some oldId =>
      by_cases same : oldId = file.2
      · simp [same]
      · simp [same, eq_comm]

theorem newStep_relPath {oldFiles : List (String × FileIdentity)} {file : String × FileIdentity}
    {step : PlanStep} (stepped : newStep oldFiles file = some step)
    : step.relPath = file.1 := by
  rcases newStep_eq_some_iff.mp stepped with ⟨_, _, _, rfl⟩ | ⟨_, rfl⟩ <;> rfl

theorem newStep_eq_none_iff {oldFiles : List (String × FileIdentity)}
    {file : String × FileIdentity}
    : newStep oldFiles file = none ↔ oldFiles.lookup file.1 = some file.2 := by
  rw [newStep]
  cases oldFiles.lookup file.1 with
  | none => simp
  | some oldId =>
      by_cases same : oldId = file.2
      · simp [same]
      · simp [same]

theorem removalStep_eq_some_iff {newFiles : List (String × FileIdentity)}
    {file : String × FileIdentity} {step : PlanStep}
    : removalStep newFiles file = some step
        ↔ newFiles.lookup file.1 = none ∧ isRetainedShellPath file.1 = false
          ∧ step = ⟨file.1, some file.2, none, some (backupPath file.1)⟩ := by
  rw [removalStep]
  cases newFiles.lookup file.1 with
  | none => cases isRetainedShellPath file.1 <;> simp [eq_comm]
  | some newId => simp

-- Names of one install

section Matching

variable {old new : SignedInventory} (matched : Matched old new)

/-- Every path the plan names, whether changed or not. -/
def ownedNames (old new : SignedInventory) : List String :=
  (planSteps old new).map PlanStep.relPath
  ++ (unchangedFiles old (planSteps old new)).map UnchangedFile.relPath

theorem stepped_owned {step : PlanStep} (member : step ∈ planSteps old new)
    : step.relPath ∈ ownedNames old new :=
  List.mem_append_left _ (List.mem_map_of_mem member)

theorem old_owned {file : String × FileIdentity} (member : file ∈ fileMap old)
    : file.1 ∈ ownedNames old new := by
  by_cases stepped : file.1 ∈ (planSteps old new).map PlanStep.relPath
  · exact List.mem_append_left _ stepped
  · have unchanged : (⟨file.1, file.2⟩ : UnchangedFile) ∈ unchangedFiles old (planSteps old new) :=
      mem_unchangedFiles.mpr ⟨member, stepped⟩
    exact List.mem_append_right _ (List.mem_map_of_mem (f := UnchangedFile.relPath) unchanged)

theorem inventory_stepped
    : ⟨inventoryFileName, some old.raw, some new.raw, some (backupPath inventoryFileName)⟩
          ∈ planSteps old new
      ∧ ⟨inventorySignatureFileName, some old.signature, some new.signature,
          some (backupPath inventorySignatureFileName)⟩ ∈ planSteps old new :=
  ⟨mem_planSteps.mpr (.inr (.inr (mem_inventorySteps.mpr (.inl rfl)))),
    mem_planSteps.mpr (.inr (.inr (mem_inventorySteps.mpr (.inr rfl))))⟩

theorem inventory_keys
    : [collisionKey inventoryFileName, collisionKey inventorySignatureFileName].Nodup := by decide

theorem releaseFiles_keys {signed : SignedInventory}
    (same : (fileMap signed).Perm
      (signed.inventory.files.map fun file => (file.path, file.identity)))
    (listed : Listed (fileMap signed))
    (apart : ∀ file ∈ fileMap signed, collisionKey file.1 ≠ collisionKey inventoryFileName
      ∧ collisionKey file.1 ≠ collisionKey inventorySignatureFileName)
    : ((releaseFiles signed).map fun file => collisionKey file.1).Nodup := by
  rw [releaseFiles, List.map_append]
  refine List.nodup_append.mpr ⟨(listed.perm same.symm).keys, inventory_keys, ?_⟩
  intro key member other inventory equal
  obtain ⟨file, present, rfl⟩ := List.mem_map.mp member
  have names := apart file (same.mem_iff.mpr present)
  obtain ⟨pair, either, rfl⟩ := List.mem_map.mp inventory
  rcases List.mem_cons.mp either with rfl | last
  · exact names.1 equal
  · obtain rfl := List.mem_singleton.mp last
    exact names.2 equal

include matched

theorem Matched.new_owned {file : String × FileIdentity} (member : file ∈ fileMap new)
    : file.1 ∈ ownedNames old new := by
  cases stepped : newStep (fileMap old) file with
  | none =>
      exact @old_owned old new (file.1, file.2)
        (matched.oldListed.lookup_iff.mp (newStep_eq_none_iff.mp stepped))
  | some step =>
      have named : step.relPath = file.1 := newStep_relPath stepped
      exact named ▸ stepped_owned (mem_planSteps.mpr (.inl ⟨file, member, stepped⟩))

theorem Matched.same_name {first second : String} (here : first ∈ ownedNames old new)
    (there : second ∈ ownedNames old new) (same : collisionKey first = collisionKey second)
    : first = second :=
  List.inj_on_of_nodup_map matched.distinct here there same

theorem Matched.apart_from_inventory {file : String × FileIdentity}
    (member : file ∈ fileMap old ∨ file ∈ fileMap new)
    : collisionKey file.1 ≠ collisionKey inventoryFileName
      ∧ collisionKey file.1 ≠ collisionKey inventorySignatureFileName := by
  have owned : file.1 ∈ ownedNames old new := member.elim old_owned matched.new_owned
  have names : file.1 ≠ inventoryFileName ∧ file.1 ≠ inventorySignatureFileName :=
    member.elim (matched.oldListed.names file) (matched.newListed.names file)
  obtain ⟨inventory, signature⟩ := @inventory_stepped old new
  exact ⟨fun same => names.1 (matched.same_name owned (stepped_owned inventory) same),
    fun same => names.2 (matched.same_name owned (stepped_owned signature) same)⟩

theorem Matched.mem_oldFiles {file : String × FileIdentity}
    : file ∈ releaseFiles old
        ↔ file ∈ fileMap old ∨ file = (inventoryFileName, old.raw)
          ∨ file = (inventorySignatureFileName, old.signature) := by
  rw [releaseFiles, List.mem_append, ← matched.oldSame.mem_iff]
  simp only [List.mem_cons, List.not_mem_nil, or_false]

theorem Matched.mem_retained {file : String × FileIdentity}
    : file ∈ retainedFiles old new
        ↔ file ∈ fileMap old ∧ isRetainedShellPath file.1 = true
          ∧ (fileMap new).lookup file.1 = none := by
  have absent : (fileMap new).lookup file.1 = none
      ↔ file.1 ∉ new.inventory.files.map InventoryFile.path := by
    constructor
    · intro none listed
      obtain ⟨given, present, same⟩ := List.mem_map.mp listed
      have inside : (given.path, given.identity) ∈ fileMap new :=
        matched.newSame.mem_iff.mpr (List.mem_map.mpr ⟨given, present, rfl⟩)
      exact matched.newListed.lookup_none none _ inside same
    · intro unlisted
      cases found : (fileMap new).lookup file.1 with
      | none => rfl
      | some identity =>
          have inside := matched.newSame.mem_iff.mp (matched.newListed.lookup_iff.mp found)
          obtain ⟨given, present, same⟩ := List.mem_map.mp inside
          exact absurd (List.mem_map.mpr ⟨given, present, congrArg Prod.fst same⟩) unlisted
  rw [absent, matched.oldSame.mem_iff]
  simp only [retainedFiles, List.mem_map, List.mem_filter, Bool.and_eq_true, Bool.not_eq_true',
    List.contains_eq_mem, decide_eq_false_iff_not]
  constructor
  · rintro ⟨given, ⟨present, retained, unlisted⟩, rfl⟩
    exact ⟨⟨given, present, rfl⟩, retained, unlisted⟩
  · rintro ⟨⟨given, present, rfl⟩, retained, unlisted⟩
    exact ⟨given, ⟨present, retained, unlisted⟩, rfl⟩

theorem Matched.mem_newFiles {file : String × FileIdentity}
    : file ∈ releaseFiles new ++ retainedFiles old new
        ↔ file ∈ fileMap new ∨ file = (inventoryFileName, new.raw)
          ∨ file = (inventorySignatureFileName, new.signature)
          ∨ (file ∈ fileMap old ∧ isRetainedShellPath file.1 = true
            ∧ (fileMap new).lookup file.1 = none) := by
  rw [List.mem_append, matched.mem_retained, releaseFiles, List.mem_append,
    ← matched.newSame.mem_iff]
  simp only [List.mem_cons, List.not_mem_nil, or_false, or_assoc]

theorem Matched.old_keys : ((releaseFiles old).map fun file => collisionKey file.1).Nodup :=
  releaseFiles_keys matched.oldSame matched.oldListed fun _ member =>
    matched.apart_from_inventory (.inl member)

theorem Matched.new_keys
    : ((releaseFiles new ++ retainedFiles old new).map fun file => collisionKey file.1).Nodup := by
  rw [List.map_append]
  refine List.nodup_append.mpr ⟨?_, ?_, ?_⟩
  · exact releaseFiles_keys matched.newSame matched.newListed fun _ member =>
      matched.apart_from_inventory (.inr member)
  · have kept : (retainedFiles old new).Sublist
        (old.inventory.files.map fun file => (file.path, file.identity)) :=
      List.filter_sublist.map _
    exact (kept.map _).nodup (matched.oldListed.perm matched.oldSame.symm).keys
  · intro key member other kept equal
    obtain ⟨retained, present, rfl⟩ := List.mem_map.mp kept
    obtain ⟨installed, -, absent⟩ := matched.mem_retained.mp present
    have names := matched.apart_from_inventory (.inl installed)
    obtain ⟨file, inside, rfl⟩ := List.mem_map.mp member
    rw [releaseFiles, List.mem_append, ← matched.newSame.mem_iff] at inside
    rcases inside with listed | inventory
    · exact matched.newListed.lookup_none absent file listed
        (matched.cased file listed retained installed equal.symm).symm
    · rcases List.mem_cons.mp inventory with rfl | last
      · exact names.1 equal.symm
      · obtain rfl := List.mem_singleton.mp last
        exact names.2 equal.symm

-- From one release to the other

theorem Matched.step_old {step : PlanStep} (member : step ∈ planSteps old new)
    : holding (releaseFiles old) step.change.place = step.change.old := by
  have held : ∀ file, file ∈ releaseFiles old →
      holding (releaseFiles old) (collisionKey file.1) = some file := fun file present =>
    (holding_eq_some_iff matched.old_keys).mpr ⟨present, rfl⟩
  rcases mem_planSteps.mp member with
    ⟨file, present, stepped⟩ | ⟨file, present, stepped⟩ | inventory
  · rcases newStep_eq_some_iff.mp stepped with ⟨oldId, found, -, rfl⟩ | ⟨absent, rfl⟩
    · exact held (file.1, oldId)
        (matched.mem_oldFiles.mpr (.inl (matched.oldListed.lookup_iff.mp found)))
    · refine holding_eq_none_iff.mpr fun other installed same => ?_
      have names := matched.apart_from_inventory (.inr present)
      rcases matched.mem_oldFiles.mp installed with listed | rfl | rfl
      · exact matched.oldListed.lookup_none absent other listed
          (matched.cased file present other listed same)
      · exact names.1 same.symm
      · exact names.2 same.symm
  · obtain ⟨-, -, rfl⟩ := removalStep_eq_some_iff.mp stepped
    exact held file (matched.mem_oldFiles.mpr (.inl present))
  · rcases mem_inventorySteps.mp inventory with rfl | rfl
    · exact held (inventoryFileName, old.raw) (matched.mem_oldFiles.mpr (.inr (.inl rfl)))
    · exact held (inventorySignatureFileName, old.signature)
        (matched.mem_oldFiles.mpr (.inr (.inr rfl)))

theorem Matched.step_new {step : PlanStep} (member : step ∈ planSteps old new)
    : holding (releaseFiles new ++ retainedFiles old new) step.change.place
        = step.change.new := by
  have held : ∀ file, file ∈ releaseFiles new ++ retainedFiles old new →
      holding (releaseFiles new ++ retainedFiles old new) (collisionKey file.1) = some file :=
    fun file present => (holding_eq_some_iff matched.new_keys).mpr ⟨present, rfl⟩
  rcases mem_planSteps.mp member with
    ⟨file, present, stepped⟩ | ⟨file, present, stepped⟩ | inventory
  · have listed := held file (matched.mem_newFiles.mpr (.inl present))
    rcases newStep_eq_some_iff.mp stepped with ⟨oldId, found, -, rfl⟩ | ⟨absent, rfl⟩
    · exact listed
    · exact listed
  · obtain ⟨absent, removable, rfl⟩ := removalStep_eq_some_iff.mp stepped
    refine holding_eq_none_iff.mpr fun other installed same => ?_
    have names := matched.apart_from_inventory (.inl present)
    rcases matched.mem_newFiles.mp installed with listed | rfl | rfl | ⟨kept, retained, -⟩
    · exact matched.newListed.lookup_none absent other listed
        (matched.cased other listed file present same.symm).symm
    · exact names.1 same.symm
    · exact names.2 same.symm
    · rw [matched.same_name (old_owned kept) (old_owned present) same, removable] at retained
      cases retained
  · rcases mem_inventorySteps.mp inventory with rfl | rfl
    · exact held (inventoryFileName, new.raw) (matched.mem_newFiles.mpr (.inr (.inl rfl)))
    · exact held (inventorySignatureFileName, new.signature)
        (matched.mem_newFiles.mpr (.inr (.inr (.inl rfl))))

theorem Matched.unstepped {key : String}
    (outside : key ∉ ((planSteps old new).map PlanStep.change).map Change.place)
    : holding (releaseFiles old) key
        = holding (releaseFiles new ++ retainedFiles old new) key := by
  have free : ∀ step ∈ planSteps old new, collisionKey step.relPath ≠ key := fun step member same =>
    outside (same ▸ List.mem_map_of_mem (f := Change.place) (List.mem_map_of_mem member))
  have inventory : collisionKey inventoryFileName ≠ key := free _ inventory_stepped.1
  have signature : collisionKey inventorySignatureFileName ≠ key := free _ inventory_stepped.2
  ext file
  rw [holding_eq_some_iff matched.old_keys, holding_eq_some_iff matched.new_keys]
  refine and_congr_left fun here => ?_
  rw [matched.mem_oldFiles, matched.mem_newFiles]
  constructor
  · rintro (installed | rfl | rfl)
    · cases found : (fileMap new).lookup file.1 with
      | none =>
          refine .inr (.inr (.inr ⟨installed, ?_, rfl⟩))
          by_contra removable
          have removed : removalStep (fileMap new) file
              = some ⟨file.1, some file.2, none, some (backupPath file.1)⟩ :=
            removalStep_eq_some_iff.mpr ⟨found, by simpa using removable, rfl⟩
          exact free _ (mem_planSteps.mpr (.inr (.inl ⟨file, installed, removed⟩))) here
      | some newId =>
          have listed := matched.newListed.lookup_iff.mp found
          cases stepped : newStep (fileMap old) (file.1, newId) with
          | none =>
              have same := newStep_eq_none_iff.mp stepped
              rw [matched.oldListed.lookup_iff.mpr (show (file.1, file.2) ∈ _ from installed),
                Option.some.injEq] at same
              have equal : file = (file.1, newId) := Prod.ext rfl same
              exact .inl (equal ▸ listed)
          | some step =>
              have named : step.relPath = file.1 := @newStep_relPath _ (file.1, newId) _ stepped
              exact absurd (named ▸ here)
                (free step (mem_planSteps.mpr (.inl ⟨_, listed, stepped⟩)))
    · exact absurd here inventory
    · exact absurd here signature
  · rintro (listed | rfl | rfl | ⟨kept, -, -⟩)
    · cases stepped : newStep (fileMap old) file with
      | none =>
          exact .inl (matched.oldListed.lookup_iff.mp (newStep_eq_none_iff.mp stepped))
      | some step =>
          have named : step.relPath = file.1 := newStep_relPath stepped
          exact absurd (named ▸ here) (free step (mem_planSteps.mpr (.inl ⟨_, listed, stepped⟩)))
    · exact absurd here inventory
    · exact absurd here signature
    · exact .inl kept

theorem Matched.between
    : Change.Between ((planSteps old new).map PlanStep.change) (holding (releaseFiles old))
        (holding (releaseFiles new ++ retainedFiles old new)) := by
  refine ⟨?_, ?_, ?_, fun key outside => matched.unstepped outside⟩
  · have places : ((planSteps old new).map PlanStep.change).map Change.place
        = ((planSteps old new).map PlanStep.relPath).map collisionKey := by
      rw [List.map_map, List.map_map]
      rfl
    rw [places]
    have distinct := matched.distinct
    rw [List.map_append] at distinct
    exact (List.nodup_append.mp distinct).1
  · intro change member
    obtain ⟨step, present, rfl⟩ := List.mem_map.mp member
    exact matched.step_old present
  · intro change member
    obtain ⟨step, present, rfl⟩ := List.mem_map.mp member
    exact matched.step_new present

end Matching

-- Planned updates

theorem startsWithBackup_backupPath (path : String)
    : startsWithBackup (backupPath path) = true := by
  rw [startsWithBackup, backupPath, String.toList_append, List.isPrefixOf_iff_prefix]
  exact List.prefix_append _ _

section Planned

variable {Json : Type} {crates : ArchiveCrates Json}
  {serialize : ApplyPlan → Except String (List UInt8)} {installId transactionId : String}
  {old new : SignedInventory} {candidate : VerifiedCandidate} {plan : ApplyPlan}
  {ticket : Option String} {journal : UpdateJournal}

theorem ApplyPlan.forInventories_ok
    (planned : ApplyPlan.forInventories crates installId transactionId old new candidate = .ok plan)
    : plan.steps = planSteps old new ∧ plan.unchanged = unchangedFiles old (planSteps old new)
      ∧ validateAll (checkCase (keyMap (fileMap old))) (fileMap new) = .ok () := by
  simp only [ApplyPlan.forInventories, except_bind_ok_iff, except_guard_ok_iff] at planned
  obtain ⟨_, _, _, _, _, _, _, _, _, checked, same⟩ := planned
  cases same
  exact ⟨rfl, rfl, checked⟩

theorem UpdateJournal.begin_keys
    (begun : UpdateJournal.begin crates.toCrates serialize plan ticket = .ok journal)
    : journal.steps = plan.steps.map (fun step =>
          ⟨step.relPath, step.old, step.new, step.backupRel, .planned⟩)
      ∧ journal.unchanged = plan.unchanged
      ∧ ((plan.steps.map PlanStep.relPath ++ plan.unchanged.map UnchangedFile.relPath).map
          collisionKey).Nodup := by
  have valid := (UpdateJournal.begin_ok begun).1
  simp only [UpdateJournal.begin, except_bind_ok_iff] at begun
  obtain ⟨_, _, _, _, same⟩ := begun
  cases same
  refine ⟨rfl, rfl, ?_⟩
  simp only [UpdateJournal.validate, except_bind_ok_iff, except_guard_ok_iff] at valid
  obtain ⟨_, _, _, _, _, _, _, _, _, _, _, distinct, _⟩ := valid
  rw [not_not, UpdateJournal.ownedPaths, List.map_map] at distinct
  exact distinct

theorem Matched.of_begun (oldValid : old.inventory.validate crates = .ok ())
    (newValid : new.inventory.validate crates = .ok ())
    (planned : ApplyPlan.forInventories crates installId transactionId old new candidate = .ok plan)
    (begun : UpdateJournal.begin crates.toCrates serialize plan ticket = .ok journal)
    : Matched old new := by
  obtain ⟨steps, unchanged, checked⟩ := ApplyPlan.forInventories_ok planned
  obtain ⟨-, -, distinct⟩ := UpdateJournal.begin_keys begun
  rw [steps, unchanged] at distinct
  have oldListed := (Inventory.listed oldValid).perm (fileMap_perm oldValid)
  have newListed := (Inventory.listed newValid).perm (fileMap_perm newValid)
  exact ⟨fileMap_perm oldValid, fileMap_perm newValid, oldListed, newListed,
    fun file member => checkCase_ok oldListed (validateAll_ok checked file member), distinct⟩

theorem apply_refuses {state : UpdateState} {step : JournalStep}
    (member : step ∈ state.memory.steps) (inside : startsWithBackup step.relPath = true)
    : Does (· = state) (fun _ _ => False) (fun _ => True) apply state := by
  refine .bind (fun _ final => final = state) (does_hasExited rfl (fun _ => rfl) trivial) ?_
  intro exited asked _ same
  subst same
  refine .ite (fun _ => ⟨rfl, trivial⟩) fun _ => ?_
  refine does_bindCurrent rfl ?_
  refine .ite (fun _ => ⟨rfl, trivial⟩) fun _ => ?_
  have checks : Does (· = asked) (fun _ last => last = asked ∧ Sheltered asked.memory.steps)
      (fun last => last = asked) (checkInstalled asked.memory.steps) asked :=
    does_checkInstalled rfl
  refine .bind _ (checks.mono (fun _ _ _ reached => reached) fun _ _ _ _ => trivial) ?_
  intro _ last _ reached
  rw [reached.2 step member] at inside
  cases inside

instance : IsTrans PlanStep StepFirst where
  trans _ _ _ before after := by
    rcases after with last | ⟨plain, le⟩
    · exact .inl last
    · rcases before with middle | ⟨first, le'⟩
      · exact absurd middle plain
      · exact .inr ⟨first, String.le_trans le' le⟩

instance : Std.Total StepFirst where
  total first second := by
    by_cases last : second.relPath = "hane.exe"
    · exact .inl (.inl last)
    · by_cases executable : first.relPath = "hane.exe"
      · exact .inr (.inl executable)
      · exact (String.le_total first.relPath second.relPath).imp (fun le => .inr ⟨executable, le⟩)
          fun le => .inr ⟨last, le⟩

theorem Matched.executable_last (matched : Matched old new) {step : PlanStep}
    (member : step ∈ planSteps old new) (running : step.relPath = "hane.exe")
    : (planSteps old new).getLast? = some step := by
  have sorted : (planSteps old new).Pairwise StepFirst := List.pairwise_insertionSort StepFirst _
  have distinct := matched.distinct
  rw [List.map_append] at distinct
  have keys := (List.nodup_append.mp distinct).1
  rw [List.map_map] at keys
  generalize planSteps old new = steps at *
  rcases List.eq_nil_or_concat steps with rfl | ⟨before, last, rfl⟩
  · cases member
  · rw [List.concat_eq_append] at *
    rw [List.getLast?_append, List.getLast?_singleton, Option.some_or]
    rcases List.mem_append.mp member with earlier | final
    · have ordered :=
        (List.pairwise_append.mp sorted).2.2 step earlier last (List.mem_singleton_self _)
      have executable : last.relPath = "hane.exe" :=
        ordered.resolve_right fun plain => plain.1 running
      rw [List.map_append] at keys
      exact absurd (congrArg collisionKey (running.trans executable.symm))
        ((List.nodup_append.mp keys).2.2 _ (List.mem_map_of_mem earlier) _ (by simp))
    · rw [List.mem_singleton.mp final]

/-- The journal of a planned update names every path once but for case; its steps, in order, take
the files of the old release to those of the new one with the retained shell files, and in reverse
take them back; every other old file is listed as unchanged; the running executable comes last; and
every file replaced or removed has a backup that is no unchanged file, and a file of a step only in
a journal that applying refuses before it changes anything.
-/
theorem plan_updates (oldValid : old.inventory.validate crates = .ok ())
    (newValid : new.inventory.validate crates = .ok ())
    (planned : ApplyPlan.forInventories crates installId transactionId old new candidate = .ok plan)
    (begun : UpdateJournal.begin crates.toCrates serialize plan ticket = .ok journal)
    : ((plan.steps.map PlanStep.relPath ++ plan.unchanged.map UnchangedFile.relPath).map
          collisionKey).Nodup
      ∧ Change.makeAll (plan.steps.map PlanStep.change) (holding (releaseFiles old))
        = some (holding (releaseFiles new ++ retainedFiles old new))
      ∧ (∀ file ∈ old.inventory.files, file.path ∉ plan.steps.map PlanStep.relPath →
        ⟨file.path, file.identity⟩ ∈ plan.unchanged)
      ∧ (∀ step ∈ plan.steps, step.relPath = "hane.exe" → plan.steps.getLast? = some step)
      ∧ (∀ step ∈ plan.steps, step.old ≠ none →
        step.backupRel = some (backupPath step.relPath)
        ∧ backupPath step.relPath ∉ plan.unchanged.map UnchangedFile.relPath
        ∧ (backupPath step.relPath ∈ plan.steps.map PlanStep.relPath →
          ∀ state : UpdateState, state.memory = journal → ∀ ending final,
            Program.Runs updateOutside apply.run state ending final
            → final = state ∧ ∀ outcome, ending ≠ .finished (.ok outcome)))
      ∧ Change.makeAll ((plan.steps.map PlanStep.change).reverse.map Change.inverse)
          (holding (releaseFiles new ++ retainedFiles old new))
        = some (holding (releaseFiles old)) := by
  have matched := Matched.of_begun oldValid newValid planned begun
  obtain ⟨steps, unchanged, -⟩ := ApplyPlan.forInventories_ok planned
  obtain ⟨journalSteps, journalUnchanged, distinct⟩ := UpdateJournal.begin_keys begun
  have well := WellPlanned.of_validate (UpdateJournal.begin_ok begun).1
  refine ⟨distinct, ?_, ?_, ?_, ?_, ?_⟩
  · rw [steps]
    exact matched.between.makeAll_eq
  · intro file member unstepped
    rw [unchanged]
    rw [steps] at unstepped
    exact mem_unchangedFiles.mpr
      ⟨matched.oldSame.mem_iff.mpr (List.mem_map.mpr ⟨file, member, rfl⟩), unstepped⟩
  · rw [steps]
    exact fun step member running => matched.executable_last member running
  · intro step member replaced
    have carried : ⟨step.relPath, step.old, step.new, step.backupRel, .planned⟩
        ∈ journal.steps := by
      rw [journalSteps]
      exact List.mem_map.mpr ⟨step, member, rfl⟩
    refine ⟨well.backedUp _ carried replaced, ?_, ?_⟩
    · intro listed
      obtain ⟨file, present, same⟩ := List.mem_map.mp listed
      have outside := well.sheltered file (journalUnchanged ▸ present)
      rw [same, startsWithBackup_backupPath] at outside
      cases outside
    · intro stepped state memory ending final runs
      obtain ⟨other, present, same⟩ := List.mem_map.mp stepped
      have inside : startsWithBackup other.relPath = true := by
        rw [same, startsWithBackup_backupPath]
      have carried : ⟨other.relPath, other.old, other.new, other.backupRel, .planned⟩
          ∈ state.memory.steps := by
        rw [memory, journalSteps]
        exact List.mem_map.mpr ⟨other, present, rfl⟩
      have refuses := (apply_refuses carried inside).sound runs
      exact ⟨refuses.1, fun outcome ended => refuses.2 outcome ended⟩
  · rw [steps]
    exact matched.between.inverse.makeAll_eq

end Planned

-- A release with a file in the backup area

def clashingOld : SignedInventory where
  inventory := {
    sampleInventory with
    version := "0.29.0"
    files := [
      ⟨"hane.exe", 3, "1111111111111111111111111111111111111111111111111111111111111111"⟩,
      ⟨"shell-integration/0.29.0/hane.dll", 5,
        "5555555555555555555555555555555555555555555555555555555555555555"⟩] }
  raw := ⟨400, "3333333333333333333333333333333333333333333333333333333333333333"⟩
  signature := ⟨160, "4444444444444444444444444444444444444444444444444444444444444444"⟩
  rawSha256 := "3333333333333333333333333333333333333333333333333333333333333333"

def clashingNew : SignedInventory where
  inventory := {
    sampleInventory with
    files := [
      ⟨"hane.exe", 7, "93f2d6e90a2dedc724c55ccf654244d1bae8509facbad6cd85dea12c71c5127c"⟩,
      ⟨"backup/hane.exe", 9,
        "7777777777777777777777777777777777777777777777777777777777777777"⟩] }
  raw := ⟨410, "6666666666666666666666666666666666666666666666666666666666666666"⟩
  signature := ⟨160, "8888888888888888888888888888888888888888888888888888888888888888"⟩
  rawSha256 := "6666666666666666666666666666666666666666666666666666666666666666"

def clashingCandidate : VerifiedCandidate :=
  { sampleArchiveCandidate with
    entry := {
      sampleArchiveCandidate.entry with
      inventorySha256 := some clashingNew.rawSha256 } }

def clashingPlanBytes : List UInt8 :=
  asBytes ("\x7b\"install_id\":\"fedcba9876543210fedcba9876543210\",\"transaction_id\":\"0123456"
    ++ "789abcdef0123456789abcdef\",\"source\":\x7b\"target\":\"x86_64-pc-windows-msvc\",\"v"
    ++ "ersion\":\"0.29.0\",\"inventory_sha256\":\"33333333333333333333333333333333333333333"
    ++ "33333333333333333333333\"\x7d,\"destination\":\x7b\"target\":\"x86_64-pc-windows-msv"
    ++ "c\",\"version\":\"0.30.0\",\"catalog_sha256\":\"a7282abf2de489fa74c973bdff5ed998607c"
    ++ "58690e7c95868672037468a69e39\",\"inventory_sha256\":\"666666666666666666666666666666"
    ++ "6666666666666666666666666666666666\"\x7d,\"steps\":[\x7b\"rel_path\":\"backup/hane.e"
    ++ "xe\",\"old\":null,\"new\":\x7b\"size\":9,\"sha256\":\"777777777777777777777777777777"
    ++ "7777777777777777777777777777777777\"\x7d,\"backup_rel\":null\x7d,\x7b\"rel_path\":\""
    ++ "hane-install.json\",\"old\":\x7b\"size\":400,\"sha256\":\"33333333333333333333333333"
    ++ "33333333333333333333333333333333333333\"\x7d,\"new\":\x7b\"size\":410,\"sha256\":\"6"
    ++ "666666666666666666666666666666666666666666666666666666666666666\"\x7d,\"backup_rel\""
    ++ ":\"backup/hane-install.json\"\x7d,\x7b\"rel_path\":\"hane-install.json.sig\",\"old\""
    ++ ":\x7b\"size\":160,\"sha256\":\"44444444444444444444444444444444444444444444444444444"
    ++ "44444444444\"\x7d,\"new\":\x7b\"size\":160,\"sha256\":\"8888888888888888888888888888"
    ++ "888888888888888888888888888888888888\"\x7d,\"backup_rel\":\"backup/hane-install.json"
    ++ ".sig\"\x7d,\x7b\"rel_path\":\"hane.exe\",\"old\":\x7b\"size\":3,\"sha256\":\"1111111"
    ++ "111111111111111111111111111111111111111111111111111111111\"\x7d,\"new\":\x7b\"size\""
    ++ ":7,\"sha256\":\"93f2d6e90a2dedc724c55ccf654244d1bae8509facbad6cd85dea12c71c5127c\""
    ++ "\x7d,\"backup_rel\":\"backup/hane.exe\"\x7d],\"unchanged\":[\x7b\"rel_path\":\"shell"
    ++ "-integration/0.29.0/hane.dll\",\"identity\":\x7b\"size\":5,\"sha256\":\"555555555555"
    ++ "5555555555555555555555555555555555555555555555555555\"\x7d\x7d]\x7d")

/-- The linked crates with the real SHA-256 of that JSON and the versions of both releases. -/
def clashingCrates : ArchiveCrates (Inventory ⊕ SignatureFile) :=
  { sampleArchiveCrates with
    parseVersion := sampleCrates.parseVersion
    digest := fun bytes =>
      if bytes = clashingPlanBytes then
        [105, 169, 88, 70, 74, 194, 14, 120, 191, 141, 89, 62, 139, 104, 63, 221, 122, 12, 116,
          246, 133, 76, 253, 11, 40, 113, 126, 41, 210, 210, 240, 62]
      else sampleArchiveCrates.digest bytes }

def clashingPlan : ApplyPlan where
  installId := "fedcba9876543210fedcba9876543210"
  transactionId := "0123456789abcdef0123456789abcdef"
  source := .fromInventory clashingOld
  destination := .fromCandidate clashingCrates.toCrates clashingCandidate
  steps := [
    ⟨"backup/hane.exe", none,
      some ⟨9, "7777777777777777777777777777777777777777777777777777777777777777"⟩, none⟩,
    ⟨"hane-install.json", some clashingOld.raw, some clashingNew.raw,
      some "backup/hane-install.json"⟩,
    ⟨"hane-install.json.sig", some clashingOld.signature, some clashingNew.signature,
      some "backup/hane-install.json.sig"⟩,
    ⟨"hane.exe", some ⟨3, "1111111111111111111111111111111111111111111111111111111111111111"⟩,
      some ⟨7, "93f2d6e90a2dedc724c55ccf654244d1bae8509facbad6cd85dea12c71c5127c"⟩,
      some "backup/hane.exe"⟩]
  unchanged := [⟨"shell-integration/0.29.0/hane.dll",
    ⟨5, "5555555555555555555555555555555555555555555555555555555555555555"⟩⟩]

def clashingPlanJson (plan : ApplyPlan) : Except String (List UInt8) :=
  if plan = clashingPlan then .ok clashingPlanBytes else .error "unknown plan"

theorem clashingPlan_planned
    : ApplyPlan.forInventories clashingCrates clashingPlan.installId clashingPlan.transactionId
        clashingOld clashingNew clashingCandidate = .ok clashingPlan := by
  decide +kernel

theorem clashingPlan_begun
    : ∃ journal, UpdateJournal.begin clashingCrates.toCrates clashingPlanJson clashingPlan none
        = .ok journal :=
  except_ok_of_isOk (by decide +kernel)

theorem clashing_valid
    : clashingOld.inventory.validate clashingCrates = .ok ()
      ∧ clashingNew.inventory.validate clashingCrates = .ok () :=
  ⟨by decide +kernel, by decide +kernel⟩

/-- The steps of that plan lead from one release to the other and keep the shell library. -/
theorem plan_updates_clashing
    : Change.makeAll (clashingPlan.steps.map PlanStep.change) (holding (releaseFiles clashingOld))
        = some (holding (releaseFiles clashingNew ++ retainedFiles clashingOld clashingNew)) := by
  obtain ⟨journal, begun⟩ := clashingPlan_begun
  exact (plan_updates clashing_valid.1 clashing_valid.2 clashingPlan_planned begun).2.1

/-- The backup of the replaced executable is itself a file the plan adds. -/
theorem backups_not_apart
    : ¬∀ (Json : Type) (crates : ArchiveCrates Json)
        (serialize : ApplyPlan → Except String (List UInt8)) (installId transactionId : String)
        (old new : SignedInventory) (candidate : VerifiedCandidate) (plan : ApplyPlan)
        (ticket : Option String) (journal : UpdateJournal),
        old.inventory.validate crates = .ok () → new.inventory.validate crates = .ok () →
        ApplyPlan.forInventories crates installId transactionId old new candidate = .ok plan →
        UpdateJournal.begin crates.toCrates serialize plan ticket = .ok journal →
        ∀ step ∈ plan.steps, step.old ≠ none →
          ∃ backup, step.backupRel = some backup ∧ backup ∉ plan.steps.map PlanStep.relPath
            ∧ backup ∉ plan.unchanged.map UnchangedFile.relPath := by
  intro always
  obtain ⟨journal, begun⟩ := clashingPlan_begun
  obtain ⟨backup, held, apart, -⟩ := always _ clashingCrates clashingPlanJson _ _ clashingOld
    clashingNew clashingCandidate clashingPlan none journal clashing_valid.1 clashing_valid.2
    clashingPlan_planned begun
    ⟨"hane.exe", some ⟨3, "1111111111111111111111111111111111111111111111111111111111111111"⟩,
      some ⟨7, "93f2d6e90a2dedc724c55ccf654244d1bae8509facbad6cd85dea12c71c5127c"⟩,
      some "backup/hane.exe"⟩
    (by simp [clashingPlan]) (by simp)
  obtain rfl := Option.some.inj held
  exact apart (by simp [clashingPlan])

end Hane.Update
