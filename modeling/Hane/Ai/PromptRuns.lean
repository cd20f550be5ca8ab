import Hane.Ai.Prompts
import Hane.Foundations.Stateful
import Hane.Foundations.Traversals
import Mathlib.Data.List.Nodup

/-! Saves of the user's prompts in any order: what each of them stores, and which ids come back. -/

namespace Hane.Ai

open Hane.Document Hane.Foundations Hane.Foundations.Splitting

-- One save

def carriedIds (drafts : List UserPromptDraft) : List Nat := drafts.filterMap (·.id)

def UserPrompts.ids (stored : UserPrompts) : List Nat := stored.prompts.map (·.id)

structure UserPrompts.WellFormed (stored : UserPrompts) : Prop where
  version : stored.schemaVersion = userPromptsSchemaVersion
  distinct : stored.ids.Nodup
  issued : ∀ id ∈ stored.ids, id ≠ 0 ∧ id < stored.nextId

/-- An entry as its draft says, with the id it carries or a new one. -/
structure Fills (low high : Nat) (draft : UserPromptDraft) (entry : UserPrompt) : Prop where
  title : entry.title = trim draft.title
  prompt : entry.prompt = draft.prompt
  id : draft.id = some entry.id
    ∨ draft.id = none ∧ low ≤ entry.id ∧ entry.id < high ∧ entry.id ≠ 0

theorem Fills.mono {low low' high : Nat} {draft : UserPromptDraft} {entry : UserPrompt}
    (fills : Fills low high draft entry) (lower : low' ≤ low) : Fills low' high draft entry :=
  ⟨fills.title, fills.prompt,
    fills.id.imp_right fun minted => ⟨minted.1, Nat.le_trans lower minted.2.1, minted.2.2⟩⟩

/-- The ids that pass the check were issued before and differ, by induction on the drafts. -/
theorem checkIds_ok {nextId : Nat} {seen result : List Nat} {drafts : List UserPromptDraft}
    (checked : checkIds nextId seen drafts = .ok result)
    : (carriedIds drafts).Nodup
      ∧ ∀ id ∈ carriedIds drafts, id ∉ seen ∧ id ≠ 0 ∧ id < nextId := by
  induction drafts generalizing seen with
  | nil => exact ⟨List.nodup_nil, by simp [carriedIds]⟩
  | cons draft rest ih =>
      rw [checkIds] at checked
      cases carried : draft.id with
      | none =>
          rw [carried] at checked
          rw [carriedIds, List.filterMap_cons_none carried]
          exact ih checked
      | some id =>
          rw [carried] at checked
          dsimp only at checked
          rw [carriedIds, List.filterMap_cons_some carried]
          by_cases unissued : id = 0 ∨ nextId ≤ id
          · simp [unissued] at checked
          · by_cases twice : seen.contains id = true
            · rw [if_neg unissued, if_pos twice] at checked
              cases checked
            · simp only [if_neg unissued, if_neg twice] at checked
              obtain ⟨distinct, issued⟩ := ih checked
              rw [List.contains_iff_mem] at twice
              constructor
              · refine List.nodup_cons.mpr ⟨fun again => ?_, distinct⟩
                exact (issued id again).1 List.mem_cons_self
              · intro other member
                rcases List.mem_cons.mp member with rfl | member
                · exact ⟨twice, by omega, by omega⟩
                · obtain ⟨fresh, bounds⟩ := issued other member
                  exact ⟨fun old => fresh (List.mem_cons_of_mem id old), bounds⟩

theorem takeId_ok {nextId next id : Nat} {seen seen' : List Nat} {carried : Option Nat}
    (taken : takeId nextId seen carried = .ok (id, next, seen'))
    : carried = some id ∧ next = nextId
      ∨ carried = none ∧ id = nextId ∧ next = nextId + 1 ∧ id ≠ 0 := by
  cases carried with
  | some carried =>
      obtain ⟨rfl, rfl, rfl⟩ : carried = id ∧ nextId = next ∧ seen = seen' := by
        simpa [takeId] using taken
      exact .inl ⟨rfl, rfl⟩
  | none =>
      rw [takeId] at taken
      by_cases zero : nextId = 0
      · simp [zero] at taken
      · by_cases twice : seen.contains nextId = true
        · rw [if_neg zero, if_pos twice] at taken
          cases taken
        · by_cases small : nextId + 1 < 2 ^ 64
          · simp only [if_neg zero, if_neg twice, if_pos small, Except.ok.injEq,
              Prod.mk.injEq] at taken
            obtain ⟨rfl, rfl, rfl⟩ := taken
            exact .inr ⟨rfl, rfl, rfl, zero⟩
          · simp only [if_neg zero, if_neg twice, if_neg small] at taken
            cases taken

section Saves

variable {isAlphanumeric : Char → Bool}

theorem checkDraft_ok {draft : UserPromptDraft} {title : Text}
    (checked : checkDraft isAlphanumeric draft = .ok title) : title = trim draft.title := by
  unfold checkDraft at checked
  dsimp only at checked
  repeat' split at checked
  all_goals first | cases checked; done | skip
  exact (Except.ok.inj checked).symm

/-- The entries follow their drafts and have different ids, by induction on the drafts: a carried
id is below the counter, and the counter only goes up.
-/
theorem assignIds_ok {nextId next : Nat} {seen : List Nat} {drafts : List UserPromptDraft}
    {entries : List UserPrompt}
    (assigned : assignIds isAlphanumeric nextId seen drafts = .ok (entries, next))
    (distinct : (carriedIds drafts).Nodup) (issued : ∀ id ∈ carriedIds drafts, id < nextId)
    : nextId ≤ next
      ∧ List.Forall₂ (Fills nextId next) drafts entries
      ∧ (entries.map (·.id)).Nodup := by
  induction drafts generalizing nextId seen entries with
  | nil =>
      obtain ⟨rfl, rfl⟩ : [] = entries ∧ nextId = next := by simpa [assignIds] using assigned
      exact ⟨Nat.le_refl _, .nil, List.nodup_nil⟩
  | cons draft rest ih =>
      rw [assignIds, except_bind_ok_iff] at assigned
      obtain ⟨title, checked, assigned⟩ := assigned
      rw [except_bind_ok_iff] at assigned
      obtain ⟨⟨id, middle, seen'⟩, taken, assigned⟩ := assigned
      rw [except_bind_ok_iff] at assigned
      obtain ⟨⟨others, last⟩, later, assigned⟩ := assigned
      obtain ⟨rfl, rfl⟩ : ⟨id, title, draft.prompt⟩ :: others = entries ∧ last = next := by
        simpa [pure, Except.pure] using assigned
      have titled := checkDraft_ok checked
      rcases takeId_ok taken with ⟨carried, rfl⟩ | ⟨carried, rfl, rfl, nonzero⟩
      · rw [carriedIds, List.filterMap_cons_some carried] at distinct issued
        obtain ⟨once, distinct⟩ := List.nodup_cons.mp distinct
        have below := issued id List.mem_cons_self
        obtain ⟨grows, fills, apart⟩ := ih later distinct
          fun other member => issued other (List.mem_cons_of_mem id member)
        refine ⟨grows, .cons ⟨titled, rfl, .inl carried⟩ fills, List.nodup_cons.mpr ⟨?_, apart⟩⟩
        intro again
        obtain ⟨entry, member, same⟩ := List.mem_map.mp again
        obtain ⟨other, source, filled⟩ := exists_of_forall₂ fills _ member
        rcases filled.id with carries | minted
        · refine once (List.mem_filterMap.mpr ⟨other, source, ?_⟩)
          rw [carries, same]
        · have above := minted.2.1
          dsimp only at same
          omega
      · rw [carriedIds, List.filterMap_cons_none carried] at distinct issued
        obtain ⟨grows, fills, apart⟩ := ih later distinct fun other member =>
          Nat.lt_succ_of_lt (issued other member)
        have minted : id < last := grows
        refine ⟨Nat.le_of_lt minted,
          .cons ⟨titled, rfl, .inr ⟨carried, Nat.le_refl id, minted, nonzero⟩⟩
            (fills.imp fun _ _ filled => filled.mono (Nat.le_succ _)),
          List.nodup_cons.mpr ⟨?_, apart⟩⟩
        intro again
        obtain ⟨entry, member, same⟩ := List.mem_map.mp again
        obtain ⟨other, source, filled⟩ := exists_of_forall₂ fills _ member
        dsimp only at same
        rcases filled.id with carries | above
        · have below := issued entry.id (List.mem_filterMap.mpr ⟨other, source, carries⟩)
          omega
        · omega

/-- The new list of a save that passes all checks. -/
structure Replaces (stored : UserPrompts) (expectedRevision : Nat)
    (drafts : List UserPromptDraft) (new : UserPrompts) : Prop where
  expected : stored.revision = expectedRevision
  revision : new.revision = stored.revision + 1
  counter : stored.nextId ≤ new.nextId
  carried : ∀ id ∈ carriedIds drafts, id ≠ 0 ∧ id < stored.nextId
  fills : List.Forall₂ (Fills stored.nextId new.nextId) drafts new.prompts
  formed : new.WellFormed

theorem nextRevision_ok {stored new : UserPrompts} {expectedRevision : Nat}
    {drafts : List UserPromptDraft}
    (passed : nextRevision isAlphanumeric stored expectedRevision drafts = .ok new)
    : Replaces stored expectedRevision drafts new := by
  rw [nextRevision] at passed
  simp only [ne_eq, except_guard_ok_iff, not_not, except_bind_ok_iff] at passed
  obtain ⟨expected, -, seen, checked, ⟨entries, next⟩, assigned, passed⟩ := passed
  obtain ⟨distinct, issued⟩ := checkIds_ok checked
  obtain ⟨grows, fills, apart⟩ :=
    assignIds_ok assigned distinct fun id member => (issued id member).2.2
  by_cases small : stored.revision + 1 < 2 ^ 64
  · simp only [if_pos small] at passed
    obtain rfl := Except.ok.inj passed
    refine ⟨expected, rfl, grows, fun id member => (issued id member).2, fills,
      ⟨rfl, apart, ?_⟩⟩
    intro id member
    obtain ⟨entry, kept, rfl⟩ := List.mem_map.mp member
    obtain ⟨draft, source, filled⟩ := exists_of_forall₂ fills _ kept
    rcases filled.id with carries | minted
    · have bounds := issued entry.id (List.mem_filterMap.mpr ⟨draft, source, carries⟩)
      exact ⟨bounds.2.1, Nat.lt_of_lt_of_le bounds.2.2 grows⟩
    · exact ⟨minted.2.2.2, minted.2.2.1⟩
  · simp only [if_neg small] at passed
    cases passed

def stored (file : Option UserPrompts) : UserPrompts := file.getD .none

theorem loadPrompts_ok {file current : Option UserPrompts} {readFailure : Option String}
    (loaded : loadPrompts file readFailure = .ok current) : current = file := by
  unfold loadPrompts at loaded
  split at loaded
  · cases loaded
  · split at loaded
    · exact (Except.ok.inj loaded).symm
    · split at loaded
      · cases loaded
      · exact (Except.ok.inj loaded).symm

theorem prepareSave_ok {file : Option UserPrompts} {disk : Disk} {new : UserPrompts}
    {expectedRevision : Nat} {drafts : List UserPromptDraft}
    (passed : prepareSave isAlphanumeric file disk expectedRevision drafts = .ok new)
    : Replaces (stored file) expectedRevision drafts new := by
  unfold prepareSave at passed
  split at passed
  · cases passed
  · cases passed
  · rw [except_bind_ok_iff] at passed
    obtain ⟨current, loaded, passed⟩ := passed
    rw [except_mapError_ok_iff] at loaded
    obtain rfl := loadPrompts_ok loaded
    exact nextRevision_ok passed

theorem savePrompts_cases (file : Option UserPrompts) (disk : Disk) (expectedRevision : Nat)
    (drafts : List UserPromptDraft)
    : (∃ error,
        savePrompts isAlphanumeric file disk expectedRevision drafts = (.error error, file))
      ∨ ∃ new, Replaces (stored file) expectedRevision drafts new
        ∧ (savePrompts isAlphanumeric file disk expectedRevision drafts = (.ok new, some new)
          ∨ ∃ reason, savePrompts isAlphanumeric file disk expectedRevision drafts
            = (.error (.persistedDurabilityUnconfirmed reason), some new)) := by
  unfold savePrompts
  cases passed : prepareSave isAlphanumeric file disk expectedRevision drafts with
  | error error => exact .inl ⟨error, rfl⟩
  | ok new =>
      cases disk.write with
      | written => exact .inr ⟨new, prepareSave_ok passed, .inl rfl⟩
      | notPersisted reason => exact .inl ⟨.io reason, rfl⟩
      | renamedUnsynced reason => exact .inr ⟨new, prepareSave_ok passed, .inr ⟨reason, rfl⟩⟩

end Saves

-- Any number of saves

/-- One call of `save`, by any client. -/
structure SaveCall where
  disk : Disk
  expectedRevision : Nat
  drafts : List UserPromptDraft

section Runs

variable (isAlphanumeric : Char → Bool)

def SaveCall.run (call : SaveCall) (file : Option UserPrompts)
    : Except UserPromptsSaveError UserPrompts × Option UserPrompts :=
  savePrompts isAlphanumeric file call.disk call.expectedRevision call.drafts

def savedFile (file : Option UserPrompts) : List SaveCall → Option UserPrompts
  | [] => file
  | call :: rest => savedFile (call.run isAlphanumeric file).2 rest

/-- An id that was issued and is no longer stored. -/
def Removed (file : Option UserPrompts) (id : Nat) : Prop :=
  id ≠ 0 ∧ id < (stored file).nextId ∧ id ∉ (stored file).ids

/-- No save that expects the stored revision carries an id that was removed. -/
def CarriesNoRemovedIds (file : Option UserPrompts) : List SaveCall → Prop
  | [] => True
  | call :: rest =>
      ((stored file).revision = call.expectedRevision
        → ∀ id ∈ carriedIds call.drafts, ¬Removed file id)
      ∧ CarriesNoRemovedIds (call.run isAlphanumeric file).2 rest

variable {file : Option UserPrompts}

theorem SaveCall.run_cases (call : SaveCall) (file : Option UserPrompts)
    : (∃ error, call.run isAlphanumeric file = (.error error, file))
      ∨ ∃ new,
        Replaces (stored file) call.expectedRevision call.drafts new
        ∧ (call.run isAlphanumeric file = (.ok new, some new)
          ∨ ∃ reason,
            call.run isAlphanumeric file
            = (.error (.persistedDurabilityUnconfirmed reason), some new)) :=
  savePrompts_cases file call.disk call.expectedRevision call.drafts

theorem SaveCall.wellFormed (formed : (stored file).WellFormed) (call : SaveCall)
    : (stored (call.run isAlphanumeric file).2).WellFormed := by
  rcases call.run_cases isAlphanumeric file with
    ⟨error, same⟩ | ⟨new, replaces, same | ⟨reason, same⟩⟩
  · rwa [same]
  · rw [same]
    exact replaces.formed
  · rw [same]
    exact replaces.formed

theorem savedFile_wellFormed (formed : (stored file).WellFormed) (calls : List SaveCall)
    : (stored (savedFile isAlphanumeric file calls)).WellFormed := by
  induction calls generalizing file with
  | nil => exact formed
  | cons call rest ih => exact ih (call.wellFormed isAlphanumeric formed)

theorem wellFormed_none : (stored none).WellFormed :=
  ⟨rfl, List.nodup_nil, fun _ member => absurd member List.not_mem_nil⟩

theorem Replaces.kept {old new : UserPrompts} {expectedRevision : Nat}
    {drafts : List UserPromptDraft} (replaces : Replaces old expectedRevision drafts new)
    {entry : UserPrompt} (member : entry ∈ new.prompts) (issued : entry.id < old.nextId)
    : ∃ draft ∈ drafts,
        draft.id = some entry.id ∧ entry.title = trim draft.title
        ∧ entry.prompt = draft.prompt := by
  obtain ⟨draft, source, filled⟩ := exists_of_forall₂ replaces.fills _ member
  rcases filled.id with carries | minted
  · exact ⟨draft, source, carries, filled.title, filled.prompt⟩
  · exact absurd issued (Nat.not_lt.mpr minted.2.1)

theorem Replaces.removed {new : UserPrompts} {expectedRevision id : Nat}
    {drafts : List UserPromptDraft} (replaces : Replaces (stored file) expectedRevision drafts new)
    (removed : Removed file id) (uncarried : id ∉ carriedIds drafts) : Removed (some new) id := by
  obtain ⟨nonzero, issued, -⟩ := removed
  refine ⟨nonzero, Nat.lt_of_lt_of_le issued replaces.counter, ?_⟩
  intro again
  obtain ⟨entry, member, rfl⟩ := List.mem_map.mp again
  obtain ⟨draft, source, carries, -⟩ := replaces.kept member issued
  exact uncarried (List.mem_filterMap.mpr ⟨draft, source, carries⟩)

variable {isAlphanumeric}

/-- Removed ids stay removed, by induction on the saves. -/
theorem savedFile_removed {calls : List SaveCall} {id : Nat} (removed : Removed file id)
    (uncarried : CarriesNoRemovedIds isAlphanumeric file calls)
    : Removed (savedFile isAlphanumeric file calls) id := by
  induction calls generalizing file with
  | nil => exact removed
  | cons call rest ih =>
      obtain ⟨here, later⟩ := uncarried
      refine ih ?_ later
      have keeps {new : UserPrompts}
          (replaces : Replaces (stored file) call.expectedRevision call.drafts new)
          : Removed (some new) id :=
        replaces.removed removed fun carried => here replaces.expected id carried removed
      rcases call.run_cases isAlphanumeric file with
        ⟨error, same⟩ | ⟨new, replaces, same | ⟨reason, same⟩⟩
      · rwa [same]
      · rw [same]
        exact keeps replaces
      · rw [same]
        exact keeps replaces

/-- Whatever saves come before and after one from no file on: lists are well-formed, a save
succeeds only with the stored revision and counts it up by one, and with an error it leaves the
file alone unless its durability is not confirmed. Kept ids name the entries of the drafts that
carry them, and removed ids do not come back as long as no save carries one.
-/
theorem saves_run (isAlphanumeric : Char → Bool) (earlier : List SaveCall) (call : SaveCall)
    (later : List SaveCall)
    : ∃ before outcome final,
        before = savedFile isAlphanumeric none earlier
        ∧ (outcome, final) = call.run isAlphanumeric before
        ∧ (stored before).WellFormed
        ∧ (stored final).WellFormed
        ∧ (∀ new,
          outcome = .ok new
          → final = some new
            ∧ (stored before).revision = call.expectedRevision
            ∧ new.revision = (stored before).revision + 1)
        ∧ (∀ error,
          outcome = .error error
          → (∀ reason, error ≠ .persistedDurabilityUnconfirmed reason)
          → final = before)
        ∧ (∀ entry ∈ (stored final).prompts,
          entry.id ∈ (stored before).ids
          → final = before
            ∨ ∃ draft ∈ call.drafts,
              draft.id = some entry.id ∧ entry.title = trim draft.title
              ∧ entry.prompt = draft.prompt)
        ∧ (CarriesNoRemovedIds isAlphanumeric final later
          → ∀ id ∈ (stored before).ids,
              id ∉ (stored final).ids
              → id ∉ (stored (savedFile isAlphanumeric final later)).ids) := by
  have formed := savedFile_wellFormed isAlphanumeric wellFormed_none earlier
  generalize savedFile isAlphanumeric none earlier = before at formed ⊢
  refine ⟨before, (call.run isAlphanumeric before).1, (call.run isAlphanumeric before).2, rfl, rfl,
    formed, call.wellFormed isAlphanumeric formed, ?_⟩
  rcases call.run_cases isAlphanumeric before with
    ⟨error, same⟩ | ⟨new, replaces, outcome⟩
  · rw [same]
    refine ⟨?_, fun _ _ _ => rfl, fun _ _ _ => .inl rfl, ?_⟩
    · rintro new ⟨⟩
    · intro _ id kept gone
      exact absurd kept gone
  · have final : (call.run isAlphanumeric before).2 = some new := by
      rcases outcome with same | ⟨reason, same⟩ <;> rw [same]
    rw [final]
    refine ⟨?_, ?_, ?_, ?_⟩
    · intro other succeeds
      rcases outcome with same | ⟨reason, same⟩
      · rw [same] at succeeds
        obtain rfl := Except.ok.inj succeeds
        exact ⟨rfl, replaces.expected, replaces.revision⟩
      · rw [same] at succeeds
        cases succeeds
    · intro error fails confirmed
      rcases outcome with same | ⟨reason, same⟩
      · rw [same] at fails
        cases fails
      · rw [same] at fails
        exact absurd (Except.error.inj fails).symm (confirmed reason)
    · intro entry member kept
      exact .inr (replaces.kept member (formed.issued _ kept).2)
    · intro uncarried id stored gone
      obtain ⟨nonzero, issued⟩ := formed.issued id stored
      have removed : Removed (some new) id :=
        ⟨nonzero, Nat.lt_of_lt_of_le issued replaces.counter, gone⟩
      exact (savedFile_removed removed uncarried).2.2

end Runs

-- An id that comes back

theorem countVariables_plain {isAlphanumeric : Char → Bool} {prompt : Text}
    (plain : splitFirst ['\x7b', '\x7b'] prompt = none) (count : VariableCount)
    : countVariables isAlphanumeric prompt count = count := by
  unfold countVariables
  split
  · rfl
  · rename_i opened
    rw [plain] at opened
    cases opened

/-- A save of entries `a`, each new or with an id, on a disk that fails nowhere. -/
def plainSave (revision : Nat) (ids : List (Option Nat)) : SaveCall where
  disk := ⟨.acquired, none, .written⟩
  expectedRevision := revision
  drafts := ids.map fun id => ⟨id, ['a'], ['a']⟩

theorem checkDraft_plain (id : Option Nat)
    : checkDraft Char.isAlphanum ⟨id, ['a'], ['a']⟩ = .ok ['a'] := by
  have template : parsePromptTemplate Char.isAlphanum ['a'] = .ok none := by
    rw [parsePromptTemplate, countVariables_plain (by decide)]
    rfl
  have title : trim ['a'] = ['a'] := by decide
  unfold checkDraft
  rw [template, title]
  rfl

theorem SaveCall.run_written {isAlphanumeric : Char → Bool} {call : SaveCall}
    {file : Option UserPrompts} {seen : List Nat} {entries : List UserPrompt} {next : Nat}
    (calm : call.disk = ⟨.acquired, none, .written⟩)
    (readable : (stored file).schemaVersion ≤ userPromptsSchemaVersion)
    (expected : (stored file).revision = call.expectedRevision)
    (few : call.drafts.length ≤ maxPromptCount)
    (checked : checkIds (stored file).nextId [] call.drafts = .ok seen)
    (assigned :
      assignIds isAlphanumeric (stored file).nextId seen call.drafts = .ok (entries, next))
    (small : (stored file).revision + 1 < 2 ^ 64)
    : ∃ new,
        new = ⟨userPromptsSchemaVersion, (stored file).revision + 1, next, entries⟩
        ∧ call.run isAlphanumeric file = (.ok new, some new) := by
  have loaded : loadPrompts file none = .ok file := by
    cases file with
    | none => rfl
    | some prompts => exact if_neg (Nat.not_lt.mpr readable)
  have revised : nextRevision isAlphanumeric (stored file) call.expectedRevision call.drafts
      = .ok ⟨userPromptsSchemaVersion, (stored file).revision + 1, next, entries⟩ := by
    rw [nextRevision, if_neg (not_not.mpr expected), if_neg (Nat.not_lt.mpr few), checked]
    simp only [bind, Except.bind, assigned, if_pos small]
    rfl
  have prepared : prepareSave isAlphanumeric file call.disk call.expectedRevision call.drafts
      = .ok ⟨userPromptsSchemaVersion, (stored file).revision + 1, next, entries⟩ := by
    rw [prepareSave, calm]
    change (loadPrompts file none).mapError _ >>= _ = _
    rw [loaded]
    exact revised
  refine ⟨_, rfl, ?_⟩
  rw [run, savePrompts, prepared, calm]

theorem plainSave_first
    : (plainSave 0 [none]).run Char.isAlphanum none
      = (.ok ⟨1, 1, 2, [⟨1, ['a'], ['a']⟩]⟩, some ⟨1, 1, 2, [⟨1, ['a'], ['a']⟩]⟩) := by
  have assigned : assignIds Char.isAlphanum 1 [] [⟨none, ['a'], ['a']⟩]
      = .ok ([⟨1, ['a'], ['a']⟩], 2) := by
    rw [assignIds, checkDraft_plain]
    rfl
  obtain ⟨new, rfl, written⟩ := @SaveCall.run_written Char.isAlphanum (plainSave 0 [none]) none
    _ _ _ rfl (by decide) rfl (by decide) rfl assigned (by decide)
  exact written

theorem plainSave_second
    : (plainSave 1 []).run Char.isAlphanum (some ⟨1, 1, 2, [⟨1, ['a'], ['a']⟩]⟩)
      = (.ok ⟨1, 2, 2, []⟩, some ⟨1, 2, 2, []⟩) := by
  obtain ⟨new, rfl, written⟩ := @SaveCall.run_written Char.isAlphanum (plainSave 1 [])
    (some ⟨1, 1, 2, [⟨1, ['a'], ['a']⟩]⟩) _ _ _ rfl (by decide) rfl (by decide) rfl rfl
    (by decide)
  exact written

/-- A deleted id is not given out again. -/
theorem saves_run_deleted
    : 1 ∉ (stored (savedFile Char.isAlphanum none
        [plainSave 0 [none], plainSave 1 [], plainSave 2 [none]])).ids := by
  obtain ⟨before, outcome, final, rfl, ran, -, -, -, -, -, removed⟩ :=
    saves_run Char.isAlphanum [plainSave 0 [none]] (plainSave 1 []) [plainSave 2 [none]]
  rw [savedFile, plainSave_first, savedFile] at ran removed
  rw [plainSave_second] at ran
  obtain ⟨-, rfl⟩ := Prod.mk.inj ran
  rw [savedFile, plainSave_first, savedFile, plainSave_second]
  refine removed ⟨?_, trivial⟩ 1 (by decide) (by decide)
  intro _ id carried
  cases carried

/-- An entry is stored under the id 1, deleted, and stored again by a draft that still carries the
id.
-/
theorem saves_resurrect
    : ¬∀ earlier call later id new,
        (SaveCall.run Char.isAlphanum call (savedFile Char.isAlphanum none earlier)).1 = .ok new
        → id ∈ (stored (savedFile Char.isAlphanum none earlier)).ids
        → id ∉ new.ids
        → id ∉ (stored (savedFile Char.isAlphanum (some new) later)).ids := by
  intro sound
  have assigned : assignIds Char.isAlphanum 2 [1] [⟨some 1, ['a'], ['a']⟩]
      = .ok ([⟨1, ['a'], ['a']⟩], 2) := by
    rw [assignIds, checkDraft_plain]
    rfl
  obtain ⟨new, rfl, third⟩ := @SaveCall.run_written Char.isAlphanum (plainSave 2 [some 1])
    (some ⟨1, 2, 2, []⟩) _ _ _ rfl (by decide) rfl (by decide) rfl assigned (by decide)
  have gone := sound [plainSave 0 [none]] (plainSave 1 []) [plainSave 2 [some 1]] 1 ⟨1, 2, 2, []⟩
  rw [savedFile, plainSave_first, savedFile, plainSave_second, savedFile, third] at gone
  exact gone rfl (by decide) (by decide) (by decide)

end Hane.Ai
