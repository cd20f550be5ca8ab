import Hane.Session.Pins

/-! Good pin lists: valid paths that are distinct, kept by every update as long as no drive comes to
stand at the start of a path.
-/

namespace Hane.Session

open Hane.Foundations

variable {α : Type} [DecidableEq α] {os : OsRules α}

-- Valid paths

/-- A root-relative path of plain names, outside the state directory. -/
structure PinPath (os : OsRules α) (path : List α) : Prop where
  exists_names
    : ∃ first names,
        os.components path = (first :: names).map PathComponent.normal ∧ first ≠ os.haneName

/-- Behind the first component only names pass, by induction over the components. -/
theorem validateComponents_ok {path : List α} {count : Nat} {components : List (PathComponent α)}
    (valid : validateComponents os path (count + 1) components = .ok ())
    : ∃ names : List (List α), components = names.map PathComponent.normal := by
  induction components generalizing count with
  | nil => exact ⟨[], rfl⟩
  | cons component rest ih =>
      cases component with
      | normal name =>
          rw [validateComponents, if_neg (by simp)] at valid
          obtain ⟨names, rfl⟩ := ih valid
          exact ⟨name :: names, rfl⟩
      | anchor path => simp [validateComponents] at valid
      | curDir => simp [validateComponents] at valid
      | parentDir => simp [validateComponents] at valid

theorem validateComponents_names (path : List α) (count : Nat) (names : List (List α))
    : validateComponents os path (count + 1) (names.map PathComponent.normal) = .ok () := by
  induction names generalizing count with
  | nil => rfl
  | cons name rest ih =>
      rw [List.map_cons, validateComponents, if_neg (by simp)]
      exact ih (count + 1)

/-- The check passes on the valid paths exactly. -/
theorem validatePinPath_ok_iff {path : List α}
    : validatePinPath os path = .ok () ↔ PinPath os path := by
  constructor
  · intro valid
    rw [validatePinPath] at valid
    cases whole : os.components path with
    | nil => simp [whole, validateComponents] at valid
    | cons component rest =>
        rw [whole] at valid
        cases component with
        | normal name =>
            rw [validateComponents] at valid
            split at valid
            next => cases valid
            next outside =>
              obtain ⟨names, rfl⟩ := validateComponents_ok valid
              exact ⟨name, names, whole, by simpa using outside⟩
        | anchor path => simp [validateComponents] at valid
        | curDir => simp [validateComponents] at valid
        | parentDir => simp [validateComponents] at valid
  · rintro ⟨first, names, whole, outside⟩
    rw [validatePinPath, whole, List.map_cons, validateComponents, if_neg (by simp [outside])]
    exact validateComponents_names path 0 names

theorem PinPath.plain {path : List α} (valid : PinPath os path) : os.Plain path := by
  obtain ⟨first, names, whole, _⟩ := valid.exists_names
  exact PathRules.plain_of_normal whole

theorem PinPath.ne_nil {path : List α} (valid : PinPath os path) : path ≠ [] := by
  rintro rfl
  obtain ⟨first, names, whole, _⟩ := valid.exists_names
  rw [valid.plain.components, PathRules.nameComponents_nil] at whole
  cases whole

-- Moves

theorem PinPath.stripPrefix {path base rest : List α} (valid : PinPath os path)
    (strips : os.stripPrefix path base = some rest)
    : ∃ names : List (List α), os.nameComponents rest = names.map PathComponent.normal := by
  obtain ⟨first, names, whole, _⟩ := valid.exists_names
  have parts := (valid.plain.stripPrefix strips).1
  rw [whole] at parts
  obtain ⟨_, after, _, _, same⟩ := List.map_eq_append_iff.mp parts
  exact ⟨after, same.symm⟩

/-- A path below a renamed folder stays valid when what is left of it has no prefix. -/
theorem PinPath.rebase {path source target moved : List α} (valid : PinPath os path)
    (validTarget : PinPath os target) (moves : rebase os path source target = some moved)
    (relative : ∀ rest, os.stripPrefix path source = some rest → os.hasPrefix rest = false)
    : PinPath os moved := by
  rw [Session.rebase, Option.map_eq_some_iff] at moves
  obtain ⟨rest, strips, moves⟩ := moves
  split at moves
  next =>
    subst moved
    exact validTarget
  next =>
    subst moved
    have free : os.isAnchored rest = false := by
      simp [PathRules.isAnchored, relative rest strips, (valid.plain.stripPrefix strips).2.1]
    obtain ⟨plain, components⟩ := validTarget.plain.join validTarget.ne_nil free
    obtain ⟨first, names, whole, outside⟩ := validTarget.exists_names
    obtain ⟨others, behind⟩ := valid.stripPrefix strips
    refine ⟨first, names ++ others, ?_, outside⟩
    rw [plain.components, components, ← validTarget.plain.components, whole, behind,
      ← List.map_append, List.cons_append]

-- Good lists

/-- The list of a work folder: valid paths, no two of them the same. -/
structure GoodPins (os : OsRules α) (entries : List (PinnedEntry α)) : Prop where
  valid : ∀ entry ∈ entries, PinPath os entry.relativePath
  distinct
    : entries.Pairwise fun entry other =>
        os.samePath entry.relativePath other.relativePath = false

theorem GoodPins.nil : GoodPins os [] := ⟨by simp, .nil⟩

theorem GoodPins.sublist {entries kept : List (PinnedEntry α)} (good : GoodPins os entries)
    (fewer : kept.Sublist entries)
    : GoodPins os kept :=
  ⟨fun entry member => good.valid entry (fewer.subset member), good.distinct.sublist fewer⟩

theorem samePath_comm (left right : List α) : os.samePath left right = os.samePath right left := by
  simp [PathRules.samePath, eq_comm]

/-- What is kept is part of the entries, has none of the seen paths and no path twice, by
induction over the entries.
-/
theorem dedupeFrom_spec (seen : List (List α)) (entries : List (PinnedEntry α))
    : (dedupeFrom os seen entries).Sublist entries
      ∧ (∀ entry ∈ dedupeFrom os seen entries, ∀ path ∈ seen,
          os.samePath path entry.relativePath = false)
      ∧ (dedupeFrom os seen entries).Pairwise fun entry other =>
          os.samePath entry.relativePath other.relativePath = false := by
  induction entries generalizing seen with
  | nil => exact ⟨.slnil, by simp [dedupeFrom], .nil⟩
  | cons entry rest ih =>
      rw [dedupeFrom]
      split
      next =>
        obtain ⟨fewer, unseen, distinct⟩ := ih seen
        exact ⟨.cons entry fewer, unseen, distinct⟩
      next fresh =>
        obtain ⟨fewer, unseen, distinct⟩ := ih (seen ++ [entry.relativePath])
        refine ⟨.cons_cons entry fewer, ?_, ?_⟩
        · intro other member path old
          cases member with
          | head =>
              have unseen : ∀ path ∈ seen, os.samePath path entry.relativePath = false := by
                simpa using fresh
              exact unseen path old
          | tail _ member => exact unseen other member path (by simp [old])
        · exact .cons (fun other member => unseen other member _ (by simp)) distinct

theorem goodPins_dedupe {entries : List (PinnedEntry α)}
    (valid : ∀ entry ∈ entries, PinPath os entry.relativePath)
    : GoodPins os (dedupe os entries) := by
  have kept : (dedupeFrom os [] entries).Sublist entries ∧ _ := dedupeFrom_spec [] entries
  obtain ⟨fewer, -, distinct⟩ := kept
  exact ⟨fun entry member => valid entry (fewer.subset member), distinct⟩

theorem GoodPins.changeEntries {entries working : List (PinnedEntry α)} {changed : Bool}
    {change : PinnedEntry α → Option (PinnedEntry α)} (good : GoodPins os entries)
    (keeps
      : ∀ entry ∈ entries, ∀ becomes,
          change entry = some becomes → PinPath os becomes.relativePath)
    (changes : changeEntries os change entries = (changed, working))
    : GoodPins os working := by
  rw [Session.changeEntries] at changes
  split at changes
  next =>
    obtain ⟨-, rfl⟩ := Prod.mk.inj changes
    refine goodPins_dedupe fun entry member => ?_
    obtain ⟨old, present, rfl⟩ := List.mem_map.mp member
    cases changed : change old with
    | none => simpa using good.valid old present
    | some new => simpa using keeps old present new changed
  next =>
    obtain ⟨-, rfl⟩ := Prod.mk.inj changes
    exact good

/-- The folder renames that leave no drive at the start of a pin: what is left of an entry below
the folder has no prefix.
-/
def StaysRelative (os : OsRules α) (entries : List (PinnedEntry α)) : PinUpdate α → Prop
  | .renameFolder source target =>
    PinPath os target
    → ∀ entry ∈ entries, ∀ rest,
        os.stripPrefix entry.relativePath source = some rest → os.hasPrefix rest = false
  | _ => True

theorem GoodPins.cons {entries : List (PinnedEntry α)} {entry : PinnedEntry α}
    (good : GoodPins os entries) (valid : PinPath os entry.relativePath)
    (fresh
      : ∀ existing ∈ entries, os.samePath existing.relativePath entry.relativePath = false)
    : GoodPins os (entry :: entries) :=
  ⟨List.forall_mem_cons.mpr ⟨valid, good.valid⟩,
    .cons (fun other member => by rw [samePath_comm, fresh other member]) good.distinct⟩

/-- A guarded update went past its guard. -/
theorem of_validatePinPath {β : Type} {path : List α} {rest : Except (PinError α) β} {result : β}
    (ends : (do validatePinPath os path; rest) = .ok result)
    : PinPath os path ∧ rest = .ok result := by
  cases checked : validatePinPath os path with
  | error error =>
      rw [checked] at ends
      cases ends
  | ok =>
      rw [checked] at ends
      exact ⟨validatePinPath_ok_iff.mp checked, ends⟩

theorem GoodPins.applyPinUpdate {entries working : List (PinnedEntry α)} {update : PinUpdate α}
    {changed : Bool} (good : GoodPins os entries) (stays : StaysRelative os entries update)
    (applies : applyPinUpdate os entries update = .ok (changed, working))
    : GoodPins os working := by
  cases update with
  | pin entry =>
      obtain ⟨valid, applies⟩ := of_validatePinPath applies
      split at applies
      next =>
        cases applies
        exact good
      next fresh =>
        cases applies
        exact good.cons valid (by simpa using fresh)
  | unpin path =>
      cases applies
      exact good.sublist List.filter_sublist
  | renameFile source target =>
      obtain ⟨valid, applies⟩ := of_validatePinPath applies
      refine good.changeEntries (fun entry _ renamed becomes => ?_) (Except.ok.inj applies)
      rw [renamedEntry] at becomes
      split at becomes
      next =>
        cases becomes
        exact valid
      next => cases becomes
  | renameFolder source target =>
      obtain ⟨valid, applies⟩ := of_validatePinPath applies
      refine good.changeEntries (fun entry member renamed becomes => ?_) (Except.ok.inj applies)
      obtain ⟨moved, moves, rfl⟩ := Option.map_eq_some_iff.mp becomes
      exact (good.valid entry member).rebase valid moves (stays valid entry member)
  | remove path folder =>
      cases folder <;>
      · cases applies
        exact good.sublist List.filter_sublist

/-- An update that reports no change leaves the list as it is. -/
theorem applyPinUpdate_unchanged {entries working : List (PinnedEntry α)} {update : PinUpdate α}
    (applies : applyPinUpdate os entries update = .ok (false, working))
    : working = entries := by
  have kept : ∀ {stays : PinnedEntry α → Bool},
      retainEntries stays entries = (false, working) → working = entries := by
    intro stays same
    obtain ⟨whole, rfl⟩ := Prod.mk.inj same
    simpa using whole
  have same : ∀ {change : PinnedEntry α → Option (PinnedEntry α)},
      changeEntries os change entries = (false, working) → working = entries := by
    intro change same
    rw [changeEntries] at same
    split at same <;> cases same
    rfl
  cases update with
  | pin entry =>
      obtain ⟨-, applies⟩ := of_validatePinPath applies
      split at applies <;> cases applies
      rfl
  | unpin path => exact kept (Except.ok.inj applies)
  | renameFile source target => exact same (Except.ok.inj (of_validatePinPath applies).2)
  | renameFolder source target => exact same (Except.ok.inj (of_validatePinPath applies).2)
  | remove path folder =>
      cases folder with
      | true => exact kept (Except.ok.inj applies)
      | false => exact kept (Except.ok.inj applies)

-- Lists of updates

/-- Every folder rename of the updates, at the list it meets, leaves no drive at the start of a
pin.
-/
def StayRelative (os : OsRules α) (entries : List (PinnedEntry α)) : List (PinUpdate α) → Prop
  | [] => True
  | update :: rest =>
    StaysRelative os entries update
    ∧ ∀ changed working,
        applyPinUpdate os entries update = .ok (changed, working) → StayRelative os working rest

/-- One more update in front of others. -/
theorem applyFrom_cons {changed now : Bool} {entries result : List (PinnedEntry α)}
    {update : PinUpdate α} {rest : List (PinUpdate α)}
    (applies : applyFrom os changed entries (update :: rest) = .ok (now, result))
    : ∃ first working, applyPinUpdate os entries update = .ok (first, working)
        ∧ applyFrom os (changed || first) working rest = .ok (now, result) := by
  rw [applyFrom] at applies
  cases step : applyPinUpdate os entries update with
  | error error =>
      rw [step] at applies
      cases applies
  | ok next =>
      rw [step] at applies
      exact ⟨next.1, next.2, rfl, applies⟩

/-- Any updates keep a list good, by induction over them. -/
theorem GoodPins.applyFrom {changed now : Bool} {entries result : List (PinnedEntry α)}
    {updates : List (PinUpdate α)} (good : GoodPins os entries)
    (stay : StayRelative os entries updates)
    (applies : applyFrom os changed entries updates = .ok (now, result))
    : GoodPins os result := by
  induction updates generalizing entries changed with
  | nil =>
      cases applies
      exact good
  | cons update rest ih =>
      obtain ⟨first, working, step, applies⟩ := applyFrom_cons applies
      exact ih (good.applyPinUpdate stay.1 step) (stay.2 first working step) applies

/-- Updates that report no change leave the list as it is, by induction over them. -/
theorem applyFrom_unchanged {changed : Bool} {entries result : List (PinnedEntry α)}
    {updates : List (PinUpdate α)}
    (applies : applyFrom os changed entries updates = .ok (false, result))
    : changed = false ∧ result = entries := by
  induction updates generalizing entries changed with
  | nil =>
      cases applies
      exact ⟨rfl, rfl⟩
  | cons update rest ih =>
      obtain ⟨first, working, step, applies⟩ := applyFrom_cons applies
      obtain ⟨none, rfl⟩ := ih applies
      obtain ⟨rfl, rfl⟩ := Bool.or_eq_false_iff.mp none
      exact ⟨rfl, applyPinUpdate_unchanged step⟩

end Hane.Session
