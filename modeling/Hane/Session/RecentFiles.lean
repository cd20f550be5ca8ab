import Hane.Session.Identity
import Mathlib.Data.List.Dedup
import Mathlib.Data.List.Induction

/-! The recently opened files: newest first, and what follows of them when a file or a folder is
renamed.
-/

namespace Hane.Session

def recentLimit : Nat := 10

structure RecentFiles where
  entries : List Path
deriving DecidableEq

/-- The path an entry gets when `from` becomes `to`. -/
def renamedPath (source target entry : Path) : Path := if entry = source then target else entry

/-- The path an entry gets when the folder `from` becomes `to`: what lies at or under it moves. -/
def movedPath (source target entry : Path) : Path :=
  match source.stripPrefix entry with
  | some [] => target
  | some relative => target.join relative
  | none => entry

namespace RecentFiles

def empty : RecentFiles := ⟨[]⟩

/-- A path drops its earlier occurrence. -/
def push (entries : List Path) (path : Path) : List Path := entries.filter (· ≠ path) ++ [path]

def fromPaths (paths : List Path) : RecentFiles := ⟨(paths.foldl push []).take recentLimit⟩

variable (recent : RecentFiles)

def remember (path : Path) : RecentFiles :=
  ⟨(path :: recent.entries.filter (· ≠ path)).take recentLimit⟩

def forget (path : Path) : RecentFiles := ⟨recent.entries.filter (· ≠ path)⟩

def rename (source target : Path) : RecentFiles :=
  ⟨recent.entries.map (renamedPath source target)⟩

def renameFolder (source target : Path) : RecentFiles :=
  ⟨recent.entries.map (movedPath source target)⟩

end RecentFiles

/-- What the application does with the list. -/
inductive RecentOp where
  | fromPaths (paths : List Path)
  | remember (path : Path)
  | forget (path : Path)
  | rename (source target : Path)
  | renameFolder (source target : Path)
deriving DecidableEq

def RecentFiles.apply (recent : RecentFiles) : RecentOp → RecentFiles
  | .fromPaths paths => .fromPaths paths
  | .remember path => recent.remember path
  | .forget path => recent.forget path
  | .rename source target => recent.rename source target
  | .renameFolder source target => recent.renameFolder source target

/-- The list after some operations, from an empty one. -/
def RecentFiles.after (ops : List RecentOp) : RecentFiles := ops.foldl apply .empty

-- What an operation should do

/-- The entries an operation should leave: the last occurrences of the paths given, the remembered
path in front of the others, the others without the forgotten one, or each entry renamed.
-/
def RecentOp.expected (before : List Path) : RecentOp → List Path
  | .fromPaths paths => paths.dedup.take recentLimit
  | .remember path => (path :: before.erase path).take recentLimit
  | .forget path => before.erase path
  | .rename source target => before.map (renamedPath source target)
  | .renameFolder source target => before.map (movedPath source target)

/-- The entries are distinct, few, and the expected ones. -/
structure RecentFiles.Follows (before : RecentFiles) (op : RecentOp) : Prop where
  distinct : (before.apply op).entries.Nodup
  few : (before.apply op).entries.length ≤ recentLimit
  expected : (before.apply op).entries = op.expected before.entries

/-- Every step of the operations does what it should. -/
def AllFollow (ops : List RecentOp) : Prop :=
  ∀ earlier op later, ops = earlier ++ op :: later → RecentFiles.Follows (.after earlier) op

/-- A renamed path that is listed does not take the name of another entry. Of the listed paths in a
renamed folder none takes the name of an entry outside it, and no two the same name.
-/
def RecentOp.Apart (entries : List Path) : RecentOp → Prop
  | .rename source target => source ∈ entries → target ∈ entries → source = target
  | .renameFolder source target => ∀ relative, source ++ relative ∈ entries →
      (target.join relative ∈ entries → source <+: target.join relative)
      ∧ ∀ other, source ++ other ∈ entries
        → target.join relative = target.join other → relative = other
  | _ => True

theorem renamedPath_inj {entries : List Path} {source target : Path}
    : (∀ first ∈ entries, ∀ second ∈ entries,
        renamedPath source target first = renamedPath source target second → first = second)
      ↔ (RecentOp.rename source target).Apart entries := by
  constructor
  · intro apart listed taken
    refine apart source listed target taken ?_
    rw [renamedPath, renamedPath, if_pos rfl, ite_self]
  · intro apart first listed second taken same
    unfold renamedPath at same
    split at same <;> split at same
    · simp only [*]
    · rename_i moved _
      exact moved.trans ((apart (moved ▸ listed) (same ▸ taken)).trans same)
    · rename_i _ moved
      exact same.trans ((apart (moved ▸ taken) (same ▸ listed)).symm.trans moved.symm)
    · exact same

theorem movedPath_append (source target relative : Path)
    : movedPath source target (source ++ relative) = target.join relative := by
  have strips : source.stripPrefix (source ++ relative) = some relative := by
    rw [Path.stripPrefix, if_pos (List.isPrefixOf_iff_prefix.mpr (List.prefix_append ..)),
      List.drop_left]
  rw [movedPath, strips]
  cases relative with
  | nil => cases target <;> simp [Path.join, Path.isAbsolute]
  | cons => rfl

theorem movedPath_outside {source target entry : Path} (outside : ¬source <+: entry)
    : movedPath source target entry = entry := by
  rw [movedPath, Path.stripPrefix,
    if_neg fun inside => outside (List.isPrefixOf_iff_prefix.mp inside)]

theorem movedPath_inj {entries : List Path} {source target : Path}
    : (∀ first ∈ entries, ∀ second ∈ entries,
        movedPath source target first = movedPath source target second → first = second)
      ↔ (RecentOp.renameFolder source target).Apart entries := by
  constructor
  · intro apart relative listed
    refine ⟨fun taken => ?_, fun other taken same => ?_⟩
    · by_contra outside
      have same := apart _ listed _ taken
        ((movedPath_append ..).trans (movedPath_outside outside).symm)
      exact outside (same ▸ List.prefix_append ..)
    · refine List.append_cancel_left (apart _ listed _ taken ?_)
      rw [movedPath_append, movedPath_append, same]
  · intro apart first listed second taken same
    by_cases inside : source <+: first <;> by_cases within : source <+: second
    · obtain ⟨relative, rfl⟩ := inside
      obtain ⟨other, rfl⟩ := within
      rw [movedPath_append, movedPath_append] at same
      rw [(apart relative listed).2 other taken same]
    · obtain ⟨relative, rfl⟩ := inside
      rw [movedPath_append, movedPath_outside within] at same
      subst same
      exact absurd ((apart relative listed).1 taken) within
    · obtain ⟨other, rfl⟩ := within
      rw [movedPath_append, movedPath_outside inside] at same
      subst same
      exact absurd ((apart other taken).1 listed) inside
    · rwa [movedPath_outside inside, movedPath_outside within] at same

-- One operation

/-- Pushing paths one after another keeps the last occurrence of each, by induction over them. -/
theorem foldl_push (paths entries : List Path)
    : paths.foldl RecentFiles.push entries
        = entries.filter (fun entry => entry ∉ paths) ++ paths.dedup := by
  induction paths generalizing entries with
  | nil => simp
  | cons path rest ih =>
      have others : (entries.filter (· ≠ path)).filter (fun entry => entry ∉ rest)
          = entries.filter (fun entry => entry ∉ path :: rest) := by
        rw [List.filter_filter]
        refine List.filter_congr fun entry _ => ?_
        simp only [List.mem_cons, not_or, Bool.decide_and, Bool.and_comm]
      rw [List.foldl_cons, ih, RecentFiles.push, List.filter_append, others]
      by_cases again : path ∈ rest
      · simp [again, List.dedup_cons_of_mem again]
      · simp [again, List.dedup_cons_of_notMem again]

theorem filter_ne_eq_erase {entries : List Path} (distinct : entries.Nodup) (path : Path)
    : entries.filter (· ≠ path) = entries.erase path := by
  rw [distinct.erase_eq_filter]
  refine List.filter_congr fun entry _ => ?_
  by_cases same : entry = path <;> simp [same]

/-- From distinct entries an operation does what it should just when its renames keep apart. -/
theorem follows_iff {before : RecentFiles} (distinct : before.entries.Nodup)
    (few : before.entries.length ≤ recentLimit) (op : RecentOp)
    : before.Follows op ↔ op.Apart before.entries := by
  have renames : ∀ moved : Path → Path, before.apply op = ⟨before.entries.map moved⟩
      → op.expected before.entries = before.entries.map moved
      → (before.Follows op ↔ ∀ first ∈ before.entries, ∀ second ∈ before.entries,
        moved first = moved second → first = second) := by
    intro moved applied expected
    rw [← List.nodup_map_iff_inj_on distinct]
    constructor
    · intro follows
      rw [← show (before.apply op).entries = before.entries.map moved by rw [applied]]
      exact follows.distinct
    · intro apart
      exact ⟨by rw [applied]; exact apart, by rw [applied, List.length_map]; exact few,
        by rw [applied, expected]⟩
  cases op with
  | fromPaths paths =>
      have entries : (before.apply (.fromPaths paths)).entries = paths.dedup.take recentLimit := by
        rw [RecentFiles.apply, RecentFiles.fromPaths, foldl_push]
        rfl
      refine ⟨fun _ => trivial, fun _ => ⟨?_, ?_, entries⟩⟩
      · rw [entries]
        exact (List.take_sublist ..).nodup (List.nodup_dedup paths)
      · rw [entries]
        exact List.length_take_le ..
  | remember path =>
      have erased := filter_ne_eq_erase distinct path
      have whole : (path :: before.entries.erase path).Nodup :=
        List.nodup_cons.mpr ⟨distinct.not_mem_erase, distinct.erase path⟩
      refine ⟨fun _ => trivial, fun _ => ⟨?_, List.length_take_le .., ?_⟩⟩
      · rw [RecentFiles.apply, RecentFiles.remember, erased]
        exact (List.take_sublist ..).nodup whole
      · rw [RecentFiles.apply, RecentFiles.remember, erased]
        rfl
  | forget path =>
      have erased := filter_ne_eq_erase distinct path
      refine ⟨fun _ => trivial, fun _ => ⟨distinct.filter _, ?_, erased⟩⟩
      exact Nat.le_trans (List.length_filter_le ..) few
  | rename source target => exact (renames _ rfl rfl).trans renamedPath_inj
  | renameFolder source target => exact (renames _ rfl rfl).trans movedPath_inj

-- Every run

theorem RecentFiles.after_snoc (ops : List RecentOp) (op : RecentOp)
    : after (ops ++ [op]) = (after ops).apply op := by
  rw [after, List.foldl_append]
  rfl

/-- While every step follows, the list stays distinct and bounded, by induction over the run. -/
theorem AllFollow.after {ops : List RecentOp} (follow : AllFollow ops)
    : (RecentFiles.after ops).entries.Nodup
      ∧ (RecentFiles.after ops).entries.length ≤ recentLimit := by
  rcases List.eq_nil_or_concat ops with rfl | ⟨front, op, rfl⟩
  · exact ⟨List.nodup_nil, Nat.zero_le _⟩
  · rw [List.concat_eq_append] at follow ⊢
    rw [RecentFiles.after_snoc]
    have last := follow front op [] rfl
    exact ⟨last.distinct, last.few⟩

theorem AllFollow.earlier {front later : List RecentOp} (follow : AllFollow (front ++ later))
    : AllFollow front := by
  intro earlier op rest whole
  exact follow earlier op (rest ++ later) (by rw [whole]; simp)

/-- In every run the entries stay distinct, bounded and as expected just when no rename takes the
name of another entry, by induction over the run.
-/
theorem recentFiles_follow_iff (ops : List RecentOp)
    : AllFollow ops ↔ ∀ earlier op later, ops = earlier ++ op :: later
        → op.Apart (RecentFiles.after earlier).entries := by
  constructor
  · intro follow earlier op later whole
    have front : AllFollow earlier := AllFollow.earlier (whole ▸ follow)
    exact (follows_iff front.after.1 front.after.2 op).mp (follow earlier op later whole)
  · intro apart earlier
    induction earlier using List.reverseRecOn with
    | nil =>
        intro op later whole
        exact (follows_iff List.nodup_nil (Nat.zero_le _) op).mpr (apart [] op later whole)
    | append_singleton front last ih =>
        intro op later whole
        have before := ih last (op :: later) (by rw [whole]; simp)
        rw [RecentFiles.after_snoc]
        refine (follows_iff before.distinct before.few op).mpr ?_
        rw [← RecentFiles.after_snoc]
        exact apart (front ++ [last]) op later whole

/-- A file renamed to the path of another entry is listed twice. -/
theorem recentFiles_not_follow
    : ¬∀ ops : List RecentOp, AllFollow ops := by
  intro follow
  have twice := follow [.fromPaths [[.rootDir, .normal "a.md"], [.rootDir, .normal "b.md"]],
    .rename [.rootDir, .normal "a.md"] [.rootDir, .normal "b.md"]]
  have last := twice [.fromPaths [[.rootDir, .normal "a.md"], [.rootDir, .normal "b.md"]]] _ [] rfl
  exact absurd last.distinct (by decide)

end Hane.Session
