import Hane.Update.Archive

/-! The names and declared sizes that the entries of one archive may have together. -/

namespace Hane.Update.Archive

open Foundations

/-- What an entry declares about itself. -/
structure Declared where
  path : String
  isDir : Bool
  size : Nat

namespace Declared

def key (entry : Declared) : String := collisionKey entry.path

/-- The collision keys of the folders above an entry. -/
def ancestorKeys (entry : Declared) : List String := (ancestors entry.path).map collisionKey

end Declared

def CentralEntry.declared (entry : CentralEntry) : Declared :=
  ⟨trimEndSlashes entry.name, entry.isDir, entry.size⟩

def EntryInfo.declared (entry : EntryInfo) : Declared := ⟨entry.path, entry.isDir, entry.size⟩

/-- Names that can be extracted side by side on a case-insensitive file system, within a total
size: no two are one, and no file is a folder above another entry.
-/
structure Compatible (limit : Nat) (entries : List Declared) : Prop where
  distinct : (entries.map Declared.key).Nodup
  filesAreLeaves : ∀ file ∈ entries, file.isDir = false
    → ∀ entry ∈ entries, file.key ∉ entry.ancestorKeys
  total : (entries.map Declared.size).sum ≤ limit

theorem Compatible.reverse {limit : Nat} {entries : List Declared}
    (compatible : Compatible limit entries) : Compatible limit entries.reverse where
  distinct := by
    rw [List.map_reverse, List.nodup_reverse]
    exact compatible.distinct
  filesAreLeaves := by
    intro file held leaf entry kept
    exact compatible.filesAreLeaves file (List.mem_reverse.mp held) leaf entry
      (List.mem_reverse.mp kept)
  total := by
    rw [List.map_reverse, List.sum_reverse]
    exact compatible.total

/-- The table describes the entries already checked, whose names are compatible. -/
structure NameTable.Tracks (limit : Nat) (table : NameTable) (done : List Declared) : Prop where
  keys : table.keys = done.map Declared.key
  fileKeys : ∀ file ∈ done, file.isDir = false → file.key ∈ table.fileKeys
  dirKeys : ∀ entry ∈ done, ∀ key ∈ entry.ancestorKeys, key ∈ table.dirKeys
  total : table.total = (done.map Declared.size).sum
  compatible : Compatible limit done

theorem NameTable.tracks_empty (limit : Nat) : empty.Tracks limit [] where
  keys := rfl
  fileKeys := fun _ held => absurd held List.not_mem_nil
  dirKeys := fun _ held => absurd held List.not_mem_nil
  total := rfl
  compatible := ⟨.nil, fun _ held => absurd held List.not_mem_nil, Nat.zero_le _⟩

/-- Ancestors become directories and none of them is a file, by induction over them. -/
theorem NameTable.addAncestors_ok {path : String} {fileKeys dirKeys added : List String}
    {above : List String} (passed : addAncestors path fileKeys above dirKeys = .ok added)
    : (∀ key ∈ above.map collisionKey, key ∉ fileKeys ∧ key ∈ added) ∧ dirKeys ⊆ added := by
  induction above generalizing dirKeys with
  | nil =>
      cases passed
      exact ⟨fun _ held => absurd held List.not_mem_nil, fun _ held => held⟩
  | cons ancestor rest ih =>
      simp only [addAncestors] at passed
      split at passed
      · cases passed
      · rename_i notFile
        obtain ⟨later, kept⟩ := ih passed
        refine ⟨?_, fun key held => kept (.tail _ held)⟩
        intro key held
        rcases List.mem_cons.mp held with rfl | beyond
        · exact ⟨notFile, kept (.head _)⟩
        · exact later key beyond

/-- One more entry keeps the names compatible. -/
theorem NameTable.Tracks.add {limits : ArchiveLimits} {table next : NameTable}
    {done : List Declared} {entry : CentralEntry}
    (tracks : table.Tracks limits.maxTotalBytes.toNat done)
    (passed : table.add limits entry = .ok next)
    : next.Tracks limits.maxTotalBytes.toNat (entry.declared :: done) := by
  simp only [NameTable.add, except_bind_ok_iff, except_guard_ok_iff] at passed
  obtain ⟨fresh, dirKeys, above, leaf, within, built⟩ := passed
  obtain ⟨ancestorsClear, kept⟩ := addAncestors_ok above
  have total : table.total + entry.size ≤ limits.maxTotalBytes.toNat := by omega
  have dirsGrow : dirKeys ⊆ next.dirKeys := by
    cases built
    dsimp only
    split
    · exact fun key held => .tail _ held
    · exact fun key held => held
  have filesGrow : table.fileKeys ⊆ next.fileKeys := by
    cases built
    dsimp only
    split
    · exact fun key held => held
    · exact fun key held => .tail _ held
  have filed : entry.isDir = false → entry.declared.key ∈ next.fileKeys := by
    intro isFile
    cases built
    simp only [isFile, Bool.false_eq_true, if_false]
    exact .head _
  have aboveDirs : ∀ other ∈ entry.declared :: done, ∀ key ∈ other.ancestorKeys,
      key ∈ dirKeys := by
    intro other held key isAbove
    rcases List.mem_cons.mp held with rfl | before
    · exact (ancestorsClear key isAbove).2
    · exact kept (tracks.dirKeys other before key isAbove)
  refine ⟨?_, ?_, ?_, ?_, ?_, ?_, ?_⟩
  · cases built
    exact congrArg _ tracks.keys
  · intro file held isFile
    rcases List.mem_cons.mp held with rfl | before
    · exact filed isFile
    · exact filesGrow (tracks.fileKeys file before isFile)
  · intro other held key isAbove
    exact dirsGrow (aboveDirs other held key isAbove)
  · cases built
    rw [List.map_cons, List.sum_cons, ← tracks.total]
    exact Nat.add_comm _ _
  · rw [List.map_cons, List.nodup_cons, ← tracks.keys]
    exact ⟨fresh, tracks.keys ▸ tracks.compatible.distinct⟩
  · intro file held isFile other kept isAbove
    rcases List.mem_cons.mp held with rfl | before
    · exact leaf ⟨isFile, aboveDirs other kept _ isAbove⟩
    · rcases List.mem_cons.mp kept with rfl | earlier
      · exact (ancestorsClear _ isAbove).1 (tracks.fileKeys file before isFile)
      · exact tracks.compatible.filesAreLeaves file before isFile other earlier isAbove
  · rw [List.map_cons, List.sum_cons, ← tracks.total, Nat.add_comm]
    exact total

/-- Entries added in turn keep the names compatible, by induction over them. -/
theorem NameTable.Tracks.addAll {limits : ArchiveLimits} {entries : List CentralEntry}
    {table final : NameTable} {done : List Declared}
    (tracks : table.Tracks limits.maxTotalBytes.toNat done)
    (passed : NameTable.addAll limits entries table = .ok final)
    : final.Tracks limits.maxTotalBytes.toNat
        ((entries.map CentralEntry.declared).reverse ++ done) := by
  induction entries generalizing table done with
  | nil =>
      cases passed
      exact tracks
  | cons entry rest ih =>
      simp only [NameTable.addAll, except_bind_ok_iff] at passed
      obtain ⟨next, added, later⟩ := passed
      have tracked := ih (tracks.add added) later
      rwa [List.map_cons, List.reverse_cons, List.append_assoc]

theorem checkNamesAndTotals_ok {limits : ArchiveLimits} {entries : List CentralEntry}
    (passed : checkNamesAndTotals entries limits = .ok ())
    : Compatible limits.maxTotalBytes.toNat (entries.map CentralEntry.declared) := by
  simp only [checkNamesAndTotals, except_bind_ok_iff] at passed
  obtain ⟨final, added, _⟩ := passed
  have tracked := (NameTable.tracks_empty _).addAll added
  have compatible := tracked.compatible.reverse
  rwa [List.append_nil, List.reverse_reverse] at compatible

end Hane.Update.Archive
