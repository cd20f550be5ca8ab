import Hane.Update.ArchiveScan
import Hane.Update.Inspection

/-! The files of an inspected archive are exactly those of its signed inventory. -/

namespace Hane.Update.Archive

open Foundations

-- Owned files

theorem eq_append_of_stripPrefix {text start rest : String}
    (stripped : stripPrefix text start = some rest) : text = start ++ rest := by
  unfold stripPrefix at stripped
  split at stripped
  · rename_i starts
    obtain ⟨after, joined⟩ := List.isPrefixOf_iff_prefix.mp starts
    obtain rfl := Option.some.inj stripped
    apply String.toList_injective
    rw [String.toList_append, String.toList_ofList, ← joined, List.drop_left]
  · cases stripped

theorem stripPrefix_append (start rest : String) : stripPrefix (start ++ rest) start = some rest := by
  have starts : startsWith (start ++ rest) start = true := by
    apply List.isPrefixOf_iff_prefix.mpr
    rw [String.toList_append]
    exact List.prefix_append ..
  have remains : String.ofList ((start ++ rest).toList.drop start.toList.length) = rest := by
    apply String.toList_injective
    rw [String.toList_ofList, String.toList_append, List.drop_left]
  rw [stripPrefix, if_pos starts, remains]

/-- An entry that the inventory must list: a file below the owned prefix that is neither the
inventory nor its signature.
-/
def InventoryLocation.Owns (location : InventoryLocation) (entry : EntryInfo) (rel : String)
    : Prop :=
  entry.isDir = false ∧ entry.path ≠ location.inventory ∧ entry.path ≠ location.signature
    ∧ entry.path = location.ownedPrefix ++ rel

theorem mem_presentFiles {location : InventoryLocation} {entries : List EntryInfo}
    {rel : String} {entry : EntryInfo}
    : (rel, entry) ∈ presentFiles location entries
      ↔ entry ∈ entries ∧ location.Owns entry rel := by
  simp only [presentFiles, List.mem_filterMap, List.mem_filter, Bool.and_eq_true,
    Bool.not_eq_true', bne_iff_ne, Option.map_eq_some_iff, Prod.mk.injEq]
  constructor
  · intro held
    obtain ⟨other, ⟨kept, ⟨isFile, notInventory⟩, notSignature⟩, _, stripped, rfl, rfl⟩ := held
    exact ⟨kept, isFile, notInventory, notSignature, eq_append_of_stripPrefix stripped⟩
  · intro held
    obtain ⟨kept, isFile, notInventory, notSignature, below⟩ := held
    refine ⟨entry, ⟨kept, ⟨isFile, notInventory⟩, notSignature⟩, rel, ?_, rfl, rfl⟩
    rw [below]
    exact stripPrefix_append ..

/-- The listed files and the owned entries correspond, with the same sizes and hashes. -/
structure OwnsExactly (location : InventoryLocation) (entries : List EntryInfo)
    (files : List InventoryFile) : Prop where
  listed : ∀ file ∈ files, ∃ entry ∈ entries, location.Owns entry file.path
    ∧ entry.size = file.size ∧ entry.sha256 = file.sha256
  owned : ∀ entry ∈ entries, ∀ rel, location.Owns entry rel
    → ∃ file ∈ files, file.path = rel ∧ entry.size = file.size ∧ entry.sha256 = file.sha256

/-- A pair of a map at every listed path, with its size and hash, by induction over the list. -/
theorem checkListed_ok {present : List (String × EntryInfo)}
    {listed : List (String × Nat × String)} (passed : checkListed present listed = .ok ())
    : ∀ file ∈ listed, ∃ entry, present.lookup file.1 = some entry
        ∧ entry.size = file.2.1 ∧ entry.sha256 = file.2.2 := by
  induction listed with
  | nil => exact fun _ held => absurd held List.not_mem_nil
  | cons file rest ih =>
      obtain ⟨path, size, sha256⟩ := file
      simp only [checkListed] at passed
      cases found : present.lookup path with
      | none =>
          rw [found] at passed
          cases passed
      | some entry =>
          rw [found] at passed
          simp only [except_guard_ok_iff, not_not] at passed
          obtain ⟨sameSize, sameHash, later⟩ := passed
          intro other held
          rcases List.mem_cons.mp held with rfl | beyond
          · exact ⟨entry, found, sameSize, sameHash⟩
          · exact ih later other beyond

theorem keys_subset_of_length {left right : List String} (distinct : left.Nodup)
    (inside : left ⊆ right) (length : left.length = right.length) : right ⊆ left :=
  ((List.subperm_of_subset distinct inside).perm_of_length_le length.ge).symm.subset

/-- Archive files that pass the comparison are exactly the listed ones. -/
theorem checkOwned_ok {location : InventoryLocation} {entries : List EntryInfo}
    {files : List InventoryFile} (distinctFiles : (files.map InventoryFile.path).Nodup)
    (distinctEntries : ((presentFiles location entries).map Prod.fst).Nodup)
    (passed : checkOwned location entries files = .ok ())
    : OwnsExactly location entries files := by
  simp only [checkOwned, except_guard_ok_iff, not_or, not_not, Bool.not_eq_false] at passed
  obtain ⟨⟨sameLength, allPresent⟩, checked⟩ := passed
  have listedPerm := SortedMaps.collect_perm
    (files.map fun file => (file.path, file.size, file.sha256)) (by
      rw [List.map_map]
      exact distinctFiles)
  have presentPerm := SortedMaps.collect_perm (presentFiles location entries) distinctEntries
  have distinctPresent := (presentPerm.map Prod.fst).nodup_iff.mpr distinctEntries
  have found := checkListed_ok checked
  have eachListed : ∀ file ∈ files, ∃ entry ∈ entries, location.Owns entry file.path
      ∧ entry.size = file.size ∧ entry.sha256 = file.sha256 := by
    intro file held
    obtain ⟨entry, looked, sameSize, sameHash⟩ := found _ (listedPerm.mem_iff.mpr
      (List.mem_map_of_mem held))
    have kept := (SortedMaps.lookup_eq_some_iff distinctPresent).mp looked
    obtain ⟨inside, owned⟩ := mem_presentFiles.mp (presentPerm.mem_iff.mp kept)
    exact ⟨entry, inside, owned, sameSize, sameHash⟩
  refine ⟨eachListed, ?_⟩
  intro entry held rel owns
  have paths : (presentFiles location entries).map Prod.fst ⊆ files.map InventoryFile.path := by
    apply keys_subset_of_length distinctFiles
    · intro path listed
      obtain ⟨file, kept, rfl⟩ := List.mem_map.mp listed
      obtain ⟨other, inside, owned, _⟩ := eachListed file kept
      exact List.mem_map.mpr ⟨(file.path, other), mem_presentFiles.mpr ⟨inside, owned⟩, rfl⟩
    · have lengths := listedPerm.length_eq.symm.trans (sameLength.trans presentPerm.length_eq)
      simpa only [List.length_map] using lengths
  have present := mem_presentFiles.mpr ⟨held, owns⟩
  obtain ⟨file, kept, same⟩ := List.mem_map.mp (paths (List.mem_map_of_mem present))
  obtain ⟨other, looked, sameSize, sameHash⟩ := found _ (listedPerm.mem_iff.mpr
    (List.mem_map_of_mem kept))
  have otherKept := (SortedMaps.lookup_eq_some_iff distinctPresent).mp looked
  have sameEntry : other = entry := by
    have first := (SortedMaps.lookup_eq_some_iff distinctEntries).mpr
      (presentPerm.mem_iff.mp otherKept)
    have second := (SortedMaps.lookup_eq_some_iff distinctEntries).mpr present
    dsimp only at first same
    rw [same, second] at first
    exact (Option.some.inj first).symm
  rw [sameEntry] at sameSize sameHash
  exact ⟨file, kept, same, sameSize, sameHash⟩

/-- The present entries stand in the order of the archive, by induction over it. -/
theorem presentFiles_sublist (location : InventoryLocation) (entries : List EntryInfo)
    : ((presentFiles location entries).map Prod.snd).Sublist entries := by
  have kept : ∀ files : List EntryInfo,
      ((files.filterMap fun entry =>
        (stripPrefix entry.path location.ownedPrefix).map (·, entry)).map Prod.snd).Sublist files := by
    intro files
    induction files with
    | nil => exact .slnil
    | cons entry rest ih =>
        rw [List.filterMap_cons]
        cases stripPrefix entry.path location.ownedPrefix with
        | none => exact ih.cons _
        | some rel => exact ih.cons_cons _
  exact (kept _).trans List.filter_sublist

theorem presentFiles_nodup {location : InventoryLocation} {entries : List EntryInfo}
    (distinct : (entries.map EntryInfo.path).Nodup)
    : ((presentFiles location entries).map Prod.fst).Nodup := by
  have paths := ((presentFiles_sublist location entries).map EntryInfo.path).nodup distinct
  have prefixed : ((presentFiles location entries).map Prod.snd).map EntryInfo.path
      = ((presentFiles location entries).map Prod.fst).map (location.ownedPrefix ++ ·) := by
    rw [List.map_map, List.map_map]
    apply List.map_congr_left
    intro pair held
    exact (mem_presentFiles.mp held).2.2.2.2
  rw [prefixed] at paths
  exact List.Nodup.of_map _ paths

/-- A checked inventory lists distinct paths, by induction over its files. -/
theorem validateFiles_nodup {files : List InventoryFile} {keys : List String}
    (passed : validateFiles files keys = .ok ())
    : (files.map fun file => collisionKey file.path).Nodup
      ∧ ∀ file ∈ files, collisionKey file.path ∉ keys := by
  induction files generalizing keys with
  | nil => exact ⟨.nil, fun _ held => absurd held List.not_mem_nil⟩
  | cons file rest ih =>
      simp only [validateFiles, except_bind_ok_iff, except_guard_ok_iff] at passed
      obtain ⟨_, _, fresh, later⟩ := passed
      obtain ⟨distinct, clear⟩ := ih later
      refine ⟨?_, ?_⟩
      · rw [List.map_cons, List.nodup_cons]
        refine ⟨?_, distinct⟩
        intro repeated
        obtain ⟨other, held, same⟩ := List.mem_map.mp repeated
        exact clear other held (same ▸ .head _)
      · intro other held
        rcases List.mem_cons.mp held with rfl | beyond
        · exact fresh
        · exact fun kept => clear other beyond (.tail _ kept)

theorem nodup_paths_of_keys {α : Type} {items : List α} {path : α → String}
    (distinct : (items.map fun item => collisionKey (path item)).Nodup)
    : (items.map path).Nodup := by
  have keys : items.map (fun item => collisionKey (path item)) = (items.map path).map collisionKey := by
    rw [List.map_map]
    rfl
  rw [keys] at distinct
  exact List.Nodup.of_map _ distinct

-- Contents

section Inspection

variable {Json : Type} {crates : ArchiveCrates Json}

/-- The content that the data of an entry decodes to. -/
def Decodes (crates : ArchiveCrates Json) (bytes : List UInt8) (entry : EntryInfo)
    (content : List UInt8) : Prop :=
  match entry.method with
  | .stored => content = (bytes.drop entry.dataOffset).take entry.compressedSize
  | .deflate =>
    crates.inflate ((bytes.drop entry.dataOffset).take entry.compressedSize) (entry.size + 1)
      = .ok content

/-- Streaming yields the whole content, of the declared size and checksum, and its hash. -/
theorem streamEntry_ok {bytes content : List UInt8} {entry : EntryInfo} {sha256 : String}
    (ran : streamEntry crates bytes entry = .ok (content, sha256))
    : Decodes crates bytes entry content ∧ content.length = entry.size
      ∧ crates.crc32 content = entry.crc32 ∧ sha256 = sha256Hex crates.toCrates content := by
  simp only [streamEntry, except_bind_ok_iff, addWord_ok_iff, refusing_ok_iff] at ran
  obtain ⟨_, ⟨_, rfl⟩, decoded, read, _, checked, built⟩ := ran
  obtain ⟨rfl, rfl⟩ := Prod.mk.inj (Except.ok.inj built)
  simp only [checkContent, except_guard_ok_iff, except_check_ok_iff, not_not] at checked
  obtain ⟨_, sameSize, sameCrc⟩ := checked
  refine ⟨?_, sameSize, sameCrc, rfl⟩
  have got := (except_mapError_ok_iff ..).mp read
  cases method : entry.method with
  | stored =>
      simp only [decodeData, method] at got
      obtain rfl := Except.ok.inj got
      simp only [Decodes, method]
      apply List.take_of_length_le
      rw [List.length_take] at sameSize
      omega
  | deflate =>
      simp only [decodeData, method] at got
      simp only [Decodes, method]
      exact got

theorem streamEntry_fits {bytes : List UInt8} {entry : EntryInfo} (small : entry.size < 2 ^ 32)
    : Fits (streamEntry crates bytes entry) := by
  unfold streamEntry
  apply Fits.bind (.add (by omega))
  intro limit _
  apply Fits.bind (.refusing _)
  intro content _
  apply Fits.bind (.refusing _)
  intro _ _
  exact Fits.ok _

/-- An inspected entry: a folder as scanned, or a file with the hash of its content. -/
def Hashed (crates : ArchiveCrates Json) (bytes : List UInt8) (scanned entry : EntryInfo)
    : Prop :=
  (scanned.isDir = true ∧ entry = scanned)
  ∨ (scanned.isDir = false ∧ ∃ content, Decodes crates bytes scanned content
      ∧ content.length = scanned.size ∧ crates.crc32 content = scanned.crc32
      ∧ entry = { scanned with sha256 := sha256Hex crates.toCrates content })

theorem Hashed.declared {bytes : List UInt8} {scanned entry : EntryInfo}
    (hashed : Hashed crates bytes scanned entry) : entry.declared = scanned.declared := by
  rcases hashed with ⟨_, rfl⟩ | ⟨_, _, _, _, _, rfl⟩
  · rfl
  · rfl

theorem hashEntries_ok {bytes : List UInt8} {scanned entries : List EntryInfo}
    (ran : hashEntries crates bytes scanned = .ok entries)
    : List.Forall₂ (Hashed crates bytes) scanned entries := by
  induction scanned generalizing entries with
  | nil =>
      obtain rfl := Except.ok.inj ran
      exact .nil
  | cons entry rest ih =>
      simp only [hashEntries] at ran
      split at ran
      · rename_i isDir
        simp only [except_bind_ok_iff] at ran
        obtain ⟨others, later, built⟩ := ran
        obtain rfl := Except.ok.inj built
        exact .cons (.inl ⟨isDir, rfl⟩) (ih later)
      · rename_i isFile
        simp only [except_bind_ok_iff] at ran
        obtain ⟨⟨content, sha256⟩, streamed, others, later, built⟩ := ran
        obtain rfl := Except.ok.inj built
        obtain ⟨decoded, sameSize, sameCrc, rfl⟩ := streamEntry_ok streamed
        have file := Bool.not_eq_true _ ▸ isFile
        exact .cons (.inr ⟨file, content, decoded, sameSize, sameCrc, rfl⟩) (ih later)

theorem hashEntries_fits {bytes : List UInt8} {scanned : List EntryInfo}
    (small : ∀ entry ∈ scanned, entry.size < 2 ^ 32)
    : Fits (hashEntries crates bytes scanned) := by
  induction scanned with
  | nil => exact Fits.ok _
  | cons entry rest ih =>
      have later := ih fun other held => small other (.tail _ held)
      simp only [hashEntries]
      split
      · apply Fits.bind later
        intro others _
        exact Fits.ok _
      · apply Fits.bind (streamEntry_fits (small entry (.head _)))
        intro streamed _
        apply Fits.bind later
        intro others _
        exact Fits.ok _

/-- A sum that stays below a word does not overflow on the way, by induction over the sizes. -/
theorem addSizes_fits {entries : List EntryInfo} {total : Nat}
    (small : total + (entries.map EntryInfo.size).sum < 2 ^ 64)
    : Fits (addSizes entries total) := by
  induction entries generalizing total with
  | nil => exact Fits.ok _
  | cons entry rest ih =>
      rw [List.map_cons, List.sum_cons] at small
      apply Fits.bind (.add (by omega))
      intro sum summed
      obtain ⟨_, rfl⟩ := (addWord_ok_iff ..).mp summed
      exact ih (by omega)

def HoldsFile (crates : ArchiveCrates Json) (bytes : List UInt8) (entries : List EntryInfo)
    (path : String) (content : List UInt8) : Prop :=
  ∃ entry ∈ entries, entry.isDir = false ∧ entry.path = path
    ∧ Decodes crates bytes entry content ∧ content.length = entry.size

theorem findFile_some {entries : List EntryInfo} {name : String} {entry : EntryInfo}
    (found : findFile entries name = some entry)
    : entry ∈ entries ∧ entry.isDir = false ∧ entry.path = name := by
  have matched := List.find?_some found
  simp only [Bool.and_eq_true, Bool.not_eq_true', beq_iff_eq] at matched
  exact ⟨List.mem_of_find?_eq_some found, matched.1, matched.2⟩

theorem readEntry_ok {bytes content : List UInt8} {entries : List EntryInfo} {name : String}
    {entry : EntryInfo} {limit : Nat} (found : findFile entries name = some entry)
    (ran : readEntry crates bytes entry limit = .ok content)
    : HoldsFile crates bytes entries name content := by
  simp only [readEntry, except_bind_ok_iff, except_guard_ok_iff] at ran
  obtain ⟨_, ⟨streamed, sha256⟩, read, built⟩ := ran
  obtain rfl := Except.ok.inj built
  obtain ⟨held, isFile, named⟩ := findFile_some found
  obtain ⟨decoded, length, _, _⟩ := streamEntry_ok read
  exact ⟨entry, held, isFile, named, decoded, length⟩

theorem readEntry_fits {bytes : List UInt8} {entry : EntryInfo} {limit : Nat}
    (small : entry.size < 2 ^ 32) : Fits (readEntry crates bytes entry limit) := by
  unfold readEntry
  apply Fits.guard
  intro _
  apply Fits.bind (streamEntry_fits small)
  intro streamed _
  exact Fits.ok _

/-- The inventory that an archive carries is signed, describes the candidate, and lists exactly
the owned files.
-/
structure Inventoried (crates : ArchiveCrates Json) (bytes : List UInt8)
    (candidate : VerifiedCandidate) (policy : TrustPolicy) (location : InventoryLocation)
    (entries : List EntryInfo) (signed : SignedInventory) : Prop where
  verified : ∃ raw signature, HoldsFile crates bytes entries location.inventory raw
    ∧ HoldsFile crates bytes entries location.signature signature
    ∧ SignedInventory.verify crates raw signature policy = .ok signed
  describes : signed.checkCandidate crates candidate = .ok ()
  owns : OwnsExactly location entries signed.inventory.files

theorem SignedInventory.nodup_of_verify {raw signature : List UInt8} {policy : TrustPolicy}
    {signed : SignedInventory}
    (verified : SignedInventory.verify crates raw signature policy = .ok signed)
    : (signed.inventory.files.map InventoryFile.path).Nodup := by
  simp only [SignedInventory.verify, Inventory.validate, except_bind_ok_iff, except_guard_ok_iff]
    at verified
  obtain ⟨_, _, _, _, _, _, _, _, inventory, _, _, ⟨_, _, _, _, _, _, files⟩, built⟩ := verified
  obtain rfl := Except.ok.inj built
  exact nodup_paths_of_keys (validateFiles_nodup files).1

theorem verifyInventory_ok {bytes : List UInt8} {entries : List EntryInfo}
    {candidate : VerifiedCandidate} {policy : TrustPolicy} {location : InventoryLocation}
    {signed : SignedInventory} (distinct : (entries.map EntryInfo.path).Nodup)
    (ran : verifyInventory crates bytes entries candidate policy location = .ok signed)
    : Inventoried crates bytes candidate policy location entries signed := by
  unfold verifyInventory at ran
  cases foundInventory : findFile entries location.inventory with
  | none =>
      rw [foundInventory] at ran
      cases ran
  | some inventoryEntry =>
      rw [foundInventory] at ran
      cases foundSignature : findFile entries location.signature with
      | none =>
          rw [foundSignature] at ran
          cases ran
      | some signatureEntry =>
          rw [foundSignature] at ran
          simp only [except_bind_ok_iff, refusing_ok_iff] at ran
          obtain ⟨raw, readRaw, signature, readSignature, verified, passed, _, described, _,
            owned, built⟩ := ran
          obtain rfl := Except.ok.inj built
          exact {
            verified := ⟨raw, signature, readEntry_ok foundInventory readRaw,
              readEntry_ok foundSignature readSignature, passed⟩
            describes := described
            owns := checkOwned_ok (SignedInventory.nodup_of_verify passed)
              (presentFiles_nodup distinct) owned }

theorem verifyInventory_fits {bytes : List UInt8} {entries : List EntryInfo}
    {candidate : VerifiedCandidate} {policy : TrustPolicy} {location : InventoryLocation}
    (small : ∀ entry ∈ entries, entry.size < 2 ^ 32)
    : Fits (verifyInventory crates bytes entries candidate policy location) := by
  unfold verifyInventory
  cases foundInventory : findFile entries location.inventory with
  | none => exact Fits.refused _
  | some inventoryEntry =>
      cases foundSignature : findFile entries location.signature with
      | none => exact Fits.refused _
      | some signatureEntry =>
          apply Fits.bind (readEntry_fits (small _ (findFile_some foundInventory).1))
          intro raw _
          apply Fits.bind (readEntry_fits (small _ (findFile_some foundSignature).1))
          intro signature _
          apply Fits.bind (.refusing _)
          intro signed _
          apply Fits.bind (.refusing _)
          intro _ _
          apply Fits.bind (.refusing _)
          intro _ _
          exact Fits.ok _

-- Inspected archives

/-- What an inspection establishes beyond the scan: the hash of every file is that of its
content, and the owned files are those of the signed inventory.
-/
structure Inspected (crates : ArchiveCrates Json) (bytes : List UInt8)
    (candidate : VerifiedCandidate) (policy : TrustPolicy) (limits : ArchiveLimits)
    (inspected : InspectedArchive) : Prop where
  scanned : ∃ scanned, scanArchive bytes limits = .ok scanned
    ∧ List.Forall₂ (Hashed crates bytes) scanned inspected.entries
  inventory : ∃ signed, inspected.inventory = some signed
    ∧ Inventoried crates bytes candidate policy (inventoryLocation crates candidate)
        inspected.entries signed

theorem declared_of_hashed {bytes : List UInt8} {scanned entries : List EntryInfo}
    (hashed : List.Forall₂ (Hashed crates bytes) scanned entries)
    : entries.map EntryInfo.declared = scanned.map EntryInfo.declared := by
  induction hashed with
  | nil => rfl
  | cons first _ ih => rw [List.map_cons, List.map_cons, ih, first.declared]

/-- Declared sizes come from 32-bit fields. -/
theorem Accepted.size_lt {bytes : List UInt8} {limits : ArchiveLimits} {entries : List EntryInfo}
    {endAt cdOffset : Nat} {placements : List Placement}
    (accepted : Accepted bytes limits entries endAt cdOffset placements)
    : ∀ size ∈ entries.map EntryInfo.size, size < 2 ^ 32 := by
  intro size held
  obtain ⟨entry, listed, rfl⟩ := List.mem_map.mp held
  rw [accepted.placed] at listed
  obtain ⟨placement, kept, rfl⟩ := List.mem_map.mp listed
  exact (accepted.sits placement kept).size ▸ le32_lt placement.record 24

theorem inspectArchive_ok {bytes : List UInt8} {candidate : VerifiedCandidate}
    {policy : TrustPolicy} {limits : ArchiveLimits} {inspected : InspectedArchive}
    (ran : inspectArchive crates bytes candidate policy limits = .ok inspected)
    : Inspected crates bytes candidate policy limits inspected := by
  simp only [inspectArchive, except_bind_ok_iff, except_guard_ok_iff, refusing_ok_iff] at ran
  obtain ⟨scanned, scan, _, _, _, _, _, entries, hashes, signed, verified, built⟩ := ran
  obtain rfl := Except.ok.inj built
  have hashed := hashEntries_ok hashes
  obtain ⟨endAt, cdOffset, placements, accepted⟩ := scanArchive_ok scan
  have distinctKeys := accepted.compatible.distinct
  rw [← declared_of_hashed hashed, List.map_map] at distinctKeys
  have distinct : (entries.map EntryInfo.path).Nodup := nodup_paths_of_keys distinctKeys
  exact ⟨⟨scanned, scan, hashed⟩, signed, rfl, verifyInventory_ok distinct verified⟩

theorem inspectArchive_fits (bytes : List UInt8) (candidate : VerifiedCandidate)
    (policy : TrustPolicy) (limits : ArchiveLimits)
    : Fits (inspectArchive crates bytes candidate policy limits) := by
  unfold inspectArchive
  apply Fits.bind (scanArchive_fits bytes limits)
  intro scanned scan
  obtain ⟨endAt, cdOffset, placements, accepted⟩ := scanArchive_ok scan
  apply Fits.bind (.refusing _)
  intro _ _
  have total := accepted.compatible.total
  have word := limits.maxTotalBytes.toNat_lt
  rw [List.map_map] at total
  have summed : (scanned.map EntryInfo.size).sum ≤ limits.maxTotalBytes.toNat := total
  apply Fits.bind (addSizes_fits (by omega))
  intro totalUnpacked _
  apply Fits.guard
  intro _
  apply Fits.bind (hashEntries_fits fun entry held =>
    accepted.size_lt _ (List.mem_map_of_mem held))
  intro entries hashes
  have sameSizes : entries.map EntryInfo.size = scanned.map EntryInfo.size := by
    have declared := congrArg (List.map Declared.size)
      (declared_of_hashed (hashEntries_ok hashes))
    rwa [List.map_map, List.map_map] at declared
  apply Fits.bind (verifyInventory_fits fun entry held =>
    accepted.size_lt _ (sameSizes ▸ List.mem_map_of_mem held))
  intro inventory _
  exact Fits.ok _

/-- Acceptance of an archive is sound: no arithmetic on the way overflows, a scanned archive has
its parts in place under extractable names, and an inspected one carries exactly the files of
its signed inventory.
-/
theorem accepted_archive_sound (crates : ArchiveCrates Json) (bytes : List UInt8)
    (limits : ArchiveLimits)
    : Fits (scanArchive bytes limits)
      ∧ (∀ entries, scanArchive bytes limits = .ok entries
          → ∃ endAt cdOffset placements, Accepted bytes limits entries endAt cdOffset placements)
      ∧ ∀ candidate policy, Fits (inspectArchive crates bytes candidate policy limits)
          ∧ ∀ inspected, inspectArchive crates bytes candidate policy limits = .ok inspected
            → Inspected crates bytes candidate policy limits inspected :=
  ⟨scanArchive_fits bytes limits, fun _ => scanArchive_ok, fun candidate policy =>
    ⟨inspectArchive_fits bytes candidate policy limits, fun _ => inspectArchive_ok⟩⟩

end Inspection

-- An archive of one release

/-- One file of an archive: its name, method, checksum, stored data and content length. -/
structure SampleFile where
  name : String
  method : Nat
  crc32 : Nat
  data : List UInt8
  size : Nat

namespace SampleFile

def fields (file : SampleFile) : List UInt8 :=
  toLeBytes 2 20 ++ toLeBytes 2 0 ++ toLeBytes 2 file.method ++ toLeBytes 4 0
    ++ toLeBytes 4 file.crc32 ++ toLeBytes 4 file.data.length ++ toLeBytes 4 file.size
    ++ toLeBytes 2 file.name.toList.length ++ toLeBytes 2 0

def localPart (file : SampleFile) : List UInt8 :=
  toLeBytes 4 sigLocal ++ file.fields ++ asBytes file.name ++ file.data

def centralPart (file : SampleFile) (offset : Nat) : List UInt8 :=
  toLeBytes 4 sigCentral ++ toLeBytes 2 0x0314 ++ file.fields ++ toLeBytes 6 0
    ++ toLeBytes 4 0x81A40000 ++ toLeBytes 4 offset ++ asBytes file.name

def parts : List SampleFile → Nat → List UInt8 × List UInt8
  | [], _ => ([], [])
  | file :: rest, offset =>
    let (locals, central) := parts rest (offset + file.localPart.length)
    (file.localPart ++ locals, file.centralPart offset ++ central)

def archive (files : List SampleFile) : List UInt8 :=
  let (locals, central) := parts files 0
  locals ++ central ++ toLeBytes 4 sigEocd ++ toLeBytes 4 0 ++ toLeBytes 2 files.length
    ++ toLeBytes 2 files.length ++ toLeBytes 4 central.length ++ toLeBytes 4 locals.length
    ++ toLeBytes 2 0

end SampleFile

def sampleAppBytes : List UInt8 := asBytes "MZ hane"

def sampleUpdaterBytes : List UInt8 := asBytes "MZ updater updater updater"

/-- The updater as a deflate stream. -/
def sampleUpdaterData : List UInt8 := [243, 141, 82, 40, 45, 72, 73, 44, 73, 45, 66, 167, 1]

def sampleInventoryBytes : List UInt8 :=
  asBytes ("\x7b\"schema\":1,\"version\":\"0.30.0\",\"target\":\"x86_64-pc-windows-msvc\","
    ++ "\"source_sha\":\"0123456789abcdef0123456789abcdef01234567\",\"updater_protocol\":1,"
    ++ "\"layout_revision\":2,\"files\":[\x7b\"path\":\"hane.exe\",\"size\":7,\"sha256\":"
    ++ "\"93f2d6e90a2dedc724c55ccf654244d1bae8509facbad6cd85dea12c71c5127c\"\x7d,"
    ++ "\x7b\"path\":\"hane-updater.exe\",\"size\":26,\"sha256\":"
    ++ "\"75ae5fddb8c7d71b8dcbdbe17487a0a0f29523b327c400cdf47603e9490aae9c\"\x7d]\x7d")

def sampleInventory : Inventory where
  schema := 1
  version := "0.30.0"
  target := "x86_64-pc-windows-msvc"
  sourceSha := "0123456789abcdef0123456789abcdef01234567"
  updaterProtocol := 1
  layoutRevision := 2
  files := [
    ⟨"hane.exe", 7, "93f2d6e90a2dedc724c55ccf654244d1bae8509facbad6cd85dea12c71c5127c"⟩,
    ⟨"hane-updater.exe", 26, "75ae5fddb8c7d71b8dcbdbe17487a0a0f29523b327c400cdf47603e9490aae9c"⟩]

def sampleInventorySignatureText : String :=
  "WaFEt8uuZ5Ad6YnBr6HBp7F1WgTwdAzAr7g1ep/Vd0mz"
    ++ "m98nz51n4dhpPv+ApUpSX6/7fuQKvi/QErbRb0keDA=="

def sampleInventorySignatureBytes : List UInt8 :=
  asBytes ("\x7b\"schema\":1,\"signatures\":[\x7b\"key_id\":\"hane-2026\",\"signature_base64\":\""
    ++ sampleInventorySignatureText ++ "\"\x7d]\x7d")

def sampleInventoryKey : List UInt8 :=
  [81, 7, 206, 61, 116, 23, 18, 166, 205, 197, 147, 177, 132, 8, 194, 109, 62, 148, 156, 75, 103,
    178, 47, 172, 156, 76, 205, 83, 198, 120, 233, 197]

def sampleInventorySignature : List UInt8 :=
  [89, 161, 68, 183, 203, 174, 103, 144, 29, 233, 137, 193, 175, 161, 193, 167, 177, 117, 90, 4,
    240, 116, 12, 192, 175, 184, 53, 122, 159, 213, 119, 73, 179, 155, 223, 39, 207, 157, 103,
    225, 216, 105, 62, 255, 128, 165, 74, 82, 95, 175, 251, 126, 228, 10, 190, 47, 208, 18, 182,
    209, 111, 73, 30, 12]

/-- The linked crates on the sample archive: the real digests, checksums, inflated stream, parses
and Ed25519 verdict of its files.
-/
def sampleArchiveCrates : ArchiveCrates (Inventory ⊕ SignatureFile) where
  digest := fun bytes =>
    if bytes = sampleAppBytes then
      [147, 242, 214, 233, 10, 45, 237, 199, 36, 197, 92, 207, 101, 66, 68, 209, 186, 232, 80,
        159, 172, 186, 214, 205, 133, 222, 161, 44, 113, 197, 18, 124]
    else if bytes = sampleUpdaterBytes then
      [117, 174, 95, 221, 184, 199, 215, 27, 141, 203, 219, 225, 116, 135, 160, 160, 242, 149, 35,
        179, 39, 196, 0, 205, 244, 118, 3, 233, 73, 10, 174, 156]
    else if bytes = sampleInventoryBytes then
      [49, 222, 34, 245, 115, 109, 247, 166, 134, 235, 85, 161, 66, 108, 80, 227, 188, 207, 221,
        200, 155, 141, 85, 247, 39, 120, 153, 203, 23, 194, 128, 97]
    else if bytes = sampleInventorySignatureBytes then
      [21, 100, 171, 224, 163, 139, 67, 114, 15, 139, 206, 43, 173, 134, 49, 185, 124, 105, 106,
        203, 140, 173, 124, 231, 137, 126, 90, 22, 158, 47, 32, 82]
    else bytes
  verifies := fun publicKey message signature =>
    publicKey = sampleInventoryKey && message = inventoryDomain ++ sampleInventoryBytes
      && signature = sampleInventorySignature
  decodeBase64 := fun text =>
    if text = sampleInventorySignatureText then some sampleInventorySignature else none
  hasUniqueKeys := fun bytes =>
    if bytes = sampleInventoryBytes ∨ bytes = sampleInventorySignatureBytes then .ok ()
    else .error "expected value at line 1 column 1"
  fromSlice := fun bytes =>
    if bytes = sampleInventoryBytes then .ok (.inl sampleInventory)
    else if bytes = sampleInventorySignatureBytes then
      .ok (.inr ⟨1, [⟨"hane-2026", sampleInventorySignatureText⟩]⟩)
    else .error "expected value at line 1 column 1"
  schemaOf := fun
    | .inl inventory => some inventory.schema
    | .inr file => some file.schema
  catalogOf := fun _ => .error "missing field channel"
  signaturesOf := fun
    | .inl _ => .error "unknown field version"
    | .inr file => .ok file
  parseVersion := fun text =>
    if text = "0.30.0" then .ok ⟨0, 30, 0, "", ""⟩ else .error "unexpected character"
  displayVersion := sampleCrates.displayVersion
  inventoryOf := fun
    | .inl inventory => .ok inventory
    | .inr _ => .error "unknown field signatures"
  inflate := fun bytes limit =>
    if bytes = sampleUpdaterData then .ok (sampleUpdaterBytes.take limit)
    else .error "corrupt deflate stream"
  crc32 := fun bytes =>
    if bytes = sampleAppBytes then 2772787799
    else if bytes = sampleUpdaterBytes then 2045528883
    else if bytes = sampleInventoryBytes then 4174615192
    else if bytes = sampleInventorySignatureBytes then 4138596312
    else 0

/-- A Windows archive of an app, a deflated updater and the signed inventory of both. -/
def sampleArchive : List UInt8 :=
  SampleFile.archive [
    ⟨"hane.exe", 0, 2772787799, sampleAppBytes, 7⟩,
    ⟨"hane-updater.exe", 8, 2045528883, sampleUpdaterData, 26⟩,
    ⟨"hane-install.json", 0, 4174615192, sampleInventoryBytes, 391⟩,
    ⟨"hane-install.json.sig", 0, 4138596312, sampleInventorySignatureBytes, 160⟩]

def sampleArchiveCandidate : VerifiedCandidate :=
  { sampleCandidate with
    entry := {
      sampleCandidate.entry with
      unpackedSize := 584
      inventorySha256 := some "31de22f5736df7a686eb55a1426c50e3bccfddc89b8d55f7277899cb17c28061" } }

def sampleArchivePolicy : TrustPolicy := ⟨[⟨"hane-2026", sampleInventoryKey⟩]⟩

def sampleArchiveLimits : ArchiveLimits := ⟨268435456, 10000, 536870912, 1073741824⟩

/-- The sample archive is accepted, so it is laid out and owned as stated. -/
theorem accepted_archive_sound_sample
    : ∃ entries inspected,
        (scanArchive sampleArchive sampleArchiveLimits = .ok entries
          ∧ ∃ endAt cdOffset placements,
            Accepted sampleArchive sampleArchiveLimits entries endAt cdOffset placements)
        ∧ inspectArchive sampleArchiveCrates sampleArchive sampleArchiveCandidate
            sampleArchivePolicy sampleArchiveLimits = .ok inspected
        ∧ Inspected sampleArchiveCrates sampleArchive sampleArchiveCandidate sampleArchivePolicy
            sampleArchiveLimits inspected := by
  obtain ⟨_, accepted, inspections⟩ :=
    accepted_archive_sound sampleArchiveCrates sampleArchive sampleArchiveLimits
  obtain ⟨entries, scanned⟩ : ∃ entries, scanArchive sampleArchive sampleArchiveLimits
      = .ok entries := except_ok_of_isOk (by decide +kernel)
  obtain ⟨inspected, ran⟩ : ∃ inspected, inspectArchive sampleArchiveCrates sampleArchive
      sampleArchiveCandidate sampleArchivePolicy sampleArchiveLimits = .ok inspected :=
    except_ok_of_isOk (by decide +kernel)
  exact ⟨entries, inspected, ⟨scanned, accepted entries scanned⟩, ran,
    (inspections sampleArchiveCandidate sampleArchivePolicy).2 inspected ran⟩

end Hane.Update.Archive
