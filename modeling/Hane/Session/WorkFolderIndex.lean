import Hane.Session.WorkFolderChanges

/-! A work folder shows what a flat index of paths holds: what a call does to the tree is what it
does to the index, and the index and the sort order leave nothing open about the tree.
-/

namespace Hane.Session

variable {order : WorkFolderSortOrder} {dir path : Path} {nodes after : List WorkFolderNode}

-- Sorting every level

theorem resortBelow_eq (nodes : List WorkFolderNode)
    : resortBelow order nodes = nodes.map (resortNode order) := by
  induction nodes with
  | nil => rfl
  | cons node rest ih => rw [resortBelow, ih, List.map_cons]

theorem resortNode_path (node : WorkFolderNode) : (resortNode order node).path = node.path := by
  cases node <;> rfl

theorem resortTree_items (nodes : List WorkFolderNode)
    : (items (resortTree nodes order)).Perm (items nodes) := by
  refine (items_sortNodes _).trans ?_
  induction nodes using nodes_induct with
  | nil => exact .refl _
  | file entry rest ih => exact ih.append_left _
  | folder head children rest below ih =>
      rw [resortBelow, resortNode, items, items, folder_items, folder_items]
      exact (((items_sortNodes _).trans below).cons _).append ih

theorem resortTree_settled {other : WorkFolderSortOrder} (settled : Settled other dir nodes)
    : Settled order dir (resortTree nodes order) := by
  induction settled with
  | @level dir nodes sorted files folders below ih =>
      rw [resortTree, resortBelow_eq]
      refine settled_sort ?_ fun node among => ?_
      · have paths : WorkFolderNode.path ∘ resortNode order = WorkFolderNode.path :=
          funext resortNode_path
        rw [List.map_map, paths]
        exact path_nodup sorted
      · obtain ⟨node, present, rfl⟩ := List.mem_map.mp among
        cases node with
        | file entry => exact files entry present
        | folder head children =>
            exact ⟨folders head children present, ih head children present⟩

-- One tree for one set of items

theorem Settled.mem_children {head : WorkFolderFolder} {children : List WorkFolderNode}
    (settled : Settled order dir nodes) (present : .folder head children ∈ nodes)
    {item : Path × Retained} (under : IsUnder head.path item.1)
    : item ∈ items nodes ↔ item ∈ items children := by
  obtain ⟨before, rest, rfl⟩ := List.append_of_mem present
  have exchanges : Exchanges head.path children children dir
      (before ++ .folder head children :: rest) (before ++ .folder head children :: rest) :=
    .deeper .here
  exact ((exchanges.exchanged settled).mem_under under).1

theorem Settled.node_of_item {name : String} {retained : Retained}
    (settled : Settled order dir nodes) (present : (dir ++ [.normal name], retained) ∈ items nodes)
    : ∃ node ∈ nodes, node.item = (dir ++ [.normal name], retained) := by
  obtain ⟨node, among, inside⟩ := mem_items.mp present
  have placed := settled.placed node among
  obtain ⟨other, is⟩ := placed.path
  have here := placed.isPrefix inside
  rw [is] at here
  have same := IsUnder.disjoint here (List.prefix_refl (dir ++ [.normal name]))
  have at_path : node.item.1 = dir ++ [.normal name] := by rw [item_path, is, same]
  have own : node.item ∈ items nodes := mem_items.mpr ⟨node, among, item_mem node⟩
  have own : (dir ++ [.normal name], node.item.2) ∈ items nodes := at_path ▸ own
  exact ⟨node, among, Prod.ext at_path (settled.unique own present)⟩

theorem entry_eq {left right : WorkFolderEntry} (first : left.In dir) (second : right.In dir)
    (path : left.path = right.path) (retained : left.retained = right.retained)
    : left = right := by
  obtain ⟨name, leftIs⟩ := first
  obtain ⟨other, rightIs⟩ := second
  have leftPath : left.path = dir ++ [.normal name] := congrArg WorkFolderEntry.path leftIs
  have rightPath : right.path = dir ++ [.normal other] := congrArg WorkFolderEntry.path rightIs
  obtain ⟨_, modified, sequence⟩ := Retained.mk.inj retained
  rw [leftIs, rightIs, ← leftPath, ← rightPath, path, modified, sequence]

theorem head_eq {left right : WorkFolderFolder} (first : left.In dir) (second : right.In dir)
    (path : left.path = right.path) (retained : left.retained = right.retained)
    : left = right := by
  obtain ⟨name, leftIs⟩ := first
  obtain ⟨other, rightIs⟩ := second
  have leftPath : left.path = dir ++ [.normal name] := congrArg WorkFolderFolder.path leftIs
  have rightPath : right.path = dir ++ [.normal other] := congrArg WorkFolderFolder.path rightIs
  obtain ⟨_, modified, sequence⟩ := Retained.mk.inj retained
  rw [leftIs, rightIs, ← leftPath, ← rightPath, path, modified, sequence]

/-- The items and the order leave nothing open. -/
theorem settled_unique {others : List WorkFolderNode} (settled : Settled order dir nodes)
    (settled' : Settled order dir others)
    (same : ∀ item, item ∈ items nodes ↔ item ∈ items others) : nodes = others := by
  induction settled generalizing others with
  | @level dir nodes sorted files folders below ih =>
      have settled : Settled order dir nodes := .level sorted files folders below
      have forward : ∀ node ∈ nodes, node ∈ others := by
        intro node among
        obtain ⟨name, is⟩ := (settled.placed node among).path
        have own : node.item ∈ items nodes := mem_items.mpr ⟨node, among, item_mem node⟩
        have split : node.item = (dir ++ [.normal name], node.item.2) :=
          Prod.ext ((item_path node).trans is) rfl
        obtain ⟨other, present, item⟩ := settled'.node_of_item (split ▸ (same _).mp own)
        have item : other.item = node.item := item.trans split.symm
        have placed := settled'.placed other present
        cases node with
        | file entry =>
            cases other with
            | folder head children =>
                cases congrArg (fun item => item.2.isFolder) item
            | file entry' =>
                have is := entry_eq placed (files entry among) (congrArg Prod.fst item)
                  (congrArg Prod.snd item)
                exact is ▸ present
        | folder head children =>
            cases other with
            | file entry => cases congrArg (fun item => item.2.isFolder) item
            | folder head' children' =>
                have is := head_eq placed.1 (folders head children among)
                  (congrArg Prod.fst item) (congrArg Prod.snd item)
                subst is
                have inner := settled'.inside present
                have equal : children = children' := by
                  refine ih _ _ among inner fun item => ?_
                  constructor
                  · intro inside
                    have under := (below _ _ among).isUnder inside
                    refine (settled'.mem_children present under).mp ((same item).mp ?_)
                    exact (settled.mem_children among under).mpr inside
                  · intro inside
                    have under := inner.isUnder inside
                    refine (settled.mem_children among under).mp ((same item).mpr ?_)
                    exact (settled'.mem_children present under).mpr inside
                exact equal ▸ present
      have backward : ∀ node ∈ others, node ∈ nodes := by
        intro node among
        obtain ⟨name, is⟩ := (settled'.placed node among).path
        have own : node.item ∈ items others := mem_items.mpr ⟨node, among, item_mem node⟩
        have split : node.item = (dir ++ [.normal name], node.item.2) :=
          Prod.ext ((item_path node).trans is) rfl
        obtain ⟨other, present, item⟩ := settled.node_of_item (split ▸ (same _).mpr own)
        have at_path : other.path = node.path := by
          rw [← item_path, item, is]
        have equal := List.inj_on_of_nodup_map (path_nodup settled'.sorted)
          (forward other present) among at_path
        exact equal ▸ present
      refine eq_of_before sorted settled'.sorted ?_
      refine (List.perm_ext_iff_of_nodup ?_ ?_).mpr fun node => ⟨forward node, backward node⟩
      · exact (path_nodup sorted).of_map _
      · exact (path_nodup settled'.sorted).of_map _

-- Flat indexes

/-- What is known of the paths below a root: of each one a file, a folder or nothing. -/
abbrev PathIndex : Type := Path → Option Retained

namespace PathIndex

def isFile (index : PathIndex) (path : Path) : Bool := (index path).any fun kept => !kept.isFolder

def isFolder (index : PathIndex) (path : Path) : Bool := (index path).any (·.isFolder)

def erase (index : PathIndex) (path : Path) : PathIndex :=
  fun other => if other = path then none else index other

def eraseBelow (index : PathIndex) (path : Path) : PathIndex :=
  fun other => if path <+: other then none else index other

def insertFolder (index : PathIndex) (root path : Path) : PathIndex :=
  fun other =>
    if root <+: other ∧ other ≠ root ∧ other <+: path then (index other).or (some .folder)
    else index other

def insert (index : PathIndex) (root path : Path) : PathIndex :=
  if index.isFile path ∨ ¬ root <+: path ∨ path = root then index
  else fun other =>
    if other = path then some .file else index.insertFolder root path.dropLast other

def stamp (index : PathIndex) (path : Path) (modified : Option Int) (sequence : Option Nat)
    : PathIndex :=
  fun other =>
    if other = path then (index path).map (·.stamped modified sequence) else index other

def rename (index : PathIndex) (root source target : Path) : PathIndex :=
  match index source with
  | some kept =>
    if kept.isFolder then index
    else ((index.erase source).insert root target).stamp target kept.modified kept.sequence
  | none => index

def remove (index : PathIndex) (path : Path) : PathIndex :=
  if index.isFile path then index.erase path else index

def removeFolder (index : PathIndex) (path : Path) : PathIndex :=
  if index.isFolder path then index.eraseBelow path else index

/-- Everything at and below one path is taken to another one. -/
def moveBelow (index : PathIndex) (source target : Path) : PathIndex :=
  fun other =>
    if target <+: other then index (source ++ other.drop target.length)
    else index.eraseBelow source other

def renameFolder (index : PathIndex) (root source target : Path) : PathIndex :=
  if index.isFolder source then
    if target.parent.any fun parent => parent = root || (index.eraseBelow source).isFolder parent
    then index.moveBelow source target
    else index.eraseBelow source
  else index

/-- A file can be put at a path: no folder is there, and no file above it. -/
structure CanInsert (index : PathIndex) (root path : Path) : Prop where
  under : IsUnder root path
  noFolder : index.isFolder path = false
  noFiles : ∀ other, other <+: path → other ≠ path → index.isFile other = false

/-- A folder can be made at a path: no file is there or above it. -/
structure CanInsertFolder (index : PathIndex) (root path : Path) : Prop where
  under : IsUnder root path
  noFiles : ∀ other, other <+: path → index.isFile other = false

end PathIndex

/-- A tree in order that shows what an index holds. -/
structure WorkFolder.Represents (folder : WorkFolder) (index : PathIndex) : Prop where
  settled : Settled folder.sortOrder folder.root folder.children
  shows : ∀ path kept, index path = some kept ↔ (path, kept) ∈ items folder.children

namespace WorkFolder.Represents

variable {folder : WorkFolder} {index : PathIndex}

theorem isFile_iff (represents : folder.Represents index) (path : Path)
    : index.isFile path = true
      ↔ ∃ kept, (path, kept) ∈ items folder.children ∧ kept.isFolder = false := by
  simp only [PathIndex.isFile, Option.any_eq_true, represents.shows, Bool.not_eq_true']

theorem isFolder_iff (represents : folder.Represents index) (path : Path)
    : index.isFolder path = true
      ↔ ∃ kept, (path, kept) ∈ items folder.children ∧ kept.isFolder = true := by
  simp only [PathIndex.isFolder, Option.any_eq_true, represents.shows]

theorem entry_isSome (represents : folder.Represents index) (path : Path)
    : (folder.entryForPath path).isSome = index.isFile path := by
  rw [Bool.eq_iff_iff, represents.isFile_iff]
  unfold WorkFolder.entryForPath
  cases found : findFile path folder.children with
  | some entry => exact ⟨fun _ => ⟨_, findFile_some found, rfl⟩, fun _ => rfl⟩
  | none =>
      refine ⟨fun is => absurd is Bool.false_ne_true, fun ⟨kept, present, file⟩ => ?_⟩
      exact absurd (findFile_none found present) (by rw [file]; exact Bool.false_ne_true)

theorem none_iff (represents : folder.Represents index) (path : Path)
    : index path = none ↔ ∀ kept, (path, kept) ∉ items folder.children := by
  rw [Option.eq_none_iff_forall_ne_some]
  exact forall_congr' fun kept => not_congr (represents.shows path kept)

end WorkFolder.Represents

end Hane.Session

namespace Hane.Session.WorkFolder.Represents

open PathIndex

variable {folder : WorkFolder} {index : PathIndex}

-- Times and orders

theorem stamp (represents : folder.Represents index) (path : Path) (modified : Option Int)
    (sequence : Option Nat)
    : (folder.stamp path modified sequence).Represents (index.stamp path modified sequence) := by
  unfold WorkFolder.stamp
  cases changed : setModified folder.children path modified sequence folder.sortOrder with
  | none =>
      have free : index path = none :=
        (represents.none_iff path).mpr fun kept => setModified_none changed kept
      have same : index.stamp path modified sequence = index := by
        funext other
        unfold PathIndex.stamp
        split
        case isTrue here => rw [here, free]; rfl
        case isFalse => rfl
      rw [same]
      exact represents
  | some result =>
      obtain ⟨_, after⟩ := result
      obtain ⟨settled, retained, present, members⟩ := setModified_some represents.settled changed
      refine ⟨settled, fun other kept => ?_⟩
      rw [members]
      unfold PathIndex.stamp
      split
      case isTrue here =>
        subst here
        rw [(represents.shows other retained).mpr present, Option.map_some, Option.some_inj]
        constructor
        · rintro rfl
          exact .inr rfl
        · rintro (⟨_, apart⟩ | is)
          · exact absurd rfl apart
          · exact (congrArg Prod.snd is).symm
      case isFalse apart =>
        rw [represents.shows]
        constructor
        · exact fun present => .inl ⟨present, apart⟩
        · rintro (⟨present, _⟩ | is)
          · exact present
          · exact absurd (congrArg Prod.fst is) apart

theorem setSortOrder (represents : folder.Represents index) (order : WorkFolderSortOrder)
    : (folder.setSortOrder order).Represents index := by
  unfold WorkFolder.setSortOrder
  split
  · exact represents
  · refine ⟨resortTree_settled represents.settled, fun path kept => ?_⟩
    exact (represents.shows path kept).trans (resortTree_items _).mem_iff.symm

-- Removing

theorem removeFile_some {node : WorkFolderNode} {children : List WorkFolderNode} {path : Path}
    (represents : folder.Represents index)
    (removed : removeFile folder.children path = some (node, children))
    : (∃ entry, node = .file entry ∧ index path = some entry.retained)
      ∧ ({ folder with children } : WorkFolder).Represents (index.erase path) := by
  obtain ⟨is, settled, ⟨parent, placed⟩, kept, own⟩ := removed_spec represents.settled removed
  cases node with
  | folder head below => cases is
  | file entry =>
      have at_path : entry.path = path := of_decide_eq_true is
      have present : (path, entry.retained) ∈ items folder.children := by
        refine ((own _).mp ?_).1
        rw [file_items, at_path]
        exact List.mem_cons_self
      refine ⟨⟨entry, rfl, (represents.shows _ _).mpr present⟩, settled, fun other retained => ?_⟩
      rw [kept]
      unfold erase
      split
      case isTrue here =>
        subst here
        refine ⟨fun is => (Option.some_ne_none _ is.symm).elim, fun ⟨_, apart⟩ => absurd ?_ apart⟩
        exact at_path ▸ List.prefix_rfl
      case isFalse apart =>
        rw [represents.shows]
        refine ⟨fun present => ⟨present, fun through => apart ?_⟩, And.left⟩
        have inside := (own (other, retained)).mpr ⟨present, through⟩
        rw [file_items] at inside
        exact (congrArg Prod.fst (List.mem_singleton.mp inside)).trans at_path

theorem removeFile_none {path : Path} (represents : folder.Represents index)
    (unchanged : removeFile folder.children path = none) : index.isFile path = false := by
  refine Bool.eq_false_iff.mpr fun is => ?_
  obtain ⟨kept, present, file⟩ := (represents.isFile_iff path).mp is
  have refuses : ∀ level, takeNode (·.isFileAt path) level = none → ∀ node ∈ level,
      (decide (node.item.1 = path) && !node.item.2.isFolder) = false := by
    intro level untaken node among
    have other := takeNode_none untaken node among
    cases node with
    | file entry =>
        have apart : entry.path ≠ path := by simpa [WorkFolderNode.isFileAt] using other
        simp [WorkFolderNode.item, apart]
    | folder head children => simp [WorkFolderNode.item, WorkFolderFolder.retained]
  have other := changeLevel_none (fun item => decide (item.1 = path) && !item.2.isFolder) refuses
    unchanged present
  simp [file] at other

theorem removeFolder_some {node : WorkFolderNode} {children : List WorkFolderNode} {path : Path}
    (represents : folder.Represents index)
    (removed : Session.removeFolder folder.children path = some (node, children))
    : (∃ head below, node = .folder head below ∧ head.path = path
        ∧ Settled folder.sortOrder path below)
      ∧ (∀ item, item ∈ node.items ↔ item ∈ items folder.children ∧ path <+: item.1)
      ∧ index.isFolder path = true
      ∧ ({ folder with children } : WorkFolder).Represents (index.eraseBelow path) := by
  obtain ⟨is, settled, ⟨parent, placed⟩, kept, own⟩ := removed_spec represents.settled removed
  obtain ⟨head, below, rfl, at_path⟩ := isFolderAt_cases is
  have at_path' : (WorkFolderNode.folder head below).path = path := at_path
  rw [at_path'] at kept own
  have present : (path, head.retained) ∈ items folder.children := by
    refine ((own _).mp ?_).1
    rw [folder_items, at_path]
    exact List.mem_cons_self
  refine ⟨⟨head, below, rfl, at_path, at_path ▸ placed.2⟩, own,
    (represents.isFolder_iff path).mpr ⟨_, present, rfl⟩, settled, fun other retained => ?_⟩
  rw [kept]
  unfold eraseBelow
  split
  case isTrue through => exact ⟨fun is => (Option.some_ne_none _ is.symm).elim,
    fun ⟨_, apart⟩ => absurd through apart⟩
  case isFalse apart =>
    rw [represents.shows]
    exact ⟨fun present => ⟨present, apart⟩, And.left⟩

theorem removeFolder_none {path : Path} (represents : folder.Represents index)
    (unchanged : Session.removeFolder folder.children path = none)
    : index.isFolder path = false := by
  refine Bool.eq_false_iff.mpr fun is => ?_
  obtain ⟨kept, present, isFolder⟩ := (represents.isFolder_iff path).mp is
  have refuses : ∀ level, takeNode (·.isFolderAt path) level = none → ∀ node ∈ level,
      (decide (node.item.1 = path) && node.item.2.isFolder) = false := by
    intro level untaken node among
    have other := takeNode_none untaken node among
    cases node with
    | file entry => simp [WorkFolderNode.item, WorkFolderEntry.retained]
    | folder head children =>
        have apart : head.path ≠ path := by simpa [WorkFolderNode.isFolderAt] using other
        simp [WorkFolderNode.item, apart]
  have other := changeLevel_none (fun item => decide (item.1 = path) && item.2.isFolder) refuses
    unchanged present
  simp [isFolder] at other

theorem remove (represents : folder.Represents index) (path : Path)
    : (folder.remove path).Represents (index.remove path) := by
  unfold WorkFolder.remove PathIndex.remove
  cases removed : removeFile folder.children path with
  | none => rw [represents.removeFile_none removed]; exact represents
  | some result =>
      obtain ⟨node, children⟩ := result
      obtain ⟨⟨entry, _, kept⟩, represents'⟩ := represents.removeFile_some removed
      have file : index.isFile path = true := by rw [isFile, kept]; rfl
      rw [if_pos file]
      exact represents'

theorem removeFolder (represents : folder.Represents index) (path : Path)
    : (folder.removeFolder path).Represents (index.removeFolder path) := by
  unfold WorkFolder.removeFolder PathIndex.removeFolder
  split
  case isTrue root =>
    -- The root is no node of its own tree.
    have free : index.isFolder path = false := by
      refine Bool.eq_false_iff.mpr fun is => ?_
      obtain ⟨kept, present, _⟩ := (represents.isFolder_iff path).mp is
      exact (represents.settled.isUnder present).ne root
    rw [free]
    exact represents
  case isFalse other =>
    cases removed : Session.removeFolder folder.children path with
    | none => rw [represents.removeFolder_none removed]; exact represents
    | some result =>
        obtain ⟨node, children⟩ := result
        obtain ⟨_, _, isFolder, represents'⟩ := represents.removeFolder_some removed
        rw [if_pos isFolder]
        exact represents'

-- Inserting

theorem stripPrefix_under {root path : Path} {name : String} {names : List String}
    (is : path = root ++ .normal name :: names.map .normal)
    : Path.stripPrefix root path = some (.normal name :: names.map .normal) := by
  rw [is, Path.stripPrefix]
  simp

theorem stripPrefix_cases {root path : Path} (outside : ¬ root <+: path ∨ path = root)
    : Path.stripPrefix root path = none ∨ Path.stripPrefix root path = some [] := by
  unfold Path.stripPrefix
  rcases outside with apart | rfl
  · exact .inl (if_neg (by simpa using apart))
  · exact .inr (by simp)

theorem isUnder_between {root other : Path} (names : List String)
    (through : other <+: root ++ names.map .normal)
    : root <+: other ∧ other ≠ root ↔ IsUnder root other := by
  refine ⟨fun ⟨below, apart⟩ => ?_, fun under => ⟨under.isPrefix, under.ne⟩⟩
  obtain ⟨rest, rfl⟩ := below
  obtain ⟨behind, same⟩ := (List.prefix_append_right_inj root).mp through
  obtain ⟨taken, _, _, rfl, _⟩ := List.map_eq_append_iff.mp same.symm
  cases taken with
  | nil => exact absurd (List.append_nil root) apart
  | cons name taken => exact ⟨name, taken, rfl⟩

theorem missing_iff {root path other : Path} {kept : Retained}
    (represents : folder.Represents index) (names : List String)
    (is : path = root ++ names.map .normal)
    : (other, kept) ∈ items folder.children
        ∨ MissingFolders folder.children root path (other, kept)
      ↔ index.insertFolder root path other = some kept := by
  unfold MissingFolders PathIndex.insertFolder
  split
  case isTrue inside =>
    obtain ⟨below, apart, through⟩ := inside
    have under := (isUnder_between names (is ▸ through)).mp ⟨below, apart⟩
    rw [Option.or_eq_some_iff, represents.shows, represents.none_iff, Option.some_inj]
    exact or_congr_right ⟨fun ⟨is, _, _, free⟩ => ⟨free, is.symm⟩,
      fun ⟨free, is⟩ => ⟨is.symm, under, through, free⟩⟩
  case isFalse outside =>
    rw [represents.shows]
    exact ⟨fun present => present.resolve_right fun ⟨_, under, through, _⟩ =>
      outside ⟨under.isPrefix, under.ne, through⟩, .inl⟩

theorem insertFolder (represents : folder.Represents index) {path : Path}
    (can : folder.root <+: path → path ≠ folder.root → index.CanInsertFolder folder.root path)
    : (folder.insertFolder path).Represents (index.insertFolder folder.root path) := by
  unfold WorkFolder.insertFolder
  by_cases inside : folder.root <+: path ∧ path ≠ folder.root
  · obtain ⟨under, noFiles⟩ := can inside.1 inside.2
    obtain ⟨name, names, is⟩ := under
    rw [stripPrefix_under is]
    obtain ⟨settled, members⟩ := insertFolderAt_spec name names represents.settled
      fun other kept present through => by
        have file := noFiles other (is ▸ through)
        cases isFolder : kept.isFolder with
        | true => rfl
        | false =>
            rw [(represents.isFile_iff other).mpr ⟨kept, present, isFolder⟩] at file
            cases file
    refine ⟨settled, fun other kept => ?_⟩
    rw [members, ← is, represents.missing_iff (name :: names) is]
  · have outside : ¬ folder.root <+: path ∨ path = folder.root := by
      by_cases below : folder.root <+: path
      · exact .inr (by_contra fun apart => inside ⟨below, apart⟩)
      · exact .inl below
    have same : index.insertFolder folder.root path = index := by
      funext other
      refine if_neg fun ⟨below, apart, through⟩ => inside ⟨below.trans through, fun is => ?_⟩
      rw [is] at through
      exact apart (through.eq_of_length_le below.length_le)
    rw [same]
    rcases stripPrefix_cases outside with is | is
    · rw [is]; exact represents
    · rw [is]; exact represents

theorem insert (represents : folder.Represents index) {path : Path}
    (can : index.isFile path = false → folder.root <+: path → path ≠ folder.root
      → index.CanInsert folder.root path)
    : (folder.insert path).Represents (index.insert folder.root path) := by
  unfold WorkFolder.insert PathIndex.insert
  rw [represents.entry_isSome]
  cases known : index.isFile path with
  | true => exact represents
  | false =>
      by_cases outside : ¬ folder.root <+: path ∨ path = folder.root
      · rw [if_neg Bool.false_ne_true, if_pos (.inr outside)]
        rcases stripPrefix_cases outside with is | is
        · rw [is]; exact represents
        · rw [is]; exact represents
      · have inside := not_or.mp outside
        obtain ⟨under, noFolder, noFiles⟩ := can known (not_not.mp inside.1) inside.2
        obtain ⟨name, names, is⟩ := under
        rw [if_neg Bool.false_ne_true, if_neg (by simpa using inside), stripPrefix_under is]
        have free : ∀ kept, (path, kept) ∉ items folder.children := by
          intro kept present
          cases isFolder : kept.isFolder with
          | true =>
              rw [(represents.isFolder_iff path).mpr ⟨kept, present, isFolder⟩] at noFolder
              cases noFolder
          | false =>
              rw [(represents.isFile_iff path).mpr ⟨kept, present, isFolder⟩] at known
              cases known
        obtain ⟨settled, members⟩ := insertFile_spec name names represents.settled is
          (fun other kept present through => by
            have apart : other ≠ path := fun same => free kept (same ▸ present)
            have file := noFiles other through apart
            cases isFolder : kept.isFolder with
            | true => rfl
            | false =>
                rw [(represents.isFile_iff other).mpr ⟨kept, present, isFolder⟩] at file
                cases file) free
        refine ⟨settled, fun other kept => ?_⟩
        have shorter : path.dropLast = folder.root ++ (name :: names).dropLast.map .normal := by
          rw [is, List.map_dropLast, List.dropLast_append_of_ne_nil (List.cons_ne_nil _ _),
            List.map_cons]
        rw [members, ← or_assoc, represents.missing_iff _ shorter]
        split
        case isTrue here =>
          subst here
          have apart : index.insertFolder folder.root other.dropLast other = none := by
            have longer : ¬ other <+: other.dropLast := by
              intro through
              have length := through.length_le
              rw [is, List.length_dropLast, List.length_append, List.length_cons] at length
              omega
            rw [PathIndex.insertFolder, if_neg fun inside => longer inside.2.2]
            exact (represents.none_iff other).mpr free
          rw [apart, Option.some_inj]
          constructor
          · intro is
            exact .inr (is ▸ rfl)
          · rintro (none | is)
            · exact (Option.some_ne_none _ none.symm).elim
            · exact (congrArg Prod.snd is).symm
        case isFalse apart =>
          exact ⟨.inl, fun present => present.resolve_right fun is =>
            apart (congrArg Prod.fst is)⟩

theorem rename (represents : folder.Represents index) {source target : Path}
    (can : index.isFile source = true → (index.erase source).isFile target = false
      → folder.root <+: target → target ≠ folder.root
      → (index.erase source).CanInsert folder.root target)
    : (folder.rename source target).Represents (index.rename folder.root source target) := by
  unfold WorkFolder.rename PathIndex.rename
  cases removed : removeFile folder.children source with
  | none =>
      have noFile := represents.removeFile_none removed
      cases known : index source with
      | none => exact represents
      | some kept =>
          rw [isFile, known] at noFile
          have isFolder : kept.isFolder = true := by simpa using noFile
          dsimp only
          rw [if_pos isFolder]
          exact represents
  | some result =>
      obtain ⟨node, children⟩ := result
      obtain ⟨⟨entry, rfl, known⟩, represents'⟩ := represents.removeFile_some removed
      have file : index.isFile source = true := by rw [isFile, known]; rfl
      rw [known]
      exact (represents'.insert (can file)).stamp target entry.modified entry.modifiedSeq

-- Moving

theorem eq_of_under {dir path target : Path} {name : String} (is : path = dir ++ [.normal name])
    (under : IsUnder dir target) (through : target <+: path) : target = path := by
  refine through.eq_of_length_le ?_
  obtain ⟨first, names, rfl⟩ := under
  rw [is]
  simp

theorem ancestor_mem {order : WorkFolderSortOrder} {dir target : Path}
    {nodes : List WorkFolderNode} {item : Path × Retained} (settled : Settled order dir nodes)
    (present : item ∈ items nodes) (through : target <+: item.1) (under : IsUnder dir target)
    : ∃ kept, (target, kept) ∈ items nodes := by
  induction nodes using nodes_induct generalizing dir with
  | nil => exact absurd present List.not_mem_nil
  | file entry rest ih =>
      rw [items, file_items] at present ⊢
      rcases List.mem_cons.mp present with rfl | present
      · obtain ⟨name, is⟩ := (settled.placed _ List.mem_cons_self).path
        rw [eq_of_under is under through]
        exact ⟨_, List.mem_cons_self⟩
      · obtain ⟨kept, present⟩ := ih settled.tail present under
        exact ⟨kept, List.mem_cons_of_mem _ present⟩
  | folder head children rest below ih =>
      have inside := settled.inside List.mem_cons_self
      obtain ⟨name, is⟩ := (settled.placed _ List.mem_cons_self).path
      rw [items, folder_items] at present ⊢
      rcases List.mem_cons.mp present with rfl | present
      · rw [eq_of_under is under through]
        exact ⟨_, List.mem_cons_self⟩
      · rcases List.mem_append.mp present with present | present
        · obtain ⟨first, names, at_path⟩ := inside.isUnder present
          rcases List.prefix_or_prefix_of_prefix through (at_path ▸ List.prefix_append _ _)
            with short | long
          · rw [eq_of_under is under short]
            exact ⟨_, List.mem_cons_self⟩
          · by_cases same : target = head.path
            · rw [same]
              exact ⟨_, List.mem_cons_self⟩
            · have under := (isUnder_between (first :: names) (at_path ▸ through)).mp
                ⟨long, same⟩
              obtain ⟨kept, present⟩ := below inside present under
              exact ⟨kept, List.mem_append_left _ (List.mem_cons_of_mem _ present)⟩
        · obtain ⟨kept, present⟩ := ih settled.tail present under
          exact ⟨kept, List.mem_append_right _ present⟩

theorem addUnder (represents : folder.Represents index) {parent : Path} {name : String}
    {node : WorkFolderNode} (placed : node.In folder.sortOrder parent)
    (is : node.path = parent ++ [.normal name]) (free : index node.path = none)
    (known : parent = folder.root ∨ index.isFolder parent = true)
    : Settled folder.sortOrder folder.root (folder.addUnder parent node).children
      ∧ ∀ item, item ∈ items (folder.addUnder parent node).children
        ↔ item ∈ items folder.children ∨ item ∈ node.items := by
  have free := (represents.none_iff node.path).mp free
  have under : IsUnder parent node.path := ⟨name, [], is⟩
  unfold WorkFolder.addUnder
  dsimp only
  split
  case isTrue root =>
    subst root
    exact ⟨added_settled represents.settled placed free, fun _ => mem_added⟩
  case isFalse apart =>
    cases found : findFolder parent folder.children with
    | none =>
        obtain ⟨kept, present, isFolder⟩ :=
          (represents.isFolder_iff parent).mp (known.resolve_left apart)
        rw [(findFolder_none found).2 kept present] at isFolder
        cases isFolder
    | some result =>
        obtain ⟨head, level⟩ := result
        obtain ⟨_, _, changes⟩ := findFolder_some found
        obtain ⟨after, changed, exchanges⟩ := changes folder.root
          fun children => sortNodes (children ++ [node]) folder.sortOrder
        rw [changed]
        have exchanged := exchanges.exchanged represents.settled
        have inner : ∀ kept, (node.path, kept) ∉ items level := fun kept present =>
          free kept ((exchanged.mem_under under).1.mpr present)
        obtain ⟨others, nodesPerm, afterPerm, _⟩ := exchanged.others
        refine ⟨exchanged.kept (added_settled exchanged.settled placed inner), fun item => ?_⟩
        rw [afterPerm.mem_iff, nodesPerm.mem_iff, List.mem_append, mem_added, List.mem_append]
        tauto

theorem addUnder_kept (folder : WorkFolder) (parent : Path) (node : WorkFolderNode)
    : (folder.addUnder parent node).root = folder.root
      ∧ (folder.addUnder parent node).sortOrder = folder.sortOrder := by
  unfold WorkFolder.addUnder
  dsimp only
  split
  · exact ⟨rfl, rfl⟩
  · split
    · exact ⟨rfl, rfl⟩
    · exact ⟨rfl, rfl⟩

theorem addUnder_unknown (represents : folder.Represents index) {parent : Path}
    (node : WorkFolderNode) (other : parent ≠ folder.root)
    (unknown : index.isFolder parent = false) : folder.addUnder parent node = folder := by
  unfold WorkFolder.addUnder
  dsimp only
  rw [if_neg other]
  cases found : findFolder parent folder.children with
  | none => rw [(findFolder_none found).1]
  | some result =>
      obtain ⟨head, level⟩ := result
      obtain ⟨_, present, _⟩ := findFolder_some found
      rw [(represents.isFolder_iff parent).mpr ⟨_, present, rfl⟩] at unknown
      cases unknown

theorem mem_moved {source target other : Path} {kept : Retained} {nodes : List WorkFolderNode}
    {node : WorkFolderNode}
    (own : ∀ item, item ∈ node.items ↔ item ∈ items nodes ∧ source <+: item.1)
    (under : ∀ item ∈ node.items, ∃ names : List String, item.1 = source ++ names.map .normal)
    : (other, kept) ∈ (rebaseNode source target node).items
      ↔ target <+: other ∧ (source ++ other.drop target.length, kept) ∈ items nodes := by
  have moved : (rebaseNode source target node).items
      = node.items.map fun item => (rebasePath item.1 source target, item.2) := by
    have both := @rebaseNodes_items source target [node]
    rwa [rebaseNodes, rebaseNodes, items, items, List.append_nil, items, items,
      List.append_nil] at both
  rw [moved, List.mem_map]
  constructor
  · rintro ⟨item, present, is⟩
    obtain ⟨names, at_path⟩ := under item present
    have here : rebasePath item.1 source target = other := congrArg Prod.fst is
    rw [at_path, rebasePath_append] at here
    subst here
    have same : item.2 = kept := congrArg Prod.snd is
    refine ⟨List.prefix_append _ _, ?_⟩
    rw [List.drop_left, ← at_path, ← same]
    exact ((own item).mp present).1
  · rintro ⟨⟨rest, rfl⟩, present⟩
    rw [List.drop_left] at present
    have inside := (own _).mpr ⟨present, List.prefix_append source rest⟩
    obtain ⟨names, at_path⟩ := under _ inside
    have tail : rest = names.map .normal := List.append_cancel_left at_path
    refine ⟨_, inside, Prod.ext ?_ rfl⟩
    dsimp only
    rw [tail, rebasePath_append]

theorem moved_in {order : WorkFolderSortOrder} {source target parent : Path} {name : String}
    {head : WorkFolderFolder} {below : List WorkFolderNode} (at_path : head.path = source)
    (settled : Settled order source below) (is : target = parent ++ [.normal name])
    : (rebaseNode source target (.folder head below)).In order parent
      ∧ (rebaseNode source target (.folder head below)).path = target := by
  have self : rebasePath head.path source target = target := by
    have moved := rebasePath_append source target []
    rw [List.map_nil, List.append_nil, List.append_nil] at moved
    rw [at_path, moved]
  have inside := @rebaseNodes_settled _ _ _ _ target settled [] (List.append_nil source).symm
  rw [List.map_nil, List.append_nil] at inside
  refine ⟨⟨⟨name, ?_⟩, ?_⟩, self⟩
  · rw [rebaseHead, self, is]
    rfl
  · rw [show (rebaseHead head source target).path = target from self]
    exact inside

theorem renameFolder (represents : folder.Represents index) {source target : Path}
    (can : index.isFolder source = true → ∀ parent, target.parent = some parent
      → parent = folder.root ∨ (index.eraseBelow source).isFolder parent = true
      → (∃ name, target = parent ++ [.normal name])
        ∧ index.eraseBelow source target = none)
    : (folder.renameFolder source target).Represents
        (index.renameFolder folder.root source target) := by
  unfold WorkFolder.renameFolder PathIndex.renameFolder
  cases removed : Session.removeFolder folder.children source with
  | none =>
      rw [represents.removeFolder_none removed]
      exact represents
  | some result =>
      obtain ⟨node, children⟩ := result
      obtain ⟨⟨head, below, rfl, at_path, settled⟩, own, isFolder, represents'⟩ :=
        represents.removeFolder_some removed
      rw [if_pos isFolder]
      dsimp only
      cases above : target.parent with
      | none => exact represents'
      | some parent =>
          rw [Option.any_some]
          dsimp only
          by_cases known : parent = folder.root ∨ (index.eraseBelow source).isFolder parent = true
          · have goes : (decide (parent = folder.root)
                || (index.eraseBelow source).isFolder parent) = true := by simpa using known
            rw [if_pos goes]
            obtain ⟨⟨name, is⟩, free⟩ := can isFolder parent above known
            obtain ⟨placed, here⟩ := moved_in at_path settled is
            obtain ⟨inOrder, members⟩ := represents'.addUnder placed (here.trans is)
              (here.symm ▸ free) known
            obtain ⟨sameRoot, sameOrder⟩ := addUnder_kept { folder with children } parent
              (rebaseNode source target (.folder head below))
            refine ⟨by rw [sameRoot, sameOrder]; exact inOrder, fun other kept => ?_⟩
            have inside : IsUnder folder.root target := by
              have step : IsUnder parent target := ⟨name, [], is⟩
              rcases known with root | isFolder
              · exact root ▸ step
              · obtain ⟨_, present, _⟩ := (represents'.isFolder_iff parent).mp isFolder
                exact (represents'.settled.isUnder present).trans step
            have names : ∀ item ∈ (WorkFolderNode.folder head below).items,
                ∃ names : List String, item.1 = source ++ names.map .normal := by
              intro item present
              rw [folder_items, at_path] at present
              rcases List.mem_cons.mp present with rfl | present
              · exact ⟨[], (List.append_nil source).symm⟩
              · obtain ⟨name, names, is⟩ := settled.isUnder present
                exact ⟨name :: names, is⟩
            rw [members, mem_moved own names]
            unfold moveBelow
            split
            case isTrue through =>
              rw [represents.shows]
              refine ⟨fun present => .inr ⟨through, present⟩, fun present => ?_⟩
              refine (present.resolve_left fun present => ?_).2
              obtain ⟨_, present⟩ := ancestor_mem represents'.settled present through inside
              exact (represents'.none_iff target).mp free _ present
            case isFalse apart =>
              rw [represents'.shows]
              exact ⟨.inl, fun present => present.resolve_right fun moved => apart moved.1⟩
          · have stops : ¬ (decide (parent = folder.root)
                || (index.eraseBelow source).isFolder parent) = true := by simpa using known
            rw [if_neg stops]
            obtain ⟨other, unknown⟩ := not_or.mp known
            rw [represents'.addUnder_unknown _ other (by simpa using unknown)]
            exact represents'

end Hane.Session.WorkFolder.Represents
