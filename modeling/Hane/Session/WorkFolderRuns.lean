import Hane.Session.WorkFolderIndex

/-! Whatever is called on a scanned work folder: the tree is in order and shows the flat index that
the calls lead to, and nothing else of what happened before can be seen in it.
-/

namespace Hane.Session

-- Scans

def DiskItem.name : DiskItem → Option String
  | .failed => none
  | .file name _ _ => some name
  | .dir name _ _ _ => some name
  | .other name => some name

/-- A directory lists no name twice. -/
inductive Listed : List DiskItem → Prop where
  | level {items : List DiskItem}
      : (items.filterMap DiskItem.name).Nodup
        → (∀ name modified sequence inner, .dir name modified sequence inner ∈ items
          → Listed inner)
        → Listed items

section Walking

variable {root dir : Path}

theorem walkItem_path {item : DiskItem} {node : WorkFolderNode}
    (walked : walkItem root dir item = some (some node))
    : ∃ name, item.name = some name ∧ node.path = dir ++ [.normal name] := by
  cases item with
  | failed => cases walked
  | other name => cases walked
  | file name modified sequence =>
      rw [walkItem] at walked
      dsimp only at walked
      split at walked
      · cases walked
        exact ⟨name, rfl, join_normal dir name⟩
      · cases walked
  | dir name modified sequence inner =>
      rw [walkItem] at walked
      dsimp only at walked
      split at walked
      · cases walked
      · obtain ⟨children, _, is⟩ := Option.map_eq_some_iff.mp walked
        cases is
        exact ⟨name, rfl, join_normal dir name⟩

theorem walkItems_some {items : List DiskItem} {nodes : List WorkFolderNode}
    (walked : walkItems root dir items = some nodes)
    : (nodes.map WorkFolderNode.path).Sublist
        ((items.filterMap DiskItem.name).map fun name => dir ++ [.normal name])
      ∧ ∀ node ∈ nodes, ∃ item ∈ items, walkItem root dir item = some (some node) := by
  induction items generalizing nodes with
  | nil =>
      cases walked
      exact ⟨.slnil, fun _ among => absurd among List.not_mem_nil⟩
  | cons item rest ih =>
      rw [walkItems] at walked
      split at walked
      case h_1 => cases walked
      case h_2 result here =>
        obtain ⟨later, behind, rfl⟩ := Option.map_eq_some_iff.mp walked
        obtain ⟨order, from_item⟩ := ih behind
        have from_item (node : WorkFolderNode) (among : node ∈ later)
            : ∃ other ∈ item :: rest, walkItem root dir other = some (some node) := by
          obtain ⟨other, present, is⟩ := from_item node among
          exact ⟨other, List.mem_cons_of_mem _ present, is⟩
        cases result with
        | none =>
            refine ⟨?_, from_item⟩
            rw [List.filterMap_cons]
            cases item.name with
            | none => exact order
            | some name => exact order.cons _
        | some node =>
            obtain ⟨name, named, at_path⟩ := walkItem_path here
            refine ⟨?_, fun other among => ?_⟩
            · rw [List.filterMap_cons, named]
              have first : (some node).toList ++ later = node :: later := rfl
              rw [first, List.map_cons, at_path]
              exact order.cons_cons _
            · rcases List.mem_cons.mp among with rfl | among
              · exact ⟨item, List.mem_cons_self, here⟩
              · exact from_item other among

theorem walkItems_settled {items : List DiskItem} (listed : Listed items)
    {nodes : List WorkFolderNode} (walked : walkItems root dir items = some nodes)
    : Settled .updatedNewest dir (sortNodes nodes .updatedNewest) := by
  induction listed generalizing dir nodes with
  | @level items distinct _ ih =>
      obtain ⟨order, from_item⟩ := walkItems_some walked
      refine settled_sort (order.nodup ?_) fun node among => ?_
      · refine distinct.map fun left right same => ?_
        simpa using same
      · obtain ⟨item, present, is⟩ := from_item node among
        cases item with
        | failed => cases is
        | other name => cases is
        | file name modified sequence =>
            rw [walkItem, join_normal] at is
            dsimp only at is
            split at is
            · cases is
              exact ⟨name, rfl⟩
            · cases is
        | dir name modified sequence inner =>
            rw [walkItem, join_normal] at is
            dsimp only at is
            split at is
            · cases is
            · obtain ⟨children, below, is⟩ := Option.map_eq_some_iff.mp is
              cases is
              exact ⟨⟨name, rfl⟩, ih name modified sequence inner present below⟩

end Walking

theorem scan_settled {root : Path} {items : List DiskItem} {folder : WorkFolder}
    (listed : Listed items) (scanned : scan root items = some folder)
    : folder.root = root ∧ Settled folder.sortOrder folder.root folder.children := by
  obtain ⟨nodes, walked, rfl⟩ := Option.map_eq_some_iff.mp scanned
  have settled := walkItems_settled listed walked
  refine ⟨rfl, settled_sort (path_nodup settled.sorted) settled.placed⟩

-- Calls

inductive WorkFolderCall where
  | insert (path : Path)
  | insertFolder (path : Path)
  | rename (source target : Path)
  | renameFolder (source target : Path)
  | remove (path : Path)
  | removeFolder (path : Path)
  | touch (path : Path) (modified : Option Int) (sequence : Nat)
  | setSortOrder (order : WorkFolderSortOrder)

namespace WorkFolderCall

def run (folder : WorkFolder) : WorkFolderCall → WorkFolder
  | insert path => folder.insert path
  | insertFolder path => folder.insertFolder path
  | rename source target => folder.rename source target
  | renameFolder source target => folder.renameFolder source target
  | remove path => folder.remove path
  | removeFolder path => folder.removeFolder path
  | touch path modified sequence => folder.touch path modified sequence
  | setSortOrder order => folder.setSortOrder order

/-- What a call does to the flat index. -/
def shift (root : Path) (index : PathIndex) : WorkFolderCall → PathIndex
  | insert path => index.insert root path
  | insertFolder path => index.insertFolder root path
  | rename source target => index.rename root source target
  | renameFolder source target => index.renameFolder root source target
  | remove path => index.remove path
  | removeFolder path => index.removeFolder path
  | touch path modified sequence => index.stamp path modified (some sequence)
  | setSortOrder _ => index

/-- A call that a filesystem could follow: what is made or moved below the root goes where nothing
else is, and below no file.
-/
def Possible (root : Path) (index : PathIndex) : WorkFolderCall → Prop
  | insert path =>
    index.isFile path = false → root <+: path → path ≠ root → index.CanInsert root path
  | insertFolder path => root <+: path → path ≠ root → index.CanInsertFolder root path
  | rename source target =>
    index.isFile source = true → (index.erase source).isFile target = false → root <+: target
      → target ≠ root → (index.erase source).CanInsert root target
  | renameFolder source target =>
    index.isFolder source = true → ∀ parent, target.parent = some parent
      → parent = root ∨ (index.eraseBelow source).isFolder parent = true
      → (∃ name, target = parent ++ [.normal name]) ∧ index.eraseBelow source target = none
  | _ => True

end WorkFolderCall

namespace WorkFolder

/-- What the tree shows of each path. -/
def index (folder : WorkFolder) : PathIndex := fun path =>
  ((items folder.children).find? (·.1 = path)).map Prod.snd

def runs (folder : WorkFolder) (calls : List WorkFolderCall) : WorkFolder :=
  calls.foldl WorkFolderCall.run folder

end WorkFolder

namespace PathIndex

def runs (root : Path) (index : PathIndex) (calls : List WorkFolderCall) : PathIndex :=
  calls.foldl (WorkFolderCall.shift root) index

def AllPossible (root : Path) (index : PathIndex) : List WorkFolderCall → Prop
  | [] => True
  | call :: rest => call.Possible root index ∧ AllPossible root (call.shift root index) rest

end PathIndex

namespace WorkFolder

theorem represents_index {folder : WorkFolder}
    (settled : Settled folder.sortOrder folder.root folder.children)
    : folder.Represents folder.index := by
  refine ⟨settled, fun path kept => ?_⟩
  unfold index
  constructor
  · intro found
    obtain ⟨item, first, rfl⟩ := Option.map_eq_some_iff.mp found
    have here : item.1 = path := by simpa using List.find?_some first
    exact here ▸ List.mem_of_find?_eq_some first
  · intro present
    cases found : (items folder.children).find? (·.1 = path) with
    | none => simpa using List.find?_eq_none.mp found _ present
    | some item =>
        have here : item.1 = path := by simpa using List.find?_some found
        have among := List.mem_of_find?_eq_some found
        have same := settled.unique (here ▸ among : (path, item.2) ∈ _) present
        exact congrArg some same

theorem Represents.index_eq {folder : WorkFolder} {index : PathIndex}
    (represents : folder.Represents index) : index = folder.index := by
  funext path
  have own := represents_index represents.settled
  refine Option.ext fun kept => ?_
  exact (represents.shows path kept).trans (own.shows path kept).symm

theorem insert_root (folder : WorkFolder) (path : Path)
    : (folder.insert path).root = folder.root := by
  unfold insert
  split
  · rfl
  · split <;> rfl

theorem stamp_root (folder : WorkFolder) (path : Path) (modified : Option Int)
    (sequence : Option Nat) : (folder.stamp path modified sequence).root = folder.root := by
  unfold stamp
  split <;> rfl

theorem run_root (folder : WorkFolder) (call : WorkFolderCall)
    : (call.run folder).root = folder.root := by
  cases call with
  | insert path => exact folder.insert_root path
  | insertFolder path =>
      change (folder.insertFolder path).root = folder.root
      unfold insertFolder
      split <;> rfl
  | rename source target =>
      change (folder.rename source target).root = folder.root
      unfold rename
      split
      · rfl
      · rw [stamp_root, insert_root]
  | renameFolder source target =>
      change (folder.renameFolder source target).root = folder.root
      unfold renameFolder
      split
      · rfl
      · dsimp only
        split
        · rfl
        · exact (Represents.addUnder_kept _ _ _).1
  | remove path =>
      change (folder.remove path).root = folder.root
      unfold remove
      split <;> rfl
  | removeFolder path =>
      change (folder.removeFolder path).root = folder.root
      unfold removeFolder
      split
      · rfl
      · split <;> rfl
  | touch path modified sequence => exact folder.stamp_root path modified (some sequence)
  | setSortOrder order =>
      change (folder.setSortOrder order).root = folder.root
      unfold setSortOrder
      split <;> rfl

theorem Represents.call {folder : WorkFolder} {index : PathIndex}
    (represents : folder.Represents index) (call : WorkFolderCall)
    (possible : call.Possible folder.root index)
    : (call.run folder).Represents (call.shift folder.root index) := by
  cases call with
  | insert path => exact represents.insert possible
  | insertFolder path => exact represents.insertFolder possible
  | rename source target => exact represents.rename possible
  | renameFolder source target => exact represents.renameFolder possible
  | remove path => exact represents.remove path
  | removeFolder path => exact represents.removeFolder path
  | touch path modified sequence => exact represents.stamp path modified (some sequence)
  | setSortOrder order => exact represents.setSortOrder order

theorem Represents.runs {folder : WorkFolder} {index : PathIndex} {calls : List WorkFolderCall}
    (represents : folder.Represents index)
    (possible : index.AllPossible folder.root calls)
    : (folder.runs calls).Represents (index.runs folder.root calls)
      ∧ (folder.runs calls).root = folder.root := by
  induction calls generalizing folder index with
  | nil => exact ⟨represents, rfl⟩
  | cons call rest ih =>
      have root := folder.run_root call
      obtain ⟨shown, same⟩ := ih (represents.call call possible.1) (by rw [root]; exact possible.2)
      rw [root] at shown same
      exact ⟨shown, same⟩

-- What is shown

theorem collectFiles_items (nodes : List WorkFolderNode)
    : (collectFiles nodes).map (fun entry => (entry.path, entry.retained))
      = (items nodes).filter fun item => !item.2.isFolder := by
  induction nodes using nodes_induct with
  | nil => rfl
  | file entry rest ih =>
      rw [collectFiles, filesOf, items, file_items, List.map_append, ih, List.filter_append]
      rfl
  | folder head children rest below ih =>
      rw [collectFiles, filesOf, items, folder_items, List.map_append, below, ih,
        List.filter_append]
      rfl

theorem countFiles_eq (nodes : List WorkFolderNode)
    : countFiles nodes = (collectFiles nodes).length := by
  induction nodes using nodes_induct with
  | nil => rfl
  | file entry rest ih =>
      rw [countFiles, filesIn, collectFiles, filesOf, List.length_append, ih]
      rfl
  | folder head children rest below ih =>
      rw [countFiles, filesIn, collectFiles, filesOf, List.length_append, below, ih]

/-- A tree in order that shows an index, by everything that can be asked of it. -/
structure Displays (folder : WorkFolder) (index : PathIndex) : Prop where
  levels : Settled folder.sortOrder folder.root folder.children
  entry : ∀ path kept, (folder.entryForPath path).map WorkFolderEntry.retained = some kept
    ↔ index path = some kept ∧ kept.isFolder = false
  entries : (folder.entries.map WorkFolderEntry.path).Nodup
    ∧ ∀ path kept, (∃ entry ∈ folder.entries, entry.path = path ∧ entry.retained = kept)
      ↔ index path = some kept ∧ kept.isFolder = false
  count : folder.len = folder.entries.length
  known : ∀ path, (folder.childrenAt path).isSome = true
    ↔ path = folder.root ∨ index.isFolder path = true
  children : ∀ path nodes, folder.childrenAt path = some nodes
    → nodes.Pairwise (Before folder.sortOrder)
      ∧ ∀ item, (∃ node ∈ nodes, node.item = item)
        ↔ (∃ name, item.1 = path ++ [.normal name]) ∧ index item.1 = some item.2

variable {folder : WorkFolder} {index : PathIndex}

theorem Represents.files (represents : folder.Represents index) (path : Path) (kept : Retained)
    : (∃ entry ∈ folder.entries, entry.path = path ∧ entry.retained = kept)
      ↔ index path = some kept ∧ kept.isFolder = false := by
  have listed : (path, kept) ∈ (items folder.children).filter (fun item => !item.2.isFolder)
      ↔ index path = some kept ∧ kept.isFolder = false := by
    rw [List.mem_filter, ← represents.shows, Bool.not_eq_true']
  rw [← listed, ← collectFiles_items, List.mem_map]
  refine exists_congr fun entry => and_congr_right fun _ => ?_
  exact ⟨fun ⟨same, is⟩ => Prod.ext same is, fun is =>
    ⟨congrArg Prod.fst is, congrArg Prod.snd is⟩⟩

theorem Represents.level (represents : folder.Represents index) {path : Path}
    {nodes : List WorkFolderNode} (settled : Settled folder.sortOrder path nodes)
    (same : ∀ item, IsUnder path item.1
      → (item ∈ items folder.children ↔ item ∈ items nodes)) (item : Path × Retained)
    : (∃ node ∈ nodes, node.item = item)
      ↔ (∃ name, item.1 = path ++ [.normal name]) ∧ index item.1 = some item.2 := by
  constructor
  · rintro ⟨node, among, rfl⟩
    obtain ⟨name, is⟩ := (settled.placed node among).path
    have here : node.item.1 = path ++ [.normal name] := (item_path node).trans is
    refine ⟨⟨name, here⟩, (represents.shows _ _).mpr ((same _ ⟨name, [], here⟩).mpr ?_)⟩
    exact mem_items.mpr ⟨node, among, item_mem node⟩
  · rintro ⟨⟨name, here⟩, known⟩
    have present := (same item ⟨name, [], here⟩).mp ((represents.shows _ _).mp known)
    have split : item = (path ++ [.normal name], item.2) := Prod.ext here rfl
    obtain ⟨node, among, is⟩ := settled.node_of_item (split ▸ present)
    exact ⟨node, among, is.trans split.symm⟩

theorem Represents.entry (represents : folder.Represents index) (path : Path)
    (kept : Retained)
    : (folder.entryForPath path).map WorkFolderEntry.retained = some kept
      ↔ index path = some kept ∧ kept.isFolder = false := by
  rw [represents.shows]
  unfold entryForPath
  cases found : findFile path folder.children with
  | none =>
      refine ⟨fun is => (Option.some_ne_none _ is.symm).elim, fun ⟨present, file⟩ => ?_⟩
      exact absurd (findFile_none found present) (by rw [file]; exact Bool.false_ne_true)
  | some entry =>
      have present := findFile_some found
      rw [Option.map_some, Option.some_inj]
      constructor
      · rintro rfl
        exact ⟨present, rfl⟩
      · rintro ⟨present', _⟩
        exact represents.settled.unique present present'

theorem Represents.known (represents : folder.Represents index) (path : Path)
    : (folder.childrenAt path).isSome = true
      ↔ path = folder.root ∨ index.isFolder path = true := by
  unfold childrenAt
  split
  case isTrue root => exact ⟨fun _ => .inl root, fun _ => rfl⟩
  case isFalse apart =>
    rw [represents.isFolder_iff]
    cases found : findFolder path folder.children with
    | none =>
        refine ⟨fun is => absurd is Bool.false_ne_true, fun known => ?_⟩
        obtain ⟨kept, present, isFolder⟩ := known.resolve_left apart
        exact absurd ((findFolder_none found).2 kept present)
          (by rw [isFolder]; exact Bool.noConfusion)
    | some result =>
        exact ⟨fun _ => .inr ⟨_, (findFolder_some found).2.1, rfl⟩, fun _ => rfl⟩

theorem Represents.children (represents : folder.Represents index) {path : Path}
    {nodes : List WorkFolderNode} (found : folder.childrenAt path = some nodes)
    : nodes.Pairwise (Before folder.sortOrder)
      ∧ ∀ item, (∃ node ∈ nodes, node.item = item)
        ↔ (∃ name, item.1 = path ++ [.normal name]) ∧ index item.1 = some item.2 := by
  unfold childrenAt at found
  split at found
  case isTrue root =>
    cases found
    subst root
    exact ⟨represents.settled.sorted,
      represents.level represents.settled fun _ _ => Iff.rfl⟩
  case isFalse =>
    obtain ⟨⟨head, level⟩, first, is⟩ := Option.map_eq_some_iff.mp found
    cases is
    obtain ⟨_, _, changes⟩ := findFolder_some first
    obtain ⟨after, _, exchanges⟩ := changes folder.root id
    have exchanged := exchanges.exchanged represents.settled
    exact ⟨exchanged.settled.sorted, represents.level exchanged.settled fun _ under =>
      (exchanged.mem_under under).1⟩

theorem Represents.displays (represents : folder.Represents index) : folder.Displays index where
  levels := represents.settled
  entry := represents.entry
  entries := by
    refine ⟨?_, represents.files⟩
    have paths : folder.entries.map WorkFolderEntry.path
        = ((items folder.children).filter fun item => !item.2.isFolder).map Prod.fst := by
      rw [← collectFiles_items, List.map_map]
      rfl
    rw [paths]
    exact represents.settled.nodup.sublist (List.filter_sublist.map _)
  count := countFiles_eq folder.children
  known := represents.known
  children _ _ found := represents.children found

/-- A scan, and what was called on it since. -/
inductive Reached : WorkFolder → Prop where
  | run {root : Path} {items : List DiskItem} {folder : WorkFolder} {calls : List WorkFolderCall}
      : Listed items
        → scan root items = some folder
        → folder.index.AllPossible root calls
        → Reached (folder.runs calls)

theorem Reached.represents (reached : folder.Reached) : folder.Represents folder.index := by
  obtain ⟨listed, scanned, possible⟩ := reached
  obtain ⟨root, settled⟩ := scan_settled listed scanned
  rw [← root] at possible
  exact represents_index ((represents_index settled).runs possible).1.settled

/-- From any scan, whatever is called that a filesystem could follow: every level stays in order,
every node lies directly in its folder under its own name, no path occurs twice, and everything
that can be asked of the tree is what the flat index says that the calls lead to.
-/
theorem runs_displayed {root : Path} {items : List DiskItem} {folder : WorkFolder}
    {calls : List WorkFolderCall} (listed : Listed items) (scanned : scan root items = some folder)
    (possible : folder.index.AllPossible root calls)
    : (folder.runs calls).root = root
      ∧ (folder.runs calls).Displays (folder.index.runs root calls) := by
  obtain ⟨sameRoot, settled⟩ := scan_settled listed scanned
  rw [← sameRoot] at possible ⊢
  obtain ⟨shown, same⟩ := (represents_index settled).runs possible
  exact ⟨same, shown.displays⟩

/-- A listing of one file beside a folder with another one. -/
def sampleListing : List DiskItem :=
  [.file "b.md" (some 5) 0, .dir "a" (some 7) 1 [.file "n.md" none 2], .file "b.txt" none 3]

def sampleRoot : Path := [.rootDir, .normal "r"]

def sampleFolder : WorkFolder := (scan sampleRoot sampleListing).getD ⟨[], [], .updatedNewest⟩

theorem sampleListed : Listed sampleListing := by
  refine .level (by decide) fun name modified sequence inner present => ?_
  simp only [sampleListing, List.mem_cons, List.not_mem_nil, or_false, reduceCtorEq, false_or,
    DiskItem.dir.injEq] at present
  obtain ⟨_, _, _, rfl⟩ := present
  refine .level (by decide) fun name modified sequence inner present => ?_
  simp at present

theorem sampleScanned : scan sampleRoot sampleListing = some sampleFolder := by
  have made : (scan sampleRoot sampleListing).isSome = true := by decide +kernel
  obtain ⟨folder, is⟩ := Option.isSome_iff_exists.mp made
  rw [sampleFolder, is]
  rfl

def sampleMove : WorkFolderCall :=
  .renameFolder (sampleRoot ++ [.normal "a"]) (sampleRoot ++ [.normal "c"])

def sampleFile : Path := sampleRoot ++ [.normal "c", .normal "x.md"]

/-- The folder moves, and a file is put into it. -/
def sampleCalls : List WorkFolderCall := [sampleMove, .insert sampleFile]

theorem runs_displayed_moved
    : (sampleFolder.runs sampleCalls).entries.map WorkFolderEntry.path
        = [sampleRoot ++ [.normal "c", .normal "n.md"], sampleFile, sampleRoot ++ [.normal "b.md"]]
      ∧ (sampleFolder.runs sampleCalls).Displays
        (sampleFolder.index.runs sampleRoot sampleCalls) := by
  refine ⟨by decide +kernel, (runs_displayed sampleListed sampleScanned ?_).2⟩
  refine ⟨fun _ parent above _ => ?_, fun _ _ _ => ⟨⟨"c", ["x.md"], rfl⟩, ?_, ?_⟩, trivial⟩
  · cases above
    exact ⟨⟨"c", rfl⟩, by decide +kernel⟩
  · decide +kernel
  · intro other through apart
    have above : ∀ other ∈ sampleFile.inits, other ≠ sampleFile
        → (WorkFolderCall.shift sampleRoot sampleFolder.index sampleMove).isFile other = false := by
      decide +kernel
    exact above other ((List.mem_inits _ _).mpr through) apart

theorem Represents.unique {other : WorkFolder} (represents : folder.Represents index)
    (represents' : other.Represents index) (root : folder.root = other.root)
    (order : folder.sortOrder = other.sortOrder) : folder = other := by
  obtain ⟨settled, shows⟩ := represents
  obtain ⟨settled', shows'⟩ := represents'
  rw [← order, ← root] at settled'
  have children : folder.children = other.children :=
    settled_unique settled settled' fun item => (shows _ _).symm.trans (shows' _ _)
  cases folder
  cases other
  cases root
  cases order
  cases children
  rfl

/-- Two trees with one root, one sort order and one index are one tree, whatever was scanned and
called for either of them.
-/
theorem index_injective {other : WorkFolder} (reached : folder.Reached)
    (reached' : other.Reached) (root : folder.root = other.root)
    (order : folder.sortOrder = other.sortOrder) (same : folder.index = other.index)
    : folder = other :=
  reached.represents.unique (same ▸ reached'.represents) root order

theorem sampleReached (calls : List WorkFolderCall)
    (possible : sampleFolder.index.AllPossible sampleRoot calls)
    : (sampleFolder.runs calls).Reached :=
  .run sampleListed sampleScanned possible

/-- A sort order that is set and set back. -/
def sampleOrders : List WorkFolderCall :=
  [.setSortOrder .nameDescending, .setSortOrder .updatedNewest]

theorem index_injective_orders : sampleFolder.runs sampleOrders = sampleFolder := by
  have possible : sampleFolder.index.AllPossible sampleRoot sampleOrders :=
    ⟨trivial, trivial, trivial⟩
  have start := sampleReached [] trivial
  have shown := (start.represents.runs possible).1.index_eq
  exact index_injective (sampleReached sampleOrders possible) start (by decide +kernel)
    (by decide +kernel) shown.symm

-- Reads that come in late

/-- A time that was read of a path, with the number it was given. -/
structure TimeRead where
  path : Path
  modified : Option Int
  sequence : Nat
  deriving DecidableEq

def TimeRead.call (read : TimeRead) : WorkFolderCall :=
  .touch read.path read.modified read.sequence

theorem stamped_comm (kept : Retained) {first second : TimeRead}
    (apart : first.sequence ≠ second.sequence)
    : (kept.stamped first.modified (some first.sequence)).stamped second.modified
          (some second.sequence)
      = (kept.stamped second.modified (some second.sequence)).stamped first.modified
          (some first.sequence) := by
  obtain ⟨isFolder, modified, sequence⟩ := kept
  cases sequence with
  | none => grind [Retained.stamped, isStale]
  | some sequence => grind [Retained.stamped, isStale]

theorem stamp_comm (index : PathIndex) {first second : TimeRead}
    (apart : first.path = second.path → first.sequence ≠ second.sequence)
    : (index.stamp first.path first.modified (some first.sequence)).stamp second.path
          second.modified (some second.sequence)
      = (index.stamp second.path second.modified (some second.sequence)).stamp first.path
          first.modified (some first.sequence) := by
  funext other
  unfold PathIndex.stamp
  by_cases same : first.path = second.path
  · by_cases here : other = second.path
    · simp only [here, same, if_true, Option.map_map]
      refine congrFun (congrArg Option.map (funext fun kept => ?_)) _
      exact stamped_comm kept (apart same)
    · simp only [here, same, if_false]
  · by_cases here : other = second.path
    · have away : second.path ≠ first.path := Ne.symm same
      simp only [here, away, if_true, if_false]
    · simp only [here, same, if_false]

theorem touches_possible (root : Path) (index : PathIndex) (reads : List TimeRead)
    : index.AllPossible root (reads.map TimeRead.call) := by
  induction reads generalizing index with
  | nil => trivial
  | cons read rest ih => exact ⟨trivial, ih _⟩

theorem touches_order (folder : WorkFolder) (reads : List TimeRead)
    : (folder.runs (reads.map TimeRead.call)).sortOrder = folder.sortOrder := by
  induction reads generalizing folder with
  | nil => rfl
  | cons read rest ih =>
      refine (ih _).trans ?_
      change (folder.stamp read.path read.modified (some read.sequence)).sortOrder = _
      unfold stamp
      split <;> rfl

/-- What a node retains after reads: what it had, where every read of it is stale, or the newest
read.
-/
def Newest (path : Path) (kept kept' : Retained) (reads : List TimeRead) : Prop :=
  kept' = kept ∧ (∀ read ∈ reads, read.path = path
      → isStale kept.sequence (some read.sequence) = true)
    ∨ ∃ read ∈ reads, read.path = path
      ∧ isStale kept.sequence (some read.sequence) = false
      ∧ kept' = ⟨kept.isFolder, read.modified, some read.sequence⟩
      ∧ ∀ other ∈ reads, other.path = path → other.sequence ≤ read.sequence

theorem isStale_iff {retained : Option Nat} {sequence : Nat}
    : isStale retained (some sequence) = true
      ↔ ∃ number, retained = some number ∧ sequence ≤ number := by
  cases retained with
  | none => simp [isStale]
  | some number => simp [isStale]

theorem isStale_le {retained : Option Nat} {older newer : Nat} (later : older ≤ newer)
    (fresh : isStale retained (some older) = false) : isStale retained (some newer) = false := by
  refine Bool.eq_false_iff.mpr fun stale => ?_
  obtain ⟨number, is, small⟩ := isStale_iff.mp stale
  rw [isStale_iff.mpr ⟨number, is, later.trans small⟩] at fresh
  cases fresh

theorem touches_newest {root path : Path} {kept : Retained} (reads : List TimeRead)
    (known : index path = some kept)
    : ∃ kept', index.runs root (reads.map TimeRead.call) path = some kept'
      ∧ Newest path kept kept' reads := by
  induction reads generalizing index kept with
  | nil => exact ⟨kept, known, .inl ⟨rfl, fun _ among => absurd among List.not_mem_nil⟩⟩
  | cons read rest ih =>
      by_cases here : read.path = path
      · have step : (index.stamp read.path read.modified (some read.sequence)) path
            = some (kept.stamped read.modified (some read.sequence)) := by
          rw [PathIndex.stamp, if_pos here.symm, here, known, Option.map_some]
        obtain ⟨kept', after, newest⟩ := ih step
        refine ⟨kept', after, ?_⟩
        cases stale : isStale kept.sequence (some read.sequence) with
        | true =>
            rw [Retained.stamped, if_pos stale] at newest
            obtain ⟨number, is, small⟩ := isStale_iff.mp stale
            rcases newest with ⟨same, others⟩ | ⟨newer, among, at_path, fresh, same, last⟩
            · refine .inl ⟨same, fun other among at_path => ?_⟩
              rcases List.mem_cons.mp among with rfl | among
              · exact stale
              · exact others other among at_path
            · refine .inr ⟨newer, List.mem_cons_of_mem _ among, at_path, fresh, same, ?_⟩
              intro other among at_path
              rcases List.mem_cons.mp among with rfl | among
              · refine Nat.le_of_not_lt fun late => ?_
                rw [isStale_iff.mpr ⟨number, is, late.le.trans small⟩] at fresh
                cases fresh
              · exact last other among at_path
        | false =>
            rw [Retained.stamped, if_neg (by rw [stale]; exact Bool.false_ne_true)] at newest
            rcases newest with ⟨same, others⟩ | ⟨newer, among, at_path, fresh, same, last⟩
            · refine .inr ⟨read, List.mem_cons_self, here, stale, same, ?_⟩
              intro other among at_path
              rcases List.mem_cons.mp among with rfl | among
              · exact Nat.le_refl _
              · obtain ⟨number, is, small⟩ := isStale_iff.mp (others other among at_path)
                cases is
                exact small
            · have later : read.sequence ≤ newer.sequence := by
                refine Nat.le_of_not_lt fun early => ?_
                rw [isStale_iff.mpr ⟨_, rfl, early.le⟩] at fresh
                cases fresh
              refine .inr ⟨newer, List.mem_cons_of_mem _ among, at_path, isStale_le later stale,
                same, ?_⟩
              intro other among at_path
              rcases List.mem_cons.mp among with rfl | among
              · exact later
              · exact last other among at_path
      · have step : (index.stamp read.path read.modified (some read.sequence)) path
            = some kept := by
          rw [PathIndex.stamp, if_neg (Ne.symm here), known]
        obtain ⟨kept', after, newest⟩ := ih step
        refine ⟨kept', after, ?_⟩
        rcases newest with ⟨same, stale⟩ | ⟨newer, among, at_path, fresh, is, last⟩
        · refine .inl ⟨same, fun other among at_path => ?_⟩
          rcases List.mem_cons.mp among with rfl | among
          · exact absurd at_path here
          · exact stale other among at_path
        · refine .inr ⟨newer, List.mem_cons_of_mem _ among, at_path, fresh, is, ?_⟩
          intro other among at_path
          rcases List.mem_cons.mp among with rfl | among
          · exact absurd at_path here
          · exact last other among at_path

/-- Reads that come in late: in whatever order they are delivered, the tree is the same, and each
node has the newest of them, or what it had where none is newer.
-/
theorem touches_any_order {reads reads' : List TimeRead} (reached : folder.Reached)
    (same : reads.Perm reads')
    (distinct : ∀ first ∈ reads, ∀ second ∈ reads, first.path = second.path
      → first.sequence = second.sequence → first = second)
    : folder.runs (reads.map TimeRead.call) = folder.runs (reads'.map TimeRead.call)
      ∧ ∀ path kept, folder.index path = some kept
        → ∃ kept', (folder.runs (reads.map TimeRead.call)).index path = some kept'
          ∧ Newest path kept kept' reads := by
  have represents := reached.represents
  obtain ⟨shown, root⟩ :=
    represents.runs (touches_possible folder.root folder.index reads)
  obtain ⟨shown', root'⟩ :=
    represents.runs (touches_possible folder.root folder.index reads')
  have one_index : folder.index.runs folder.root (reads.map TimeRead.call)
      = folder.index.runs folder.root (reads'.map TimeRead.call) := by
    unfold PathIndex.runs
    rw [List.foldl_map, List.foldl_map]
    refine same.foldl_eq' (fun first among second among' index => ?_) folder.index
    by_cases equal : first = second
    · rw [equal]
    · exact stamp_comm index fun at_path number =>
        equal (distinct first among second among' at_path number)
  refine ⟨shown.unique (one_index ▸ shown') (root.trans root'.symm) ?_, fun path kept known => ?_⟩
  · rw [touches_order, touches_order]
  · rw [← shown.index_eq]
    exact touches_newest reads known

/-- A later read that finds an earlier time. -/
def sampleReads : List TimeRead :=
  [⟨sampleRoot ++ [.normal "b.md"], some 9, 10⟩, ⟨sampleRoot ++ [.normal "b.md"], some 1, 11⟩]

theorem touches_any_order_turned
    : sampleFolder.runs (sampleReads.map TimeRead.call)
      = sampleFolder.runs (sampleReads.reverse.map TimeRead.call) :=
  (touches_any_order (sampleReached [] trivial) (List.reverse_perm sampleReads).symm
    (by decide +kernel)).1

end WorkFolder

end Hane.Session
