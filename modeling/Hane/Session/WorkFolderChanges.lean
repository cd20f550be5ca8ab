import Hane.Session.WorkFolderLevels

/-! What the changes to a work folder do to its items, and that they leave every level in order: times
that are read, nodes that are put in with the missing folders above them, and folders that are moved
with everything in them.
-/

namespace Hane.Session

variable {order : WorkFolderSortOrder} {dir path : Path} {nodes after : List WorkFolderNode}

-- Changing one level

def WorkFolderNode.item (node : WorkFolderNode) : Path × Retained :=
  match node with
  | .file entry => (entry.path, entry.retained)
  | .folder head _ => (head.path, head.retained)

theorem item_mem (node : WorkFolderNode) : node.item ∈ node.items := by
  cases node with
  | file entry => rw [file_items]; exact List.mem_cons_self
  | folder head children => rw [folder_items]; exact List.mem_cons_self

section Changing

variable {Found : Type} {change : List WorkFolderNode → Option (Found × List WorkFolderNode)}
  {found : Found}

theorem changeBelow_exchanges (dir : Path)
    (changed : changeBelow change nodes = some (found, after))
    : ∃ target level level', change level = some (found, level')
        ∧ Exchanges target level level' dir nodes after := by
  have deep : ∃ before head children children' rest,
      nodes = before ++ .folder head children :: rest
      ∧ after = before ++ .folder head children' :: rest
      ∧ ∃ target level level', change level = some (found, level')
        ∧ Exchanges target level level' head.path children children' := by
    induction nodes using nodes_induct generalizing after with
    | nil => cases changed
    | file entry rest ih =>
        rw [changeBelow, changeIn] at changed
        obtain ⟨⟨_, kept⟩, below, is⟩ := Option.map_eq_some_iff.mp changed
        cases is
        obtain ⟨before, head, children, children', behind, rfl, rfl, deep⟩ := ih below
        exact ⟨.file entry :: before, head, children, children', behind, rfl, rfl, deep⟩
    | folder head children rest below ih =>
        rw [changeBelow, changeIn] at changed
        cases here : (change children).or (changeBelow change children) with
        | none =>
            rw [here] at changed
            obtain ⟨⟨_, kept⟩, later, is⟩ := Option.map_eq_some_iff.mp changed
            cases is
            obtain ⟨before, other, inner, inner', behind, rfl, rfl, deep⟩ := ih later
            exact ⟨.folder head children :: before, other, inner, inner', behind, rfl, rfl, deep⟩
        | some result =>
            obtain ⟨_, kept⟩ := result
            rw [here] at changed
            cases changed
            refine ⟨[], head, children, kept, rest, rfl, rfl, ?_⟩
            rcases Option.or_eq_some_iff.mp here with direct | ⟨_, deeper⟩
            · exact ⟨head.path, children, kept, direct, .here⟩
            · obtain ⟨before, other, inner, inner', behind, rfl, rfl, target, level, level',
                changes, exchanges⟩ := below deeper
              exact ⟨target, level, level', changes, .deeper exchanges⟩
  obtain ⟨before, head, children, children', rest, rfl, rfl, target, level, level', changes,
    exchanges⟩ := deep
  exact ⟨target, level, level', changes, .deeper exchanges⟩

theorem changeLevel_exchanges (dir : Path)
    (changed : changeLevel change nodes = some (found, after))
    : ∃ target level level', change level = some (found, level')
        ∧ Exchanges target level level' dir nodes after := by
  rcases Option.or_eq_some_iff.mp changed with direct | ⟨_, deeper⟩
  · exact ⟨dir, nodes, after, direct, .here⟩
  · exact changeBelow_exchanges dir deeper

theorem changeLevel_none (wanted : Path × Retained → Bool)
    (refuses : ∀ level, change level = none → ∀ node ∈ level, wanted node.item = false)
    (unchanged : changeLevel change nodes = none) {item : Path × Retained}
    (present : item ∈ items nodes) : wanted item = false := by
  obtain ⟨here, deeper⟩ := Option.or_eq_none_iff.mp unchanged
  have refused := refuses nodes here
  clear here unchanged
  induction nodes using nodes_induct with
  | nil => exact absurd present List.not_mem_nil
  | file entry rest ih =>
      rw [changeBelow, changeIn] at deeper
      rw [items, file_items] at present
      rcases List.mem_cons.mp present with rfl | present
      · exact refused _ List.mem_cons_self
      · exact ih present (Option.map_eq_none_iff.mp deeper) fun node among =>
          refused node (List.mem_cons_of_mem _ among)
  | folder head children rest below ih =>
      rw [changeBelow, changeIn] at deeper
      rw [items, folder_items] at present
      cases inner : (change children).or (changeBelow change children) with
      | some result =>
          obtain ⟨_, kept⟩ := result
          rw [inner] at deeper
          cases deeper
      | none =>
          rw [inner] at deeper
          obtain ⟨direct, inner⟩ := Option.or_eq_none_iff.mp inner
          rcases List.mem_cons.mp present with rfl | present
          · exact refused _ List.mem_cons_self
          · rcases List.mem_append.mp present with present | present
            · exact below present inner (refuses children direct)
            · exact ih present (Option.map_eq_none_iff.mp deeper) fun node among =>
                refused node (List.mem_cons_of_mem _ among)

end Changing

namespace Exchanged

variable {target : Path} {level level' : List WorkFolderNode}

theorem mem_under (exchanged : Exchanged order target level level' dir nodes after)
    {item : Path × Retained} (under : IsUnder target item.1)
    : (item ∈ items nodes ↔ item ∈ items level) ∧ (item ∈ items after ↔ item ∈ items level') := by
  obtain ⟨others, nodesPerm, afterPerm, apart⟩ := exchanged.others
  rw [nodesPerm.mem_iff, afterPerm.mem_iff, List.mem_append, List.mem_append]
  have absent : item ∉ others := fun among => apart item among under
  exact ⟨⟨fun present => present.resolve_right absent, .inl⟩,
    ⟨fun present => present.resolve_right absent, .inl⟩⟩

end Exchanged

/-- A path below a directory that lies at or below a name in a directory further down lies below
that directory.
-/
theorem IsUnder.within {target : Path} {name : String} (under : IsUnder dir path)
    (reached : dir <+: target) (through : target ++ [.normal name] <+: path)
    : IsUnder target path := by
  obtain ⟨first, names, rfl⟩ := under
  obtain ⟨between, rfl⟩ := reached
  obtain ⟨behind, same⟩ := through
  simp only [List.append_assoc, List.append_cancel_left_eq, ← List.map_cons] at same
  obtain ⟨_, second, _, _, split⟩ := List.map_eq_append_iff.mp same.symm
  obtain ⟨_, rest, rfl, _, rfl⟩ := List.map_eq_append_iff.mp split
  refine ⟨name, rest, ?_⟩
  rw [← List.map_cons, ← same]
  simp

-- Taking a node out

theorem takeNode_some {wanted : WorkFolderNode → Bool} {node : WorkFolderNode}
    (taken : takeNode wanted nodes = some (node, after))
    : wanted node = true
      ∧ ∃ before rest, nodes = before ++ node :: rest ∧ after = before ++ rest := by
  obtain ⟨_, first, is⟩ := Option.map_eq_some_iff.mp taken
  cases is
  induction nodes with
  | nil => cases first
  | cons head rest ih =>
      by_cases here : wanted head = true
      · rw [List.find?_cons_of_pos here] at first
        cases first
        exact ⟨here, [], rest, rfl, List.eraseP_cons_of_pos here⟩
      · rw [List.find?_cons_of_neg here] at first
        obtain ⟨is, before, behind, rfl, kept⟩ := ih first (by rw [takeNode, first]; rfl)
        refine ⟨is, head :: before, behind, rfl, ?_⟩
        rw [List.eraseP_cons_of_neg here, kept, List.cons_append]

theorem takeNode_none {wanted : WorkFolderNode → Bool} (untaken : takeNode wanted nodes = none)
    : ∀ node ∈ nodes, wanted node = false := by
  intro node present
  have none := Option.map_eq_none_iff.mp untaken
  simpa using List.find?_eq_none.mp none node present

theorem removed_spec {wanted : WorkFolderNode → Bool} {node : WorkFolderNode}
    (settled : Settled order dir nodes)
    (removed : changeLevel (takeNode wanted) nodes = some (node, after))
    : wanted node = true
      ∧ Settled order dir after
      ∧ (∃ parent, node.In order parent)
      ∧ (∀ item, item ∈ items after ↔ item ∈ items nodes ∧ ¬ node.path <+: item.1)
      ∧ ∀ item, item ∈ node.items ↔ item ∈ items nodes ∧ node.path <+: item.1 := by
  obtain ⟨target, level, level', taken, exchanges⟩ := changeLevel_exchanges dir removed
  obtain ⟨is, before, rest, rfl, rfl⟩ := takeNode_some taken
  have exchanged := exchanges.exchanged settled
  have inner := exchanged.settled
  have here : node ∈ before ++ node :: rest := List.mem_append_right _ List.mem_cons_self
  have placed := inner.placed node here
  have part : (before ++ rest).Sublist (before ++ node :: rest) :=
    (List.sublist_cons_self _ _).append_left _
  have resettled := exchanged.kept (inner.sublist part)
  obtain ⟨others, nodesPerm, afterPerm, apart⟩ := exchanged.others
  have split : (items nodes).Perm (node.items ++ items after) := by
    refine List.perm_iff_count.mpr fun item => ?_
    have first := nodesPerm.count_eq item
    have second := afterPerm.count_eq item
    rw [items_append, items] at first
    rw [items_append] at second
    simp only [List.count_append] at first second ⊢
    omega
  have outside : ∀ item ∈ items after, ¬ node.path <+: item.1 := by
    intro item present through
    obtain ⟨name, is⟩ := placed.path
    have under : IsUnder target item.1 :=
      (resettled.isUnder present).within exchanged.reached (is ▸ through)
    obtain ⟨sibling, among, inside⟩ := mem_items.mp ((exchanged.mem_under under).2.mp present)
    have beside := inner.placed sibling (part.subset among)
    have same := beside.path_eq placed (beside.isPrefix inside) through
    have distinct := (List.perm_middle.map WorkFolderNode.path).nodup_iff.mp
      (path_nodup inner.sorted)
    exact (List.nodup_cons.mp distinct).1 (List.mem_map.mpr ⟨sibling, among, same⟩)
  refine ⟨is, resettled, ⟨target, placed⟩, fun item => ?_, fun item => ?_⟩
  · rw [split.mem_iff, List.mem_append]
    constructor
    · intro present
      exact ⟨.inr present, outside item present⟩
    · rintro ⟨present, apart⟩
      exact present.resolve_left fun inside => apart (placed.isPrefix inside)
  · rw [split.mem_iff, List.mem_append]
    constructor
    · intro present
      exact ⟨.inl present, placed.isPrefix present⟩
    · rintro ⟨present, through⟩
      exact present.resolve_right fun kept => outside item kept through

-- Setting a time

/-- What is retained once a read has come in. -/
def Retained.stamped (retained : Retained) (modified : Option Int) (sequence : Option Nat)
    : Retained :=
  if isStale retained.sequence sequence then retained
  else ⟨retained.isFolder, modified, sequence⟩

theorem find_replaced {node : WorkFolderNode} (change : WorkFolderNode → WorkFolderNode)
    (found : nodes.find? (·.path = path) = some node)
    : node.path = path ∧ ∃ before rest, nodes = before ++ node :: rest
        ∧ nodes.replaceF (fun other => if other.path = path then some (change other) else none)
          = before ++ change node :: rest := by
  induction nodes with
  | nil => cases found
  | cons head rest ih =>
      by_cases here : head.path = path
      · rw [List.find?_cons_of_pos (by simpa using here)] at found
        cases found
        exact ⟨here, [], rest, rfl, by rw [List.replaceF, if_pos here]; rfl⟩
      · rw [List.find?_cons_of_neg (by simpa using here)] at found
        obtain ⟨is, before, behind, rfl, replaced⟩ := ih found
        refine ⟨is, head :: before, behind, rfl, ?_⟩
        rw [List.replaceF, if_neg here]
        exact congrArg (head :: ·) replaced

theorem withModified_path (node : WorkFolderNode) (modified : Option Int) (sequence : Option Nat)
    : (node.withModified modified sequence).path = node.path := by
  cases node <;> rfl

theorem withModified_in {node : WorkFolderNode} (inside : node.In order dir)
    (modified : Option Int) (sequence : Option Nat)
    : (node.withModified modified sequence).In order dir := by
  cases node with
  | file entry =>
      obtain ⟨name, is⟩ := inside
      exact ⟨name, congrArg
        (fun entry : WorkFolderEntry => { entry with modified, modifiedSeq := sequence }) is⟩
  | folder head children =>
      obtain ⟨⟨name, is⟩, below⟩ := inside
      exact ⟨⟨name, congrArg
        (fun head : WorkFolderFolder => { head with modified, modifiedSeq := sequence }) is⟩, below⟩

theorem withModified_items (node : WorkFolderNode) (modified : Option Int)
    (sequence : Option Nat)
    : ∃ inner, node.items = node.item :: inner
        ∧ (node.withModified modified sequence).items
          = (node.path, ⟨node.item.2.isFolder, modified, sequence⟩) :: inner := by
  cases node with
  | file entry => exact ⟨[], file_items _, file_items _⟩
  | folder head children => exact ⟨items children, folder_items _ _, folder_items _ _⟩

theorem item_path (node : WorkFolderNode) : node.item.1 = node.path := by
  cases node <;> rfl

theorem item_sequence (node : WorkFolderNode) : node.item.2.sequence = node.modifiedSeq := by
  cases node <;> rfl

theorem setModified_none {modified : Option Int} {sequence : Option Nat}
    (unchanged : setModified nodes path modified sequence order = none) (retained : Retained)
    : (path, retained) ∉ items nodes := by
  intro present
  have refuses : ∀ level, setModifiedHere path modified sequence order level = none
      → ∀ node ∈ level, decide (node.item.1 = path) = false := by
    intro level refused node among
    have none := List.find?_eq_none.mp (Option.map_eq_none_iff.mp refused) node among
    simpa [item_path] using none
  simpa using changeLevel_none (fun item => decide (item.1 = path)) refuses unchanged
    present

/-- A read changes what is retained at its path, unless it is stale, and nothing else. -/
theorem setModified_some {modified : Option Int} {sequence : Option Nat}
    (settled : Settled order dir nodes)
    (changed : setModified nodes path modified sequence order = some ((), after))
    : Settled order dir after
      ∧ ∃ retained, (path, retained) ∈ items nodes
        ∧ ∀ item, item ∈ items after
          ↔ item ∈ items nodes ∧ item.1 ≠ path
            ∨ item = (path, retained.stamped modified sequence) := by
  obtain ⟨target, level, level', changes, exchanges⟩ :=
    changeLevel_exchanges dir changed
  have exchanged := exchanges.exchanged settled
  obtain ⟨others, nodesPerm, afterPerm, apart⟩ := exchanged.others
  obtain ⟨node, found, is⟩ := Option.map_eq_some_iff.mp changes
  obtain ⟨at_path, before, rest, split, replaced⟩ :=
    find_replaced (WorkFolderNode.withModified modified sequence) found
  have inner := exchanged.settled
  have here : node ∈ level := split ▸ List.mem_append_right _ List.mem_cons_self
  have own : (path, node.item.2) ∈ items nodes := by
    refine nodesPerm.mem_iff.mpr (List.mem_append_left _ (mem_items.mpr ⟨node, here, ?_⟩))
    rw [← at_path, ← item_path]
    exact item_mem node
  rw [← item_sequence] at is
  by_cases stale : isStale node.item.2.sequence sequence = true
  · rw [if_pos stale] at is
    cases is
    refine ⟨exchanged.kept inner, node.item.2, own, fun item => ?_⟩
    rw [Retained.stamped, if_pos stale, (afterPerm.trans nodesPerm.symm).mem_iff]
    constructor
    · intro present
      by_cases at_item : item.1 = path
      · exact .inr (Prod.ext at_item (settled.unique (at_item ▸ present) own))
      · exact .inl ⟨present, at_item⟩
    · rintro (⟨present, _⟩ | rfl)
      · exact present
      · exact own
  · rw [if_neg stale] at is
    cases is
    rw [replaced] at afterPerm
    have distinct := path_nodup inner.sorted
    rw [split, List.map_append, List.map_cons] at distinct
    have resettled : Settled order target
        (sortNodes (before ++ node.withModified modified sequence :: rest) order) := by
      refine settled_sort ?_ fun other among => ?_
      · rw [List.map_append, List.map_cons, withModified_path]
        exact distinct
      · rcases List.mem_append.mp among with among | among
        · exact inner.placed other (split ▸ List.mem_append_left _ among)
        · rcases List.mem_cons.mp among with rfl | among
          · exact withModified_in (inner.placed node here) modified sequence
          · exact inner.placed other
              (split ▸ List.mem_append_right _ (List.mem_cons_of_mem _ among))
    refine ⟨exchanged.kept (replaced ▸ resettled), node.item.2, own, fun item => ?_⟩
    rw [Retained.stamped, if_neg stale]
    obtain ⟨within, first, second⟩ := withModified_items node modified sequence
    have afterPerm := afterPerm.trans ((items_sortNodes _).append_right others)
    have nodesPerm : (items nodes).Perm
        (node.item :: (items before ++ within ++ items rest ++ others)) := by
      refine nodesPerm.trans (List.perm_iff_count.mpr fun item => ?_)
      rw [split, items_append, items, first]
      simp only [List.count_append, List.count_cons]
      omega
    have afterPerm : (items after).Perm
        ((path, ⟨node.item.2.isFolder, modified, sequence⟩)
          :: (items before ++ within ++ items rest ++ others)) := by
      refine afterPerm.trans (List.perm_iff_count.mpr fun item => ?_)
      rw [items_append, items, second, at_path]
      simp only [List.count_append, List.count_cons]
      omega
    have apart := (List.nodup_cons.mp ((nodesPerm.map Prod.fst).nodup_iff.mp settled.nodup)).1
    rw [item_path, at_path] at apart
    rw [afterPerm.mem_iff, nodesPerm.mem_iff, List.mem_cons, List.mem_cons]
    constructor
    · rintro (is | present)
      · exact .inr is
      · exact .inl ⟨.inr present, fun same => apart (List.mem_map.mpr ⟨item, present, same⟩)⟩
    · rintro (⟨rfl | present, other⟩ | is)
      · exact absurd ((item_path node).trans at_path) other
      · exact .inr present
      · exact .inl is

-- Adding a node to a level

theorem join_normal (dir : Path) (name : String)
    : dir.join [.normal name] = dir ++ [.normal name] := by
  cases dir <;> rfl

theorem entry_in (dir : Path) (name : String)
    : (WorkFolderEntry.new (dir ++ [.normal name])).In dir :=
  ⟨name, rfl⟩

theorem folder_in (dir : Path) (name : String) (modified : Option Int)
    : (WorkFolderFolder.new (dir ++ [.normal name]) modified).In dir :=
  ⟨name, rfl⟩

theorem added_settled {node : WorkFolderNode} (settled : Settled order dir nodes)
    (placed : node.In order dir) (free : ∀ retained, (node.path, retained) ∉ items nodes)
    : Settled order dir (sortNodes (nodes ++ [node]) order) := by
  refine settled_sort ?_ fun other among => ?_
  · rw [List.map_append, List.map_singleton]
    refine List.nodup_append.mpr ⟨path_nodup settled.sorted, List.nodup_singleton _, ?_⟩
    intro here first there second
    rw [List.mem_singleton.mp second]
    rintro rfl
    obtain ⟨other, among, same⟩ := List.mem_map.mp first
    exact free other.item.2
      (mem_items.mpr ⟨other, among, by rw [← same, ← item_path]; exact item_mem other⟩)
  · rcases List.mem_append.mp among with among | among
    · exact settled.placed other among
    · rw [List.mem_singleton.mp among]
      exact placed

theorem mem_added {node : WorkFolderNode} {item : Path × Retained}
    : item ∈ items (sortNodes (nodes ++ [node]) order)
      ↔ item ∈ items nodes ∨ item ∈ node.items := by
  rw [(items_sortNodes _).mem_iff, items_append, List.mem_append, items, items, List.append_nil]

-- Missing folders

def Retained.folder : Retained := ⟨true, none, none⟩

def Retained.file : Retained := ⟨false, none, none⟩

theorem findIdx_split {wanted : WorkFolderNode → Bool} {index : Nat}
    (found : nodes.findIdx? wanted = some index)
    : ∃ before node rest, nodes = before ++ node :: rest ∧ before.length = index
        ∧ wanted node = true := by
  obtain ⟨inside, is, _⟩ := List.findIdx?_eq_some_iff_getElem.mp found
  refine ⟨nodes.take index, nodes[index], nodes.drop (index + 1), ?_, ?_, is⟩
  · rw [List.getElem_cons_drop, List.take_append_drop]
  · rw [List.length_take, Nat.min_eq_left (Nat.le_of_lt inside)]

theorem isFolderAt_cases {node : WorkFolderNode} (is : node.isFolderAt path = true)
    : ∃ head children, node = .folder head children ∧ head.path = path := by
  cases node with
  | file entry => cases is
  | folder head children => exact ⟨head, children, rfl, of_decide_eq_true is⟩

/-- A folder is there once its index was asked for. -/
theorem folderIndex_spec {name : String} (settled : Settled order dir nodes)
    (noFile : ∀ retained, (dir ++ [.normal name], retained) ∈ items nodes
      → retained.isFolder = true)
    : ∃ before head children rest,
        folderIndex nodes dir (.normal name) order
          = (some before.length, before ++ .folder head children :: rest)
        ∧ head.path = dir ++ [.normal name]
        ∧ Settled order dir (before ++ .folder head children :: rest)
        ∧ ∀ item, item ∈ items (before ++ .folder head children :: rest)
          ↔ item ∈ items nodes
            ∨ item = (dir ++ [.normal name], .folder)
              ∧ ∀ retained, (dir ++ [.normal name], retained) ∉ items nodes := by
  unfold folderIndex
  dsimp only
  rw [join_normal]
  split
  case h_1 index found =>
    obtain ⟨before, node, rest, rfl, rfl, is⟩ := findIdx_split found
    obtain ⟨head, children, rfl, at_path⟩ := isFolderAt_cases is
    refine ⟨before, head, children, rest, rfl, at_path, settled, fun item => ?_⟩
    refine ⟨.inl, fun present => present.elim id fun ⟨_, free⟩ => ?_⟩
    refine absurd ?_ (free head.retained)
    rw [← at_path]
    exact mem_items.mpr ⟨_, List.mem_append_right _ List.mem_cons_self,
      item_mem (.folder head children)⟩
  case h_2 missing =>
    have free (retained : Retained) : (dir ++ [.normal name], retained) ∉ items nodes := by
      intro present
      have isFolder := noFile retained present
      obtain ⟨node, among, inside⟩ := mem_items.mp present
      have placed := settled.placed node among
      obtain ⟨other, is⟩ := placed.path
      have here := placed.isPrefix inside
      rw [is] at here
      have same := IsUnder.disjoint here (List.prefix_refl (dir ++ [.normal name]))
      have at_path : node.path = dir ++ [.normal name] := is.trans (by rw [same])
      have wanted := List.findIdx?_eq_none_iff.mp missing node among
      cases node with
      | file entry =>
          rw [file_items] at inside
          have is : retained = entry.retained := congrArg Prod.snd (List.mem_singleton.mp inside)
          rw [is] at isFolder
          cases isFolder
      | folder head children => simp_all [WorkFolderNode.isFolderAt, WorkFolderNode.path]
    have made : (WorkFolderNode.folder (.new (dir ++ [.normal name]) none) []).In order dir :=
      ⟨folder_in dir name none, settled_nil _⟩
    have settled' := added_settled settled made free
    have present : WorkFolderNode.folder (.new (dir ++ [.normal name]) none) []
        ∈ sortNodes (nodes ++ [.folder (.new (dir ++ [.normal name]) none) []]) order :=
      mem_sortNodes.mpr (List.mem_append_right _ List.mem_cons_self)
    cases found : (sortNodes (nodes ++ [.folder (.new (dir ++ [.normal name]) none) []])
        order).findIdx? (·.isFolderAt (dir ++ [.normal name])) with
    | none =>
        have wanted := List.findIdx?_eq_none_iff.mp found _ present
        simp [WorkFolderNode.isFolderAt, WorkFolderFolder.new] at wanted
    | some index =>
        obtain ⟨before, node, rest, split, rfl, is⟩ := findIdx_split found
        obtain ⟨head, children, rfl, at_path⟩ := isFolderAt_cases is
        refine ⟨before, head, children, rest, by rw [← split], at_path, split ▸ settled', ?_⟩
        intro item
        rw [← split, mem_added, folder_items, items, List.mem_singleton]
        exact or_congr_right ⟨fun is => ⟨is, free⟩, And.left⟩

theorem inFolderAt_split {before rest children : List WorkFolderNode} {head : WorkFolderFolder}
    (change : WorkFolderFolder → List WorkFolderNode → List WorkFolderNode)
    : inFolderAt (some before.length) change (before ++ .folder head children :: rest)
      = before ++ .folder head (change head children) :: rest := by
  simp [inFolderAt]

/-- What is added by making a path: a folder where there is nothing yet. -/
def Missing (nodes : List WorkFolderNode) (path : Path) (item : Path × Retained) : Prop :=
  item = (path, .folder) ∧ ∀ retained, (path, retained) ∉ items nodes

theorem descend (name : String) (added : Path × Retained → Prop)
    (change : WorkFolderFolder → List WorkFolderNode → List WorkFolderNode)
    (settled : Settled order dir nodes)
    (noFile : ∀ retained, (dir ++ [.normal name], retained) ∈ items nodes
      → retained.isFolder = true)
    (inner : ∀ head children, head.path = dir ++ [.normal name]
      → Settled order (dir ++ [.normal name]) children
      → (∀ item, IsUnder (dir ++ [.normal name]) item.1
        → (item ∈ items children ↔ item ∈ items nodes))
      → Settled order (dir ++ [.normal name]) (change head children)
        ∧ ∀ item, item ∈ items (change head children) ↔ item ∈ items children ∨ added item)
    : let (index, made) := folderIndex nodes dir (.normal name) order
      Settled order dir (inFolderAt index change made)
      ∧ ∀ item, item ∈ items (inFolderAt index change made)
        ↔ item ∈ items nodes ∨ Missing nodes (dir ++ [.normal name]) item ∨ added item := by
  obtain ⟨before, head, children, rest, indexed, at_path, made, members⟩ :=
    folderIndex_spec settled noFile
  rw [indexed]
  dsimp only
  rw [inFolderAt_split]
  have exchanges : Exchanges head.path children (change head children) dir
      (before ++ .folder head children :: rest)
      (before ++ .folder head (change head children) :: rest) := .deeper .here
  have exchanged := exchanges.exchanged made
  have same (item : Path × Retained) (under : IsUnder (dir ++ [.normal name]) item.1)
      : item ∈ items children ↔ item ∈ items nodes := by
    rw [← (exchanged.mem_under (at_path ▸ under)).1, members]
    refine ⟨fun present => present.elim id fun ⟨is, _⟩ => absurd ?_ under.ne, .inl⟩
    exact congrArg Prod.fst is
  obtain ⟨changed, grown⟩ := inner head children at_path (at_path ▸ exchanged.settled) same
  refine ⟨exchanged.kept (at_path ▸ changed), fun item => ?_⟩
  obtain ⟨others, madePerm, afterPerm, _⟩ := exchanged.others
  rw [afterPerm.mem_iff, List.mem_append, grown, ← or_assoc, Missing, ← members,
    madePerm.mem_iff, List.mem_append]
  tauto

-- Inserting

/-- What is added by making a folder with all folders above it. -/
def MissingFolders (nodes : List WorkFolderNode) (dir path : Path) (item : Path × Retained)
    : Prop :=
  item.2 = .folder ∧ IsUnder dir item.1 ∧ item.1 <+: path
    ∧ ∀ retained, (item.1, retained) ∉ items nodes

theorem through_name (name : String) (names : List String) {other : Path}
    : IsUnder dir other ∧ other <+: dir ++ .normal name :: names.map .normal
      ↔ other = dir ++ [.normal name]
        ∨ IsUnder (dir ++ [.normal name]) other
          ∧ other <+: dir ++ [.normal name] ++ names.map .normal := by
  rw [List.append_assoc, List.singleton_append]
  constructor
  · rintro ⟨under, through⟩
    obtain ⟨first, rest, rfl⟩ := under
    have inner := (List.prefix_append_right_inj dir).mp through
    obtain ⟨is, inner⟩ := List.cons_prefix_cons.mp inner
    cases is
    cases rest with
    | nil => exact .inl rfl
    | cons second rest => exact .inr ⟨⟨second, rest, by simp⟩, through⟩
  · rintro (rfl | ⟨under, through⟩)
    · exact ⟨⟨name, [], rfl⟩, (List.prefix_append_right_inj dir).mpr (by simp)⟩
    · exact ⟨IsUnder.trans ⟨name, [], rfl⟩ under, through⟩

theorem missing_through {children : List WorkFolderNode} {name : String} (names : List String)
    (same : ∀ item : Path × Retained, IsUnder (dir ++ [.normal name]) item.1
      → (item ∈ items children ↔ item ∈ items nodes)) (item : Path × Retained)
    : MissingFolders nodes dir (dir ++ .normal name :: names.map .normal) item
      ↔ Missing nodes (dir ++ [.normal name]) item
        ∨ MissingFolders children (dir ++ [.normal name])
          (dir ++ [.normal name] ++ names.map .normal) item := by
  obtain ⟨other, retained⟩ := item
  unfold MissingFolders Missing
  constructor
  · rintro ⟨is, under, through, free⟩
    rcases (through_name name names).mp ⟨under, through⟩ with here | ⟨under, through⟩
    · exact .inl ⟨Prod.ext here is, here ▸ free⟩
    · exact .inr ⟨is, under, through, fun kept present =>
        free kept ((same (other, kept) under).mp present)⟩
  · rintro (⟨is, free⟩ | ⟨is, under, through, free⟩)
    · cases is
      have here := (through_name name names).mpr (.inl (Eq.refl (dir ++ [.normal name])))
      exact ⟨rfl, here.1, here.2, free⟩
    · have here := (through_name name names).mpr (.inr ⟨under, through⟩)
      exact ⟨is, here.1, here.2, fun kept present =>
        free kept ((same (other, kept) under).mpr present)⟩

theorem missing_last {name : String} (item : Path × Retained)
    : MissingFolders nodes dir (dir ++ [.normal name]) item
      ↔ Missing nodes (dir ++ [.normal name]) item := by
  obtain ⟨other, retained⟩ := item
  unfold MissingFolders Missing
  constructor
  · rintro ⟨is, under, through, free⟩
    rcases (through_name name []).mp ⟨under, through⟩ with here | ⟨under, through⟩
    · exact ⟨Prod.ext here is, here ▸ free⟩
    · rw [List.map_nil, List.append_nil] at through
      exact absurd (through.eq_of_length_le under.isPrefix.length_le) under.ne
  · rintro ⟨is, free⟩
    cases is
    exact ⟨rfl, ⟨name, [], rfl⟩, List.prefix_rfl, free⟩

/-- A folder is made with every folder above it, and nothing else changes. -/
theorem insertFolderAt_spec (name : String) (names : List String)
    (settled : Settled order dir nodes)
    (noFiles : ∀ other retained, (other, retained) ∈ items nodes
      → other <+: dir ++ .normal name :: names.map .normal → retained.isFolder = true)
    : Settled order dir (insertFolderAt order dir (.normal name :: names.map .normal) nodes)
      ∧ ∀ item,
        item ∈ items (insertFolderAt order dir (.normal name :: names.map .normal) nodes)
        ↔ item ∈ items nodes
          ∨ MissingFolders nodes dir (dir ++ .normal name :: names.map .normal) item := by
  induction names generalizing dir nodes name with
  | nil =>
      obtain ⟨before, head, children, rest, indexed, _, made, members⟩ :=
        folderIndex_spec settled fun retained present =>
          noFiles _ retained present List.prefix_rfl
      rw [List.map_nil, insertFolderAt, indexed]
      exact ⟨made, fun item => (members item).trans (or_congr_right (missing_last item).symm)⟩
  | cons second names ih =>
      rw [List.map_cons, insertFolderAt]
      have step := descend name
        (fun item => MissingFolders nodes (dir ++ [.normal name])
          (dir ++ [.normal name] ++ .normal second :: names.map .normal) item)
        (fun folder children =>
          insertFolderAt order folder.path (.normal second :: names.map .normal) children)
        settled (fun retained present => noFiles _ retained present
          ((List.prefix_append_right_inj dir).mpr (by simp))) ?_
      · refine ⟨step.1, fun item => (step.2 item).trans (or_congr_right ?_)⟩
        exact (missing_through (second :: names) (fun _ _ => Iff.rfl) item).symm
      · intro head children at_path inside same
        rw [at_path]
        obtain ⟨settled', grown⟩ := ih second inside fun other retained present through =>
          noFiles other retained ((same _ (inside.isUnder present)).mp present)
            (by simpa using through)
        refine ⟨settled', fun item => (grown item).trans (or_congr_right ?_)⟩
        unfold MissingFolders
        refine and_congr_right fun _ => and_congr_right fun under => and_congr_right fun _ => ?_
        exact forall_congr' fun retained => not_congr (same (item.1, retained) under)

/-- A file is put in place with every folder above it, and nothing else changes. -/
theorem insertFile_spec (name : String) (names : List String)
    (settled : Settled order dir nodes)
    (is : path = dir ++ .normal name :: names.map .normal)
    (noFiles : ∀ other retained, (other, retained) ∈ items nodes
      → other <+: path → retained.isFolder = true)
    (free : ∀ retained, (path, retained) ∉ items nodes)
    : Settled order dir (insertFile order path dir (.normal name :: names.map .normal) nodes)
      ∧ ∀ item,
        item ∈ items (insertFile order path dir (.normal name :: names.map .normal) nodes)
        ↔ item ∈ items nodes
          ∨ MissingFolders nodes dir path.dropLast item
          ∨ item = (path, .file) := by
  induction names generalizing dir nodes name with
  | nil =>
      rw [List.map_nil, insertFile]
      have placed : (WorkFolderNode.file (.new path)).In order dir := is ▸ entry_in dir name
      refine ⟨added_settled settled placed free, fun item => ?_⟩
      rw [mem_added, file_items, List.mem_singleton]
      refine or_congr_right ⟨.inr, fun present => present.resolve_left ?_⟩
      rintro ⟨_, under, through, _⟩
      rw [is, List.map_nil, List.dropLast_concat] at through
      exact under.ne (through.eq_of_length_le under.isPrefix.length_le)
  | cons second names ih =>
      rw [List.map_cons, insertFile]
      have shorter : path.dropLast
          = dir ++ .normal name :: (second :: names).dropLast.map .normal := by
        rw [is, List.map_dropLast, List.dropLast_append_of_ne_nil (List.cons_ne_nil _ _),
          List.map_cons]
        rfl
      have step := descend name
        (fun item => MissingFolders nodes (dir ++ [.normal name]) path.dropLast item
          ∨ item = (path, .file))
        (fun folder children =>
          insertFile order path folder.path (.normal second :: names.map .normal) children)
        settled (fun retained present => noFiles _ retained present
          (is ▸ (List.prefix_append_right_inj dir).mpr (by simp))) ?_
      · refine ⟨step.1, fun item => (step.2 item).trans (or_congr_right ?_)⟩
        rw [← or_assoc]
        refine or_congr_left ?_
        rw [shorter]
        rw [missing_through _ (fun _ _ => Iff.rfl) item]
        simp
      · intro head children at_path inside same
        rw [at_path]
        have behind : path = dir ++ [.normal name] ++ .normal second :: names.map .normal := by
          rw [is]
          simp
        obtain ⟨settled', grown⟩ := ih second inside behind
          (fun other retained present through =>
            noFiles other retained ((same _ (inside.isUnder present)).mp present) through)
          fun retained present => free retained ((same _ (inside.isUnder present)).mp present)
        refine ⟨settled', fun item => (grown item).trans (or_congr_right (or_congr_left ?_))⟩
        unfold MissingFolders
        refine and_congr_right fun _ => and_congr_right fun under => and_congr_right fun _ => ?_
        exact forall_congr' fun retained => not_congr (same (item.1, retained) under)

-- Finding

theorem findFolder_none (missing : findFolder path nodes = none)
    : (∀ change, findFolderMut path change nodes = none)
      ∧ ∀ retained, (path, retained) ∈ items nodes → retained.isFolder = false := by
  induction nodes using nodes_induct with
  | nil => exact ⟨fun _ => rfl, fun _ present => absurd present List.not_mem_nil⟩
  | file entry rest ih =>
      obtain ⟨unchanged, free⟩ := ih missing
      refine ⟨fun change => ?_, fun retained present => ?_⟩
      · rw [findFolderMut, folderInMut, unchanged]
        rfl
      · rw [items, file_items] at present
        rcases List.mem_cons.mp present with is | present
        · exact congrArg (fun item => item.2.isFolder) is
        · exact free retained present
  | folder head children rest below ih =>
      rw [findFolder, folderIn] at missing
      obtain ⟨here, missing⟩ := Option.or_eq_none_iff.mp missing
      by_cases at_path : head.path = path
      · rw [if_pos at_path] at here
        cases here
      · rw [if_neg at_path] at here
        obtain ⟨unchanged, free⟩ := ih missing
        obtain ⟨within, inner⟩ := below here
        refine ⟨fun change => ?_, fun retained present => ?_⟩
        · rw [findFolderMut, folderInMut, if_neg at_path, within, unchanged]
          rfl
        · rw [items, folder_items] at present
          rcases List.mem_cons.mp present with is | present
          · exact absurd (congrArg Prod.fst is).symm at_path
          · rcases List.mem_append.mp present with present | present
            · exact inner retained present
            · exact free retained present

theorem findFolder_some {head : WorkFolderFolder} {children : List WorkFolderNode}
    (found : findFolder path nodes = some (head, children))
    : head.path = path
      ∧ (path, head.retained) ∈ items nodes
      ∧ ∀ dir change, ∃ after, findFolderMut path change nodes = some after
        ∧ Exchanges path children (change children) dir nodes after := by
  have deep : head.path = path
      ∧ (path, head.retained) ∈ items nodes
      ∧ ∀ change, ∃ before other inner inner' rest,
        nodes = before ++ .folder other inner :: rest
        ∧ findFolderMut path change nodes = some (before ++ .folder other inner' :: rest)
        ∧ Exchanges path children (change children) other.path inner inner' := by
    induction nodes using nodes_induct with
    | nil => cases found
    | file entry rest ih =>
        obtain ⟨is, present, changes⟩ := ih found
        refine ⟨is, List.mem_append_right _ present, fun change => ?_⟩
        obtain ⟨before, other, inner, inner', behind, rfl, changed, exchanges⟩ := changes change
        refine ⟨.file entry :: before, other, inner, inner', behind, rfl, ?_, exchanges⟩
        rw [findFolderMut, folderInMut, changed]
        rfl
    | folder first nested rest below ih =>
        rw [findFolder, folderIn] at found
        rw [items, folder_items]
        simp only [findFolderMut, folderInMut]
        by_cases here : first.path = path
        · rw [if_pos here] at found
          cases found
          simp only [if_pos here]
          exact ⟨here, here ▸ List.mem_cons_self, fun change =>
            ⟨[], head, children, change children, rest, rfl, rfl, here ▸ .here⟩⟩
        · rw [if_neg here] at found
          simp only [if_neg here]
          cases within : findFolder path nested with
          | some result =>
              rw [within] at found
              cases found
              obtain ⟨is, present, changes⟩ := below within
              refine ⟨is, List.mem_append_left _ (List.mem_cons_of_mem _ present),
                fun change => ?_⟩
              obtain ⟨before, other, inner, inner', behind, rfl, changed, exchanges⟩ :=
                changes change
              refine ⟨[], first, _, before ++ .folder other inner' :: behind, rest, rfl, ?_,
                .deeper exchanges⟩
              rw [changed]
              rfl
          | none =>
              rw [within] at found
              obtain ⟨is, present, changes⟩ := ih found
              refine ⟨is, List.mem_append_right _ present, fun change => ?_⟩
              obtain ⟨before, other, inner, inner', behind, rfl, changed, exchanges⟩ :=
                changes change
              refine ⟨.folder first nested :: before, other, inner, inner', behind, rfl, ?_,
                exchanges⟩
              rw [(findFolder_none within).1, changed]
              rfl
  obtain ⟨is, present, changes⟩ := deep
  refine ⟨is, present, fun dir change => ?_⟩
  obtain ⟨before, other, inner, inner', rest, rfl, changed, exchanges⟩ := changes change
  exact ⟨_, changed, .deeper exchanges⟩

theorem findFile_some {entry : WorkFolderEntry} (found : findFile path nodes = some entry)
    : (path, entry.retained) ∈ items nodes := by
  induction nodes using nodes_induct with
  | nil => cases found
  | file other rest ih =>
      rw [items, file_items]
      rw [findFile, fileIn] at found
      by_cases here : other.path = path
      · rw [if_pos here] at found
        cases found
        exact here ▸ List.mem_cons_self
      · rw [if_neg here] at found
        exact List.mem_cons_of_mem _ (ih found)
  | folder head children rest below ih =>
      rw [items, folder_items]
      rw [findFile, fileIn] at found
      rcases Option.or_eq_some_iff.mp found with found | ⟨_, found⟩
      · exact List.mem_append_left _ (List.mem_cons_of_mem _ (below found))
      · exact List.mem_append_right _ (ih found)

theorem findFile_none (missing : findFile path nodes = none) {retained : Retained}
    (present : (path, retained) ∈ items nodes) : retained.isFolder = true := by
  induction nodes using nodes_induct with
  | nil => exact absurd present List.not_mem_nil
  | file other rest ih =>
      rw [findFile, fileIn] at missing
      rw [items, file_items] at present
      obtain ⟨here, missing⟩ := Option.or_eq_none_iff.mp missing
      rcases List.mem_cons.mp present with is | present
      · rw [if_pos (congrArg Prod.fst is).symm] at here
        cases here
      · exact ih missing present
  | folder head children rest below ih =>
      rw [findFile, fileIn] at missing
      rw [items, folder_items] at present
      obtain ⟨here, missing⟩ := Option.or_eq_none_iff.mp missing
      rcases List.mem_cons.mp present with is | present
      · exact congrArg (fun item => item.2.isFolder) is
      · rcases List.mem_append.mp present with present | present
        · exact below here present
        · exact ih missing present

-- Names

theorem fileName_concat (dir : Path) (name : String)
    : Path.fileName (dir ++ [.normal name]) = some name := by
  rw [Path.fileName, List.getLast?_concat]

/-- A node is displayed by the name it has in its directory. -/
theorem WorkFolderNode.In.sortKey {node : WorkFolderNode} (inside : node.In order dir)
    : node.path = dir ++ [.normal node.sortKey] := by
  cases node with
  | file entry =>
      obtain ⟨name, is⟩ := inside
      have key : entry.fileName = name := by
        rw [is, WorkFolderEntry.new, fileName_concat]
        rfl
      exact (congrArg WorkFolderEntry.path is).trans (by rw [WorkFolderNode.sortKey, key]; rfl)
  | folder head children =>
      obtain ⟨⟨name, is⟩, _⟩ := inside
      have key : head.name = name := by
        rw [is, WorkFolderFolder.new, fileName_concat]
        rfl
      exact (congrArg WorkFolderFolder.path is).trans (by rw [WorkFolderNode.sortKey, key]; rfl)

theorem names_eq {left right : WorkFolderNode} (apart : left.sortKey ≠ right.sortKey)
    : nameAscendingThenPath left right = compare left.sortKey right.sortKey := by
  unfold nameAscendingThenPath
  cases keys : compare left.sortKey right.sortKey with
  | eq => exact absurd (Std.LawfulEqOrd.eq_of_compare keys) apart
  | lt => rfl
  | gt => rfl

/-- Siblings with different names compare by what they show alone. -/
theorem compareNodes_congr {left right left' right' : WorkFolderNode}
    (apart : left.sortKey ≠ right.sortKey)
    (leftKey : left'.sortKey = left.sortKey) (rightKey : right'.sortKey = right.sortKey)
    (leftTime : left'.modified = left.modified) (rightTime : right'.modified = right.modified)
    : compareNodes left' right' order = compareNodes left right order := by
  have apart' : left'.sortKey ≠ right'.sortKey := by rwa [leftKey, rightKey]
  have times (newestFirst : Bool)
      : compareModified left' right' newestFirst = compareModified left right newestFirst := by
    rw [compareModified, compareModified, leftTime, rightTime]
  cases order
  · rw [compareNodes, compareNodes, times, names_eq apart, names_eq apart', leftKey, rightKey]
  · rw [compareNodes, compareNodes, times, names_eq apart, names_eq apart', leftKey, rightKey]
  · rw [compareNodes, compareNodes, names_eq apart, names_eq apart', leftKey, rightKey]
  · rw [compareNodes, compareNodes, names_eq apart.symm, names_eq apart'.symm, leftKey, rightKey]

-- Moving

variable {source target : Path}

theorem rebasePath_append (source target : Path) (names : List String)
    : rebasePath (source ++ names.map .normal) source target = target ++ names.map .normal := by
  have stripped : Path.stripPrefix source (source ++ names.map .normal)
      = some (names.map .normal) := by
    simp [Path.stripPrefix]
  rw [rebasePath, stripped]
  cases names with
  | nil => exact (List.append_nil target).symm
  | cons name names =>
      have plain : (Component.normal name :: names.map .normal).filter (· ≠ .curDir)
          = .normal name :: names.map .normal := by
        simp [List.filter_eq_self]
      cases target with
      | nil => rfl
      | cons first rest => exact congrArg (first :: rest ++ ·) plain

theorem rebaseNodes_eq (nodes : List WorkFolderNode)
    : rebaseNodes source target nodes = nodes.map (rebaseNode source target) := by
  induction nodes with
  | nil => rfl
  | cons node rest ih => rw [rebaseNodes, ih, List.map_cons]

theorem rebaseNodes_items (nodes : List WorkFolderNode)
    : items (rebaseNodes source target nodes)
      = (items nodes).map fun item => (rebasePath item.1 source target, item.2) := by
  induction nodes using nodes_induct with
  | nil => rfl
  | file entry rest ih =>
      rw [rebaseNodes, rebaseNode, items, items, file_items, file_items, ih]
      rfl
  | folder head children rest below ih =>
      rw [rebaseNodes, rebaseNode, items, items, folder_items, folder_items, below, ih]
      simp only [List.cons_append, List.map_cons, List.map_append]
      rfl

theorem rebasePath_concat (names : List String) (name : String)
    : rebasePath (source ++ names.map .normal ++ [.normal name]) source target
      = target ++ names.map .normal ++ [.normal name] := by
  have moved := rebasePath_append source target (names ++ [name])
  rwa [List.map_append, ← List.append_assoc, ← List.append_assoc] at moved

theorem rebaseNode_path (node : WorkFolderNode)
    : (rebaseNode source target node).path = rebasePath node.path source target := by
  cases node <;> rfl

theorem rebaseNode_modified (node : WorkFolderNode)
    : (rebaseNode source target node).modified = node.modified := by
  cases node <;> rfl

theorem rebaseEntry_in {names : List String} {entry : WorkFolderEntry}
    (inside : entry.In (source ++ names.map .normal))
    : (rebaseEntry entry source target).In (target ++ names.map .normal) := by
  obtain ⟨name, is⟩ := inside
  have at_path : entry.path = source ++ names.map .normal ++ [.normal name] :=
    congrArg WorkFolderEntry.path is
  exact ⟨name, by rw [rebaseEntry, at_path, rebasePath_concat]⟩

theorem rebaseHead_in {names : List String} {head : WorkFolderFolder}
    (inside : head.In (source ++ names.map .normal))
    : (rebaseHead head source target).In (target ++ names.map .normal) := by
  obtain ⟨name, is⟩ := inside
  have at_path : head.path = source ++ names.map .normal ++ [.normal name] :=
    congrArg WorkFolderFolder.path is
  exact ⟨name, by rw [rebaseHead, at_path, rebasePath_concat]; rfl⟩

/-- What is moved stays in order. -/
theorem rebaseNodes_settled (settled : Settled order dir nodes) (names : List String)
    (is : dir = source ++ names.map .normal)
    : Settled order (target ++ names.map .normal) (rebaseNodes source target nodes) := by
  induction settled generalizing names with
  | @level dir nodes sorted files folders below ih =>
      subst is
      have placed : ∀ node ∈ nodes, node.In order (source ++ names.map .normal) :=
        (Settled.level sorted files folders below).placed
      have moved : ∀ node ∈ nodes,
          (rebaseNode source target node).In order (target ++ names.map .normal) := by
        intro node among
        cases node with
        | file entry => exact rebaseEntry_in (files entry among)
        | folder head children =>
            have inside := folders head children among
            refine ⟨rebaseHead_in inside, ?_⟩
            obtain ⟨name, is⟩ := inside.path
            have at_path : head.path = source ++ (names ++ [name]).map .normal := by
              rw [is, List.map_append, ← List.append_assoc]
              rfl
            have behind := ih head children among (names ++ [name]) at_path
            have moved := rebasePath_append source target (names ++ [name])
            rwa [← moved, ← at_path] at behind
      have keys : ∀ node ∈ nodes, (rebaseNode source target node).sortKey = node.sortKey := by
        intro node among
        have here := (moved node among).sortKey
        rw [rebaseNode_path, (placed node among).sortKey, rebasePath_concat] at here
        simpa using here.symm
      rw [rebaseNodes_eq]
      refine settled_iff.mpr ⟨?_, fun node among => ?_⟩
      · refine List.pairwise_map.mpr (sorted.imp_of_mem fun {left right} first second before => ?_)
        have apart : left.sortKey ≠ right.sortKey := by
          intro same
          exact before.2 (by rw [(placed left first).sortKey, (placed right second).sortKey, same])
        refine ⟨?_, fun same => apart ?_⟩
        · rw [compareNodes_congr apart (keys left first) (keys right second)
            (rebaseNode_modified left) (rebaseNode_modified right)]
          exact before.1
        · rw [(moved left first).sortKey, (moved right second).sortKey, keys left first,
            keys right second] at same
          simpa using same
      · obtain ⟨other, present, rfl⟩ := List.mem_map.mp among
        exact moved other present

end Hane.Session
