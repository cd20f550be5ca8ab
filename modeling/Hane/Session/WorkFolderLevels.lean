import Hane.Session.WorkFolder

/-! Levels of a work folder in order: every node lies directly in the folder above it, under its
own name, and siblings are sorted.
-/

namespace Hane.Session

variable {order : WorkFolderSortOrder}

-- The order of siblings

instance instTransOrdComponent : Std.TransOrd Component :=
  inferInstanceAs (Std.TransCmp (compareLex (compareOn Component.rank) (compareOn Component.text)))

instance instLawfulEqOrdComponent : Std.LawfulEqOrd Component where
  eq_of_compare {left right} same := by
    obtain ⟨rank, text⟩ := Ordering.then_eq_eq.mp same
    have rank := Std.LawfulEqOrd.eq_of_compare rank
    have text := Std.LawfulEqOrd.eq_of_compare text
    cases left <;> cases right <;> simp_all [Component.rank, Component.text]

/-- What times are compared by: nodes without a time come last. -/
def modifiedKey (newestFirst : Bool) (node : WorkFolderNode) : Nat × Int :=
  match node.modified with
  | some time => (0, if newestFirst then -time else time)
  | none => (1, 0)

theorem compareModified_key (left right : WorkFolderNode) (newestFirst : Bool)
    : compareModified left right newestFirst
      = compareLex (compareOn Prod.fst) (compareOn Prod.snd)
          (modifiedKey newestFirst left) (modifiedKey newestFirst right) := by
  unfold compareModified modifiedKey compareLex compareOn
  cases left.modified <;> cases right.modified
  · rfl
  · rfl
  · rfl
  · rename_i leftTime rightTime
    cases newestFirst
    · rfl
    · have turned : compareOfLessAndEq rightTime leftTime
          = compareOfLessAndEq (-leftTime) (-rightTime) := by
        grind [compareOfLessAndEq]
      exact turned

/-- The order of siblings is a total preorder. -/
theorem compareNodes_transCmp (order : WorkFolderSortOrder)
    : Std.TransCmp fun left right => compareNodes left right order := by
  have names : Std.TransCmp nameAscendingThenPath :=
    inferInstanceAs (Std.TransCmp
      (compareLex (compareOn WorkFolderNode.sortKey) (compareOn WorkFolderNode.path)))
  have times (newestFirst : Bool)
      : Std.TransCmp fun left right => compareModified left right newestFirst := by
    have keys : Std.TransCmp (compareLex (compareOn (Prod.fst (α := Nat) (β := Int)))
        (compareOn Prod.snd)) := inferInstance
    have same (left right : WorkFolderNode) := compareModified_key left right newestFirst
    exact {
      eq_swap := by
        intro left right
        rw [same, same]
        exact keys.eq_swap
      isLE_trans := by
        intro left middle right
        rw [same, same, same]
        exact keys.isLE_trans
    }
  cases order
  · exact inferInstanceAs (Std.TransCmp (compareLex
      (fun left right => compareModified left right true) nameAscendingThenPath))
  · exact inferInstanceAs (Std.TransCmp (compareLex
      (fun left right => compareModified left right false) nameAscendingThenPath))
  · exact names
  · exact {
      eq_swap := fun {left right} => names.eq_swap (a := right) (b := left)
      isLE_trans := fun {left middle right} first second =>
        names.isLE_trans (a := right) (b := middle) (c := left) second first
    }

theorem compareNodes_total (left right : WorkFolderNode)
    : (compareNodes left right order).isLE = true
      ∨ (compareNodes right left order).isLE = true := by
  have cmp := compareNodes_transCmp order
  have swap : compareNodes left right order = (compareNodes right left order).swap := cmp.eq_swap
  rw [swap]
  cases compareNodes right left order <;> simp

theorem compareNodes_trans {left middle right : WorkFolderNode}
    (first : (compareNodes left middle order).isLE = true)
    (second : (compareNodes middle right order).isLE = true)
    : (compareNodes left right order).isLE = true :=
  (compareNodes_transCmp order).isLE_trans first second

theorem path_of_names {left right : WorkFolderNode}
    (same : nameAscendingThenPath left right = .eq)
    : left.path = right.path :=
  Std.LawfulEqOrd.eq_of_compare (Ordering.then_eq_eq.mp same).2

theorem path_of_compareNodes {left right : WorkFolderNode}
    (same : compareNodes left right order = .eq) : left.path = right.path := by
  cases order
  · exact path_of_names (Ordering.then_eq_eq.mp same).2
  · exact path_of_names (Ordering.then_eq_eq.mp same).2
  · exact path_of_names same
  · exact (path_of_names same).symm

/-- One sibling comes before another one. -/
def Before (order : WorkFolderSortOrder) (left right : WorkFolderNode) : Prop :=
  (compareNodes left right order).isLE = true ∧ left.path ≠ right.path

theorem Before.asymm {left right : WorkFolderNode} (before : Before order left right)
    : ¬ Before order right left := by
  intro after
  have cmp := compareNodes_transCmp order
  have swap : compareNodes left right order = (compareNodes right left order).swap := cmp.eq_swap
  have same : compareNodes left right order = .eq := by
    have first := before.1
    have second := after.1
    rw [swap] at first ⊢
    cases other : compareNodes right left order <;> simp_all
  exact before.2 (path_of_compareNodes same)

-- Sorting

theorem sortNodes_perm (nodes : List WorkFolderNode) (order : WorkFolderSortOrder)
    : (sortNodes nodes order).Perm nodes :=
  List.perm_insertionSort _ nodes

@[simp] theorem mem_sortNodes {node : WorkFolderNode} {nodes : List WorkFolderNode}
    : node ∈ sortNodes nodes order ↔ node ∈ nodes :=
  (sortNodes_perm nodes order).mem_iff

theorem sortNodes_sorted (nodes : List WorkFolderNode)
    : (sortNodes nodes order).Pairwise fun left right =>
        (compareNodes left right order).isLE = true := by
  have total : Std.Total fun left right : WorkFolderNode =>
      (compareNodes left right order).isLE = true := ⟨compareNodes_total⟩
  have trans : IsTrans WorkFolderNode fun left right =>
      (compareNodes left right order).isLE = true := ⟨fun _ _ _ => compareNodes_trans⟩
  exact List.pairwise_insertionSort _ nodes

theorem sortNodes_before {nodes : List WorkFolderNode}
    (distinct : (nodes.map WorkFolderNode.path).Nodup)
    : (sortNodes nodes order).Pairwise (Before order) := by
  have distinct : (sortNodes nodes order).Pairwise fun left right => left.path ≠ right.path :=
    List.pairwise_map.mp (((sortNodes_perm nodes order).map _).nodup_iff.mpr distinct)
  exact (sortNodes_sorted nodes).and distinct

theorem path_nodup {nodes : List WorkFolderNode} (sorted : nodes.Pairwise (Before order))
    : (nodes.map WorkFolderNode.path).Nodup :=
  List.pairwise_map.mpr (sorted.imp And.right)

theorem eq_of_before {first second : List WorkFolderNode} (left : first.Pairwise (Before order))
    (right : second.Pairwise (Before order)) (same : first.Perm second) : first = second :=
  same.eq_of_pairwise (fun _ _ _ _ before after => absurd after before.asymm) left right

-- Levels in order

/-- The entry of a file directly in a directory. -/
def WorkFolderEntry.In (dir : Path) (entry : WorkFolderEntry) : Prop :=
  ∃ name, entry = { WorkFolderEntry.new (dir ++ [.normal name]) with
    modified := entry.modified, modifiedSeq := entry.modifiedSeq }

/-- A folder directly in a directory. -/
def WorkFolderFolder.In (dir : Path) (folder : WorkFolderFolder) : Prop :=
  ∃ name, folder = { WorkFolderFolder.new (dir ++ [.normal name]) folder.modified with
    modifiedSeq := folder.modifiedSeq }

/-- The nodes of a directory, in order on this level and on every level below it. -/
inductive Settled (order : WorkFolderSortOrder) : Path → List WorkFolderNode → Prop where
  | level {dir : Path} {nodes : List WorkFolderNode}
      : nodes.Pairwise (Before order)
        → (∀ entry, .file entry ∈ nodes → entry.In dir)
        → (∀ folder children, .folder folder children ∈ nodes → folder.In dir)
        → (∀ folder children, .folder folder children ∈ nodes
          → Settled order folder.path children)
        → Settled order dir nodes

/-- A node directly in a directory, in order below it. -/
def WorkFolderNode.In (order : WorkFolderSortOrder) (dir : Path) : WorkFolderNode → Prop
  | file entry => entry.In dir
  | folder head children => head.In dir ∧ Settled order head.path children

theorem settled_iff {dir : Path} {nodes : List WorkFolderNode}
    : Settled order dir nodes
      ↔ nodes.Pairwise (Before order) ∧ ∀ node ∈ nodes, node.In order dir := by
  constructor
  · rintro ⟨sorted, files, folders, below⟩
    refine ⟨sorted, fun node present => ?_⟩
    cases node with
    | file entry => exact files entry present
    | folder head children => exact ⟨folders head children present, below head children present⟩
  · rintro ⟨sorted, placed⟩
    exact .level sorted (fun _ present => placed _ present)
      (fun _ _ present => (placed _ present).1) fun _ _ present => (placed _ present).2

theorem settled_nil (dir : Path) : Settled order dir [] :=
  settled_iff.mpr ⟨.nil, fun _ present => absurd present List.not_mem_nil⟩

theorem settled_sort {dir : Path} {nodes : List WorkFolderNode}
    (distinct : (nodes.map WorkFolderNode.path).Nodup)
    (placed : ∀ node ∈ nodes, node.In order dir) : Settled order dir (sortNodes nodes order) :=
  settled_iff.mpr ⟨sortNodes_before distinct, fun node present =>
    placed node (mem_sortNodes.mp present)⟩

namespace Settled

variable {dir : Path} {nodes : List WorkFolderNode}

theorem sorted (settled : Settled order dir nodes) : nodes.Pairwise (Before order) :=
  (settled_iff.mp settled).1

theorem placed (settled : Settled order dir nodes) : ∀ node ∈ nodes, node.In order dir :=
  (settled_iff.mp settled).2

theorem sublist {some : List WorkFolderNode} (settled : Settled order dir nodes)
    (part : some.Sublist nodes) : Settled order dir some :=
  settled_iff.mpr ⟨settled.sorted.sublist part, fun node present =>
    settled.placed node (part.subset present)⟩

theorem tail {node : WorkFolderNode} (settled : Settled order dir (node :: nodes))
    : Settled order dir nodes :=
  settled.sublist (List.sublist_cons_self ..)

theorem inside {head : WorkFolderFolder} {children : List WorkFolderNode}
    (settled : Settled order dir nodes) (present : .folder head children ∈ nodes)
    : Settled order head.path children :=
  (settled.placed _ present).2

end Settled

-- Items

/-- What is retained of a node apart from where it is and what is in it. -/
structure Retained where
  isFolder : Bool
  modified : Option Int
  sequence : Option Nat
  deriving DecidableEq

def WorkFolderEntry.retained (entry : WorkFolderEntry) : Retained :=
  ⟨false, entry.modified, entry.modifiedSeq⟩

def WorkFolderFolder.retained (folder : WorkFolderFolder) : Retained :=
  ⟨true, folder.modified, folder.modifiedSeq⟩

mutual

def items : List WorkFolderNode → List (Path × Retained)
  | [] => []
  | node :: rest => node.items ++ items rest

def WorkFolderNode.items : WorkFolderNode → List (Path × Retained)
  | .file entry => [(entry.path, entry.retained)]
  | .folder head children => (head.path, head.retained) :: Session.items children

end

@[elab_as_elim]
theorem nodes_induct {motive : List WorkFolderNode → Prop}
    (nil : motive [])
    (file : ∀ entry rest, motive rest → motive (.file entry :: rest))
    (folder : ∀ head children rest, motive children → motive rest
      → motive (.folder head children :: rest))
    (nodes : List WorkFolderNode) : motive nodes :=
  @WorkFolderNode.rec_1 (fun node => ∀ rest, motive rest → motive (node :: rest)) motive
    (fun entry rest => file entry rest) (fun head children below rest =>
      folder head children rest below) nil (fun _ rest first => first rest) nodes

theorem items_append (first second : List WorkFolderNode)
    : items (first ++ second) = items first ++ items second := by
  induction first with
  | nil => rfl
  | cons node rest ih => rw [List.cons_append, items, ih, items, List.append_assoc]

theorem items_perm {first second : List WorkFolderNode} (same : first.Perm second)
    : (items first).Perm (items second) := by
  induction same with
  | nil => exact .refl _
  | cons node _ ih =>
      rw [items, items]
      exact ih.append_left _
  | swap left right rest =>
      rw [items, items, items, items, ← List.append_assoc, ← List.append_assoc]
      exact List.perm_append_comm.append_right _
  | trans _ _ first second => exact first.trans second

theorem items_sortNodes (nodes : List WorkFolderNode)
    : (items (sortNodes nodes order)).Perm (items nodes) :=
  items_perm (sortNodes_perm nodes order)

theorem mem_items {nodes : List WorkFolderNode} {item : Path × Retained}
    : item ∈ items nodes ↔ ∃ node ∈ nodes, item ∈ node.items := by
  induction nodes with
  | nil => simp [items]
  | cons node rest ih => rw [items, List.mem_append, ih, List.exists_mem_cons_iff]

theorem file_items (entry : WorkFolderEntry)
    : (WorkFolderNode.file entry).items = [(entry.path, entry.retained)] := by
  rw [WorkFolderNode.items]

theorem folder_items (head : WorkFolderFolder) (children : List WorkFolderNode)
    : (WorkFolderNode.folder head children).items
        = (head.path, head.retained) :: items children := by
  rw [WorkFolderNode.items]

/-- A path of a node at any depth below a directory. -/
def IsUnder (dir path : Path) : Prop :=
  ∃ (name : String) (names : List String), path = dir ++ .normal name :: names.map .normal

theorem IsUnder.ne {dir path : Path} (under : IsUnder dir path) : path ≠ dir := by
  obtain ⟨name, names, rfl⟩ := under
  intro same
  have length := congrArg List.length same
  simp at length

theorem IsUnder.isPrefix {dir path : Path} (under : IsUnder dir path) : dir <+: path := by
  obtain ⟨name, names, rfl⟩ := under
  exact List.prefix_append _ _

theorem IsUnder.trans {dir middle path : Path} (first : IsUnder dir middle)
    (second : IsUnder middle path) : IsUnder dir path := by
  obtain ⟨name, names, rfl⟩ := first
  obtain ⟨other, others, rfl⟩ := second
  exact ⟨name, names ++ other :: others, by simp⟩

theorem IsUnder.disjoint {dir path : Path} {left right : Component}
    (first : dir ++ [left] <+: path) (second : dir ++ [right] <+: path) : left = right := by
  obtain ⟨one, rfl⟩ := first
  obtain ⟨other, same⟩ := second
  simp only [List.append_assoc, List.singleton_append, List.append_cancel_left_eq,
    List.cons.injEq] at same
  exact same.1.symm

theorem WorkFolderEntry.In.path {dir : Path} {entry : WorkFolderEntry} (inside : entry.In dir)
    : ∃ name, entry.path = dir ++ [.normal name] := by
  obtain ⟨name, is⟩ := inside
  exact ⟨name, congrArg WorkFolderEntry.path is⟩

theorem WorkFolderFolder.In.path {dir : Path} {folder : WorkFolderFolder} (inside : folder.In dir)
    : ∃ name, folder.path = dir ++ [.normal name] := by
  obtain ⟨name, is⟩ := inside
  exact ⟨name, congrArg WorkFolderFolder.path is⟩

theorem WorkFolderNode.In.path {dir : Path} {node : WorkFolderNode} (inside : node.In order dir)
    : ∃ name, node.path = dir ++ [.normal name] := by
  cases node with
  | file entry => exact WorkFolderEntry.In.path inside
  | folder head children => exact WorkFolderFolder.In.path inside.1

namespace Settled

variable {dir : Path} {nodes : List WorkFolderNode}

theorem isUnder (settled : Settled order dir nodes) {item : Path × Retained}
    (present : item ∈ items nodes) : IsUnder dir item.1 := by
  induction nodes using nodes_induct generalizing dir with
  | nil => exact absurd present List.not_mem_nil
  | file entry rest ih =>
      rcases List.mem_cons.mp present with rfl | present
      · obtain ⟨name, is⟩ := (settled.placed _ List.mem_cons_self).path
        exact ⟨name, [], is⟩
      · exact ih settled.tail present
  | folder head children rest below ih =>
      obtain ⟨name, is⟩ := (settled.placed _ List.mem_cons_self).path
      have here : IsUnder dir head.path := ⟨name, [], is⟩
      rcases List.mem_cons.mp present with rfl | present
      · exact here
      · rcases List.mem_append.mp present with present | present
        · exact here.trans (below (settled.inside List.mem_cons_self) present)
        · exact ih settled.tail present

end Settled

theorem WorkFolderNode.In.isPrefix {dir : Path} {node : WorkFolderNode}
    (inside : node.In order dir) {item : Path × Retained} (present : item ∈ node.items)
    : node.path <+: item.1 := by
  cases node with
  | file entry =>
      rw [file_items] at present
      rw [List.mem_singleton.mp present]
      exact List.prefix_rfl
  | folder head children =>
      rw [folder_items] at present
      rcases List.mem_cons.mp present with rfl | present
      · exact List.prefix_rfl
      · exact (inside.2.isUnder present).isPrefix

theorem WorkFolderNode.In.path_eq {dir path : Path} {left right : WorkFolderNode}
    (first : left.In order dir) (second : right.In order dir) (one : left.path <+: path)
    (other : right.path <+: path) : left.path = right.path := by
  obtain ⟨leftName, leftIs⟩ := first.path
  obtain ⟨rightName, rightIs⟩ := second.path
  rw [leftIs] at one
  rw [rightIs] at other
  rw [leftIs, rightIs, IsUnder.disjoint one other]

namespace Settled

variable {dir : Path} {nodes : List WorkFolderNode}

theorem head_apart {node : WorkFolderNode} (settled : Settled order dir (node :: nodes))
    {item other : Path × Retained} (here : item ∈ node.items) (behind : other ∈ items nodes)
    : item.1 ≠ other.1 := by
  intro same
  obtain ⟨sibling, among, present⟩ := mem_items.mp behind
  have first := settled.placed node List.mem_cons_self
  have second := settled.placed sibling (List.mem_cons_of_mem _ among)
  refine ((List.pairwise_cons.mp settled.sorted).1 sibling among).2 ?_
  exact first.path_eq second (first.isPrefix here) (same ▸ second.isPrefix present)

theorem nodup_cons {node : WorkFolderNode} (settled : Settled order dir (node :: nodes))
    (here : (node.items.map Prod.fst).Nodup) (behind : ((items nodes).map Prod.fst).Nodup)
    : ((items (node :: nodes)).map Prod.fst).Nodup := by
  rw [items, List.map_append]
  refine List.nodup_append.mpr ⟨here, behind, ?_⟩
  intro path first other second
  obtain ⟨item, present, rfl⟩ := List.mem_map.mp first
  obtain ⟨item', present', rfl⟩ := List.mem_map.mp second
  exact settled.head_apart present present'

/-- No path occurs twice. -/
theorem nodup (settled : Settled order dir nodes) : ((items nodes).map Prod.fst).Nodup := by
  induction nodes using nodes_induct generalizing dir with
  | nil => exact .nil
  | file entry rest ih =>
      refine settled.nodup_cons ?_ (ih settled.tail)
      rw [file_items]
      exact List.nodup_singleton _
  | folder head children rest below ih =>
      have inside := settled.inside List.mem_cons_self
      refine settled.nodup_cons ?_ (ih settled.tail)
      rw [folder_items]
      refine List.nodup_cons.mpr ⟨fun present => ?_, below inside⟩
      obtain ⟨item, present, same⟩ := List.mem_map.mp present
      exact (inside.isUnder present).ne same

theorem unique (settled : Settled order dir nodes) {path : Path} {left right : Retained}
    (first : (path, left) ∈ items nodes) (second : (path, right) ∈ items nodes)
    : left = right :=
  congrArg Prod.snd (List.inj_on_of_nodup_map settled.nodup first second rfl)

end Settled

-- One level among the others

/-- One level at any depth is exchanged for another one. -/
inductive Exchanges (target : Path) (level level' : List WorkFolderNode)
    : Path → List WorkFolderNode → List WorkFolderNode → Prop where
  | here : Exchanges target level level' target level level'
  | deeper {dir : Path} {head : WorkFolderFolder}
      {children children' before rest : List WorkFolderNode}
      : Exchanges target level level' head.path children children'
        → Exchanges target level level' dir
          (before ++ .folder head children :: rest) (before ++ .folder head children' :: rest)

/-- What an exchange does to settled nodes. -/
structure Exchanged (order : WorkFolderSortOrder) (target : Path)
    (level level' : List WorkFolderNode) (dir : Path) (nodes after : List WorkFolderNode)
    : Prop where
  reached : dir <+: target
  settled : Settled order target level
  kept : Settled order target level' → Settled order dir after
  others : ∃ others, (items nodes).Perm (items level ++ others)
    ∧ (items after).Perm (items level' ++ others)
    ∧ ∀ item ∈ others, ¬ IsUnder target item.1

theorem Exchanges.exchanged {target dir : Path} {level level' nodes after : List WorkFolderNode}
    (exchanges : Exchanges target level level' dir nodes after)
    (settled : Settled order dir nodes)
    : Exchanged order target level level' dir nodes after := by
  induction exchanges with
  | here =>
      refine ⟨List.prefix_rfl, settled, id, [], ?_, ?_,
        fun _ present => absurd present List.not_mem_nil⟩
      · rw [List.append_nil]
      · rw [List.append_nil]
  | @deeper dir head children children' before rest exchanges ih =>
      have present : .folder head children ∈ before ++ .folder head children :: rest :=
        List.mem_append_right _ List.mem_cons_self
      obtain ⟨reached, inner, kept, others, nodesPerm, afterPerm, apart⟩ :=
        ih (settled.inside present)
      have here := settled.placed _ present
      obtain ⟨first, second, across⟩ := List.pairwise_append.mp settled.sorted
      obtain ⟨ahead, second⟩ := List.pairwise_cons.mp second
      have prefixed : dir <+: head.path := by
        obtain ⟨name, is⟩ := here.path
        rw [show head.path = dir ++ [.normal name] from is]
        exact List.prefix_append dir _
      refine ⟨prefixed.trans reached, inner, fun next => ?_,
        (head.path, head.retained) :: (items before ++ items rest ++ others), ?_, ?_, ?_⟩
      · refine settled_iff.mpr ⟨?_, fun node among => ?_⟩
        · refine List.pairwise_append.mpr ⟨first, List.pairwise_cons.mpr ⟨ahead, second⟩, ?_⟩
          intro left inBefore right among
          rcases List.mem_cons.mp among with rfl | among
          · exact across left inBefore (.folder head children) List.mem_cons_self
          · exact across left inBefore right (List.mem_cons_of_mem _ among)
        · rcases List.mem_append.mp among with among | among
          · exact settled.placed node (List.mem_append_left _ among)
          · rcases List.mem_cons.mp among with rfl | among
            · exact ⟨here.1, kept next⟩
            · exact settled.placed node (List.mem_append_right _ (List.mem_cons_of_mem _ among))
      · rw [items_append, items, folder_items]
        refine List.perm_iff_count.mpr fun item => ?_
        have count := nodesPerm.count_eq item
        simp only [List.count_append, List.count_cons] at count ⊢
        omega
      · rw [items_append, items, folder_items]
        refine List.perm_iff_count.mpr fun item => ?_
        have count := afterPerm.count_eq item
        simp only [List.count_append, List.count_cons] at count ⊢
        omega
      · intro item among under
        have through : head.path <+: item.1 := reached.trans under.isPrefix
        rcases List.mem_cons.mp among with rfl | among
        · exact under.ne (reached.eq_of_length_le under.isPrefix.length_le)
        · rcases List.mem_append.mp among with among | among
          · rcases List.mem_append.mp among with among | among
            · obtain ⟨sibling, inBefore, present'⟩ := mem_items.mp among
              have placed := settled.placed sibling (List.mem_append_left _ inBefore)
              exact (across sibling inBefore _ List.mem_cons_self).2
                (placed.path_eq here (placed.isPrefix present') through)
            · obtain ⟨sibling, inRest, present'⟩ := mem_items.mp among
              have placed := settled.placed sibling
                (List.mem_append_right _ (List.mem_cons_of_mem _ inRest))
              exact (ahead sibling inRest).2
                (here.path_eq placed through (placed.isPrefix present'))
          · exact apart item among under

end Hane.Session
