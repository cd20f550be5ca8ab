import Mathlib.Data.List.Sort
import Hane.Session.Identity
import Hane.Session.TitleSync

/-! The index of a work folder: every folder and every note below its root, nested as on disk and
sorted on every level. The index follows what the app itself does to the files until the next scan.
-/

namespace Hane.Session

-- Paths

namespace Component

/-- How components of different kinds compare. -/
def rank : Component → Nat
  | drive _ => 0
  | rootDir => 1
  | curDir => 2
  | parentDir => 3
  | normal _ => 4

def text : Component → String
  | drive name => name
  | rootDir => "/"
  | curDir => "."
  | parentDir => ".."
  | normal name => name

instance instOrd : Ord Component where
  compare left right := (compare left.rank right.rank).then (compare left.text right.text)

end Component

namespace Path

/-- The last component, where it is a name. -/
def fileName (path : Path) : Option String :=
  match path.getLast? with
  | some (.normal name) => some name
  | _ => none

def fileStem (path : Path) : Option String :=
  path.fileName.map fun name => String.ofList (Session.fileStem name.toList)

/-- What stands behind the last dot of the last component, where a name stands before the dot. -/
def extension (path : Path) : Option String :=
  path.fileName.bind fun name =>
    match Foundations.Splitting.splitLast '.' name.toList with
    | some (before, after) =>
      if before = [] ∨ name = ".." then none else some (String.ofList after)
    | none => none

/-- The path without its last component. A root has no parent. -/
def parent (path : Path) : Option Path := path.pop

/-- A path in its usual spelling. -/
def display (path : Path) : String := "/".intercalate (path.map Component.text)

end Path

-- Nodes

/-- One Markdown file, not yet loaded. `modified` is what was last read of the file, and
`modifiedSeq` the number that was given to that read.
-/
structure WorkFolderEntry where
  path : Path
  name : String
  fileName : String
  modified : Option Int
  modifiedSeq : Option Nat
  deriving DecidableEq

namespace WorkFolderEntry

def new (path : Path) : WorkFolderEntry where
  path
  name := path.fileStem.getD path.display
  fileName := path.fileName.getD path.display
  modified := none
  modifiedSeq := none

end WorkFolderEntry

/-- A folder without its children. -/
structure WorkFolderFolder where
  path : Path
  name : String
  modified : Option Int
  modifiedSeq : Option Nat
  deriving DecidableEq

namespace WorkFolderFolder

def new (path : Path) (modified : Option Int) : WorkFolderFolder where
  path
  name := path.fileName.getD path.display
  modified
  modifiedSeq := none

end WorkFolderFolder

/-- A file, or a folder with the nodes in it. -/
inductive WorkFolderNode where
  | file (entry : WorkFolderEntry)
  | folder (folder : WorkFolderFolder) (children : List WorkFolderNode)

namespace WorkFolderNode

def path : WorkFolderNode → Path
  | file entry => entry.path
  | folder head _ => head.path

def sortKey : WorkFolderNode → String
  | file entry => entry.fileName
  | folder head _ => head.name

def modified : WorkFolderNode → Option Int
  | file entry => entry.modified
  | folder head _ => head.modified

def modifiedSeq : WorkFolderNode → Option Nat
  | file entry => entry.modifiedSeq
  | folder head _ => head.modifiedSeq

def withModified (modified : Option Int) (sequence : Option Nat) : WorkFolderNode → WorkFolderNode
  | file entry => .file { entry with modified, modifiedSeq := sequence }
  | folder head children => .folder { head with modified, modifiedSeq := sequence } children

def isFileAt (path : Path) : WorkFolderNode → Bool
  | file entry => entry.path = path
  | folder _ _ => false

def isFolderAt (path : Path) : WorkFolderNode → Bool
  | file _ => false
  | folder head _ => head.path = path

end WorkFolderNode

-- The order of siblings

inductive WorkFolderSortOrder where
  | updatedNewest
  | updatedOldest
  | nameAscending
  | nameDescending
  deriving DecidableEq

/-- A node without a time sorts last in either direction. -/
def compareModified (left right : WorkFolderNode) (newestFirst : Bool) : Ordering :=
  match left.modified, right.modified with
  | some leftTime, some rightTime =>
    if newestFirst then compare rightTime leftTime else compare leftTime rightTime
  | some _, none => .lt
  | none, some _ => .gt
  | none, none => .eq

def nameAscendingThenPath (left right : WorkFolderNode) : Ordering :=
  (compare left.sortKey right.sortKey).then (compare left.path right.path)

def compareNodes (left right : WorkFolderNode) : WorkFolderSortOrder → Ordering
  | .nameAscending => nameAscendingThenPath left right
  | .nameDescending => nameAscendingThenPath right left
  | .updatedNewest => (compareModified left right true).then (nameAscendingThenPath left right)
  | .updatedOldest => (compareModified left right false).then (nameAscendingThenPath left right)

def sortNodes (nodes : List WorkFolderNode) (order : WorkFolderSortOrder)
    : List WorkFolderNode :=
  nodes.insertionSort fun left right => (compareNodes left right order).isLE = true

mutual

def resortBelow (order : WorkFolderSortOrder) : List WorkFolderNode → List WorkFolderNode
  | [] => []
  | node :: rest => resortNode order node :: resortBelow order rest

def resortNode (order : WorkFolderSortOrder) : WorkFolderNode → WorkFolderNode
  | .file entry => .file entry
  -- The order of a level does not depend on what is below it, which may be sorted before it.
  | .folder folder children => .folder folder (sortNodes (resortBelow order children) order)

end

def resortTree (nodes : List WorkFolderNode) (order : WorkFolderSortOrder)
    : List WorkFolderNode :=
  sortNodes (resortBelow order nodes) order

-- Finding

mutual

def findFile (path : Path) : List WorkFolderNode → Option WorkFolderEntry
  | [] => none
  | node :: rest => (fileIn path node).or (findFile path rest)

def fileIn (path : Path) : WorkFolderNode → Option WorkFolderEntry
  | .file entry => if entry.path = path then some entry else none
  | .folder _ children => findFile path children

end

mutual

def findFolder (path : Path)
    : List WorkFolderNode → Option (WorkFolderFolder × List WorkFolderNode)
  | [] => none
  | node :: rest => (folderIn path node).or (findFolder path rest)

def folderIn (path : Path) : WorkFolderNode → Option (WorkFolderFolder × List WorkFolderNode)
  | .file _ => none
  | .folder folder children =>
    if folder.path = path then some (folder, children) else findFolder path children

end

mutual

/-- Changes the nodes in the folder with a path, where there is one. -/
def findFolderMut (path : Path) (change : List WorkFolderNode → List WorkFolderNode)
    : List WorkFolderNode → Option (List WorkFolderNode)
  | [] => none
  | node :: rest =>
    match folderInMut path change node with
    | some changed => some (changed :: rest)
    | none => (findFolderMut path change rest).map (node :: ·)

def folderInMut (path : Path) (change : List WorkFolderNode → List WorkFolderNode)
    : WorkFolderNode → Option WorkFolderNode
  | .file _ => none
  | .folder folder children =>
    if folder.path = path then some (.folder folder (change children))
    else (findFolderMut path change children).map (.folder folder ·)

end

mutual

def collectFiles : List WorkFolderNode → List WorkFolderEntry
  | [] => []
  | node :: rest => filesOf node ++ collectFiles rest

def filesOf : WorkFolderNode → List WorkFolderEntry
  | .file entry => [entry]
  | .folder _ children => collectFiles children

end

mutual

def countFiles : List WorkFolderNode → Nat
  | [] => 0
  | node :: rest => filesIn node + countFiles rest

def filesIn : WorkFolderNode → Nat
  | .file _ => 1
  | .folder _ children => countFiles children

end

-- Changing one level

mutual

/-- Tries a change on the nodes of one folder after the other, at any depth. -/
def changeBelow {Found : Type}
    (change : List WorkFolderNode → Option (Found × List WorkFolderNode))
    : List WorkFolderNode → Option (Found × List WorkFolderNode)
  | [] => none
  | node :: rest =>
    match changeIn change node with
    | some (found, changed) => some (found, changed :: rest)
    | none => (changeBelow change rest).map fun (found, kept) => (found, node :: kept)

def changeIn {Found : Type} (change : List WorkFolderNode → Option (Found × List WorkFolderNode))
    : WorkFolderNode → Option (Found × WorkFolderNode)
  | .file _ => none
  | .folder folder children =>
    ((change children).or (changeBelow change children)).map fun (found, kept) =>
      (found, .folder folder kept)

end

/-- Makes a change on the first level that allows it: this one, or else one below it. -/
def changeLevel {Found : Type}
    (change : List WorkFolderNode → Option (Found × List WorkFolderNode))
    (nodes : List WorkFolderNode) : Option (Found × List WorkFolderNode) :=
  (change nodes).or (changeBelow change nodes)

/-- Takes the first node of a kind out of one level. -/
def takeNode (wanted : WorkFolderNode → Bool) (nodes : List WorkFolderNode)
    : Option (WorkFolderNode × List WorkFolderNode) :=
  (nodes.find? wanted).map fun node => (node, nodes.eraseP wanted)

def removeFile (nodes : List WorkFolderNode) (path : Path)
    : Option (WorkFolderNode × List WorkFolderNode) :=
  changeLevel (takeNode (·.isFileAt path)) nodes

def removeFolder (nodes : List WorkFolderNode) (path : Path)
    : Option (WorkFolderNode × List WorkFolderNode) :=
  changeLevel (takeNode (·.isFolderAt path)) nodes

/-- Whether a read is not newer than the one that is retained. A read without a number, and a node
without one, lets every read through.
-/
def isStale (retained incoming : Option Nat) : Bool :=
  match retained, incoming with
  | some retained, some incoming => incoming ≤ retained
  | _, _ => false

/-- Sets the time of the node with a path on one level. -/
def setModifiedHere (path : Path) (modified : Option Int) (sequence : Option Nat)
    (order : WorkFolderSortOrder) (nodes : List WorkFolderNode)
    : Option (Unit × List WorkFolderNode) :=
  (nodes.find? (·.path = path)).map fun node =>
    if isStale node.modifiedSeq sequence then ((), nodes)
    else
      ((), sortNodes (nodes.replaceF fun other =>
        if other.path = path then some (other.withModified modified sequence) else none) order)

def setModified (nodes : List WorkFolderNode) (path : Path) (modified : Option Int)
    (sequence : Option Nat) (order : WorkFolderSortOrder) : Option (Unit × List WorkFolderNode) :=
  changeLevel (setModifiedHere path modified sequence order) nodes

-- Inserting

/-- Where the folder of a name is on a level, which is made if it is missing. -/
def folderIndex (nodes : List WorkFolderNode) (currentDir : Path) (name : Component)
    (order : WorkFolderSortOrder) : Option Nat × List WorkFolderNode :=
  let folderPath := currentDir.join [name]
  match nodes.findIdx? (·.isFolderAt folderPath) with
  | some index => (some index, nodes)
  | none =>
    let sorted := sortNodes (nodes ++ [.folder (.new folderPath none) []]) order
    (sorted.findIdx? (·.isFolderAt folderPath), sorted)

/-- Changes the nodes in the folder at an index. -/
def inFolderAt (index : Option Nat)
    (change : WorkFolderFolder → List WorkFolderNode → List WorkFolderNode)
    (nodes : List WorkFolderNode) : List WorkFolderNode :=
  match index with
  | some index =>
    match nodes[index]? with
    | some (.folder folder children) =>
      nodes.set index (.folder folder (change folder children))
    | _ => nodes
  | none => nodes

def insertFile (order : WorkFolderSortOrder) (filePath : Path)
    : Path → List Component → List WorkFolderNode → List WorkFolderNode
  | _, [], nodes => nodes
  | _, [_], nodes => sortNodes (nodes ++ [.file (.new filePath)]) order
  | currentDir, name :: next :: rest, nodes =>
    let (index, nodes) := folderIndex nodes currentDir name order
    inFolderAt index
      (fun folder children => insertFile order filePath folder.path (next :: rest) children) nodes

def insertFolderAt (order : WorkFolderSortOrder)
    : Path → List Component → List WorkFolderNode → List WorkFolderNode
  | _, [], nodes => nodes
  | currentDir, [name], nodes => (folderIndex nodes currentDir name order).2
  | currentDir, name :: next :: rest, nodes =>
    let (index, nodes) := folderIndex nodes currentDir name order
    inFolderAt index
      (fun folder children => insertFolderAt order folder.path (next :: rest) children) nodes

-- Moving

/-- `path` with `source` in front of it replaced by `target`. -/
def rebasePath (path source target : Path) : Path :=
  match Path.stripPrefix source path with
  | none => path
  | some [] => target
  | some relative => target.join relative

def rebaseEntry (entry : WorkFolderEntry) (source target : Path) : WorkFolderEntry :=
  { WorkFolderEntry.new (rebasePath entry.path source target) with
    modified := entry.modified, modifiedSeq := entry.modifiedSeq }

def rebaseHead (folder : WorkFolderFolder) (source target : Path) : WorkFolderFolder :=
  { WorkFolderFolder.new (rebasePath folder.path source target) folder.modified with
    modifiedSeq := folder.modifiedSeq }

mutual

/-- Moves nodes with everything below them. -/
def rebaseNodes (source target : Path) : List WorkFolderNode → List WorkFolderNode
  | [] => []
  | node :: rest => rebaseNode source target node :: rebaseNodes source target rest

def rebaseNode (source target : Path) : WorkFolderNode → WorkFolderNode
  | .file entry => .file (rebaseEntry entry source target)
  | .folder folder children =>
    .folder (rebaseHead folder source target) (rebaseNodes source target children)

end

-- Work folders

structure WorkFolder where
  root : Path
  children : List WorkFolderNode
  sortOrder : WorkFolderSortOrder

namespace WorkFolder

def fromTree (root : Path) (children : List WorkFolderNode) : WorkFolder where
  root
  children := sortNodes children .updatedNewest
  sortOrder := .updatedNewest

def entryForPath (folder : WorkFolder) (path : Path) : Option WorkFolderEntry :=
  findFile path folder.children

def childrenAt (folder : WorkFolder) (path : Path) : Option (List WorkFolderNode) :=
  if path = folder.root then some folder.children
  else (findFolder path folder.children).map Prod.snd

def entries (folder : WorkFolder) : List WorkFolderEntry := collectFiles folder.children

def len (folder : WorkFolder) : Nat := countFiles folder.children

def setSortOrder (folder : WorkFolder) (order : WorkFolderSortOrder) : WorkFolder :=
  if folder.sortOrder = order then folder
  else { folder with sortOrder := order, children := resortTree folder.children order }

/-- A time set on the node with a path, which is left as it is where there is none. -/
def stamp (folder : WorkFolder) (path : Path) (modified : Option Int) (sequence : Option Nat)
    : WorkFolder :=
  match setModified folder.children path modified sequence folder.sortOrder with
  | some ((), children) => { folder with children }
  | none => folder

def touch (folder : WorkFolder) (path : Path) (modified : Option Int) (sequence : Nat)
    : WorkFolder :=
  folder.stamp path modified (some sequence)

def insert (folder : WorkFolder) (path : Path) : WorkFolder :=
  if (folder.entryForPath path).isSome then folder
  else
    match Path.stripPrefix folder.root path with
    | none | some [] => folder
    | some components =>
      { folder with
        children := insertFile folder.sortOrder path folder.root components folder.children }

def insertFolder (folder : WorkFolder) (path : Path) : WorkFolder :=
  match Path.stripPrefix folder.root path with
  | none | some [] => folder
  | some components =>
    { folder with
      children := insertFolderAt folder.sortOrder folder.root components folder.children }

def rename (folder : WorkFolder) (source target : Path) : WorkFolder :=
  match removeFile folder.children source with
  | none => folder
  | some (node, children) =>
    ({ folder with children }.insert target).stamp target node.modified node.modifiedSeq

def remove (folder : WorkFolder) (path : Path) : WorkFolder :=
  match removeFile folder.children path with
  | none => folder
  | some (_, children) => { folder with children }

def removeFolder (folder : WorkFolder) (path : Path) : WorkFolder :=
  if path = folder.root then folder
  else
    match Session.removeFolder folder.children path with
    | none => folder
    | some (_, children) => { folder with children }

/-- Adds a node to those in the folder with a path. -/
def addUnder (folder : WorkFolder) (path : Path) (node : WorkFolderNode) : WorkFolder :=
  let add := fun children => sortNodes (children ++ [node]) folder.sortOrder
  if path = folder.root then { folder with children := add folder.children }
  else
    match findFolderMut path add folder.children with
    | some children => { folder with children }
    | none => folder

def renameFolder (folder : WorkFolder) (source target : Path) : WorkFolder :=
  match Session.removeFolder folder.children source with
  | none => folder
  | some (node, children) =>
    let removed := { folder with children }
    match target.parent with
    | none => removed
    | some parent => removed.addUnder parent (rebaseNode source target node)

end WorkFolder

-- Scanning

/-- What a directory listing yields. A time and the number given to it are read for every item that
is not an error, and a directory that cannot be opened yields one error.
-/
inductive DiskItem where
  | failed
  | file (name : String) (modified : Option Int) (sequence : Nat)
  | dir (name : String) (modified : Option Int) (sequence : Nat) (items : List DiskItem)
  | other (name : String)

def isRootHaneDirectory (root path : Path) : Bool :=
  path.parent = some root && path.fileName = some ".hane"

def isMarkdown (path : Path) : Bool :=
  path.extension.any fun extension => extension.toList.map Char.toLower = ['m', 'd']

mutual

/-- The nodes for a listing, in its order and not sorted yet. -/
def walkItems (root dir : Path) : List DiskItem → Option (List WorkFolderNode)
  | [] => some []
  | item :: rest =>
    match walkItem root dir item with
    | none => none
    | some node => (walkItems root dir rest).map (node.toList ++ ·)

/-- The node for one item, where it has one. -/
def walkItem (root dir : Path) : DiskItem → Option (Option WorkFolderNode)
  | .failed => none
  | .other _ => some none
  | .file name modified sequence =>
    let path := dir.join [.normal name]
    if isMarkdown path then
      some (some
        (.file { WorkFolderEntry.new path with modified, modifiedSeq := some sequence }))
    else some none
  | .dir name modified sequence items =>
    let path := dir.join [.normal name]
    if isRootHaneDirectory root path then some none
    else
      (walkItems root path items).map fun children =>
        some (.folder { WorkFolderFolder.new path modified with modifiedSeq := some sequence }
          (sortNodes children .updatedNewest))

end

/-- What a scan of a directory makes of it. -/
def scan (root : Path) (items : List DiskItem) : Option WorkFolder :=
  (walkItems root root items).map fun nodes =>
    .fromTree root (sortNodes nodes .updatedNewest)

end Hane.Session
