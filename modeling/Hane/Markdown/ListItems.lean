import Hane.Markdown.ListLines

/-! The list items of a parsed slice, and the bullets and numbers that open them. -/

namespace Hane.Markdown

open Hane.Document Hane.Foundations

/-- What the editing projection reads of a parse beside its nodes: the parent of each node. -/
structure ListDetails where
  parents : List (Option Nat)
deriving DecidableEq

abbrev ListParse := MarkdownParse ListDetails

namespace ListParse

def parent (parsed : ListParse) (id : Nat) : Option Nat := (parsed.details.parents[id]?).join

/-- A node and the nodes around it, up to some number of them. -/
def ancestorsWithin (parsed : ListParse) : Nat → Nat → List Nat
  | 0, _ => []
  | more + 1, id =>
      match parsed.parent id with
      | none => [id]
      | some parent => id :: parsed.ancestorsWithin more parent

/-- `id` followed by each ancestor. A parent has a smaller id, so the root is at most `id` steps
away.
-/
def ancestors (parsed : ListParse) (id : Nat) : List Nat := parsed.ancestorsWithin (id + 1) id

def isKind (parsed : ListParse) (kind : NodeKind → Bool) (id : Nat) : Bool :=
  (parsed.tree.node id).any fun node => kind node.kind

/-- How many lists a node sits in. -/
def listDepth (parsed : ListParse) (id : Nat) : Nat :=
  ((parsed.ancestors id).filter (parsed.isKind fun kind => kind matches .list _)).length

def listItemOrdinal (parsed : ListParse) (id : Nat) : Option (Nat × Nat) := do
  let node ← parsed.tree.node id
  let .listItem _ := node.kind | none
  let owner ← parsed.parent id
  let ordinal ← (parsed.tree.children owner).findIdx? (· == id)
  return (owner, ordinal)

/-- The task marker of an item: one of its own children. -/
def findTaskMarker (parsed : ListParse) (id : Nat) : Option SourceRange :=
  (parsed.tree.children id).findSome? fun child =>
    match parsed.tree.node child with
    | some ⟨.taskMarker _, range, _⟩ => some range
    | _ => none

def itemSubtreeEnd (parsed : ListParse) (id openingLineEnd : Nat) : Nat :=
  ((parsed.tree.children id).filterMap parsed.tree.node).foldl
    (fun stop node => max stop node.sourceRange.stop) openingLineEnd

/-- An item in a block quote. -/
def inQuote (parsed : ListParse) (id : Nat) : Bool :=
  ((parsed.ancestors id).drop 1).any (parsed.isKind fun kind => kind matches .quote)

end ListParse

-- Markers

/-- A place in a line, before which there are ASCII characters only. -/
structure PrefixCursor where
  byte : Nat
  column : Nat
  pendingSpaces : Nat
deriving DecidableEq

structure ListItemPrefix where
  symbol : SourceRange
  width : Nat
deriving DecidableEq

namespace PrefixCursor

/-- One column of white space, where a tab goes to the next multiple of four. -/
def space (text : Text) (cursor : PrefixCursor) : Option PrefixCursor :=
  if cursor.pendingSpaces > 0 then
    some ⟨cursor.byte, cursor.column + 1, cursor.pendingSpaces - 1⟩
  else
    match text[cursor.byte]? with
    | some ' ' => some ⟨cursor.byte + 1, cursor.column + 1, 0⟩
    | some '\t' => some ⟨cursor.byte + 1, cursor.column + 1, 3 - cursor.column % 4⟩
    | _ => none

def indent (line : Text) : (limit : Nat) → PrefixCursor → PrefixCursor
  | 0, cursor => cursor
  | limit + 1, cursor =>
      match cursor.space line with
      | some next => indent line limit next
      | none => cursor

/-- Where the bullet, or the number with its delimiter, at a place of a line ends. -/
def symbolEnd (text : Text) (marker : Nat) : Option Nat :=
  match text[marker]? with
  | none => none
  | some c =>
      if c = '-' ∨ c = '+' ∨ c = '*' then
        some (marker + 1)
      else if c.isDigit then
        let stop := marker + (((text.drop marker).take 9).takeWhile Char.isDigit).length
        if text[stop]? = some '.' ∨ text[stop]? = some ')' then some (stop + 1) else none
      else
        none

def listItem (line : Text) (start : PrefixCursor) : Option ListItemPrefix := do
  let indented := start.indent line 3
  if indented.pendingSpaces ≠ 0 then none
  let stop ← symbolEnd line indented.byte
  let column := indented.column + (stop - indented.byte)
  let symbol : SourceRange := ⟨indented.byte, stop⟩
  let behind : PrefixCursor := ⟨stop, column, 0⟩
  let padded := behind.indent line 5
  -- An opening line without content has one padding column.
  if (line.drop stop).all fun c => isIndent c || isLineBreak c then
    some ⟨symbol, column - start.column + 1⟩
  else if padded.column = column then
    none
  else if padded.column - column > 4 then
    some ⟨symbol, ((behind.space line).getD behind).column - start.column⟩
  else
    some ⟨symbol, padded.column - start.column⟩

end PrefixCursor

/-- The marker on the opening line of an item: its symbol and one space or tab behind it. -/
def itemMarker (range : SourceRange) (source : Text) (start : Nat) : Option SourceRange :=
  let relative := start - range.start
  let tail := (slice? source relative (utf8Len source)).getD []
  let opening := (markdownLines tail).headD []
  (PrefixCursor.listItem opening ⟨0, 0, 0⟩).map fun found =>
    let stop :=
      if opening[found.symbol.stop]?.any isIndent then found.symbol.stop + 1 else found.symbol.stop
    ⟨start + found.symbol.start, start + stop⟩

def ListParse.listItemMarkers (parsed : ListParse) (source : Text) : List (SourceRange × Nat) :=
  (parsed.tree.nodes.zipIdx.drop 1).filterMap fun (node, id) =>
    match node.kind with
    | .listItem _ =>
        (itemMarker parsed.sourceRange source node.sourceRange.start).map (·, id)
    | _ => none

end Hane.Markdown
