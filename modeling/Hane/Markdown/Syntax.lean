import Hane.Document.Lines
import Hane.Document.Rope

/-! The syntax tree of a parsed source slice, and the physical lines of a slice. -/

namespace Hane.Markdown

open Hane.Document

inductive NodeKind where
  | document
  | paragraph
  | heading (level : Nat)
  | codeBlock
  | quote
  | list (start : Option Nat)
  | listItem (task : Option Bool)
  | table
  | tableHead
  | tableRow
  | tableCell
  | rule
  | htmlBlock
  | html
  | footnoteDefinition
  | text
  | strong
  | emphasis
  | strikethrough
  | inlineCode
  | link
  | image
  | inlineHtml
  | footnoteReference
  | taskMarker (checked : Bool)
  | softBreak
  | hardBreak
  | unsupported
deriving DecidableEq

structure MarkdownNode where
  kind : NodeKind
  sourceRange : SourceRange
  children : List Nat
deriving DecidableEq

/-- The nodes of a parsed slice; a node is identified by its position. -/
structure MarkdownTree where
  nodes : List MarkdownNode
deriving DecidableEq

namespace MarkdownTree

def root : Nat := 0

def node (tree : MarkdownTree) (id : Nat) : Option MarkdownNode := tree.nodes[id]?

def children (tree : MarkdownTree) (id : Nat) : List Nat :=
  ((tree.node id).map (·.children)).getD []

def topLevel (tree : MarkdownTree) : List (NodeKind × Nat) :=
  (tree.children root).filterMap fun id =>
    (tree.node id).map fun node => (node.kind, node.sourceRange.start)

def ofTopLevel (range : SourceRange) (nodes : List (NodeKind × Nat)) : MarkdownTree where
  nodes :=
    ⟨.document, range, List.range' 1 nodes.length⟩
      :: nodes.map fun (kind, start) => ⟨kind, ⟨start, range.stop⟩, []⟩

@[simp] theorem topLevel_ofTopLevel (range : SourceRange) (nodes : List (NodeKind × Nat))
    : (ofTopLevel range nodes).topLevel = nodes := by
  have found (earlier later : List (NodeKind × Nat)) (split : nodes = earlier ++ later)
      : (List.range' (earlier.length + 1) later.length).filterMap (fun id =>
            ((ofTopLevel range nodes).node id).map fun node =>
              (node.kind, node.sourceRange.start))
        = later := by
    induction later generalizing earlier with
    | nil => rfl
    | cons node later ih =>
        have here : (ofTopLevel range nodes).node (earlier.length + 1)
            = some ⟨node.1, ⟨node.2, range.stop⟩, []⟩ := by
          simp [MarkdownTree.node, ofTopLevel, split]
        have rest := ih (earlier ++ [node]) (by simpa using split)
        rw [List.length_append, List.length_singleton] at rest
        rw [List.length_cons, List.range'_succ, List.filterMap_cons, here]
        simpa using rest
  exact found [] nodes rfl

end MarkdownTree

/-- A parsed slice. What only the projections read of it is left to `Details`. -/
structure MarkdownParse (Details : Type) where
  revision : Nat
  sourceRange : SourceRange
  tree : MarkdownTree
  details : Details

-- Physical lines of a slice

def countLineEndings : Text → Nat
  | [] => 0
  | '\r' :: '\n' :: rest => countLineEndings rest + 1
  | '\r' :: rest => countLineEndings rest + 1
  | '\n' :: rest => countLineEndings rest + 1
  | _ :: rest => countLineEndings rest

/-- `str::ends_with(['\n', '\r'])`. -/
def endsWithLineEnding (slice : Text) : Bool :=
  slice.getLast? == some '\n' || slice.getLast? == some '\r'

/-- `char::is_whitespace`. -/
def isWhitespace (c : Char) : Bool :=
  let code := c.toNat
  (9 ≤ code && code ≤ 13) || code == 0x20 || code == 0x85 || code == 0xa0 || code == 0x1680
  || (0x2000 ≤ code && code ≤ 0x200a) || code == 0x2028 || code == 0x2029 || code == 0x202f
  || code == 0x205f || code == 0x3000

/-- The lines of a slice with their line endings; nothing follows the last line ending. -/
def markdownLines (source : Text) : List Text :=
  ((splitLines source).map SourceLine.text).filter fun line => !line.isEmpty

/-- How many lines a slice opens with that are blank once trimmed. -/
def leadingBlankLines (slice : Text) : Nat :=
  ((markdownLines slice).takeWhile fun line => line.all isWhitespace).length

/-- A slice by byte offsets that are character boundaries. -/
def sliceBytes (source : Text) (start stop : Nat) : Text :=
  Rope.slice source (Rope.byteToChar source start) (Rope.byteToChar source stop)

end Hane.Markdown
