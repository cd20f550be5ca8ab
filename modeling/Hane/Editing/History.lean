import Hane.Document.Buffer

/-! Selections and the grouped undo history of the editor. -/

namespace Hane.Editing

open Hane.Document

structure Selection where
  anchor : Nat
  active : Nat
deriving DecidableEq

namespace Selection

def caret (offset : Nat) : Selection := ⟨offset, offset⟩

def range (selection : Selection) : SourceRange :=
  ⟨min selection.anchor selection.active, max selection.anchor selection.active⟩

end Selection

/-- A clock reading in nanoseconds. -/
abbrev Instant := Nat

/-- Edits further apart than 750 ms never share an undo step. -/
def groupTimeout : Nat := 750000000

def isLineEnding (c : Char) : Bool := c == '\n' || c == '\r'

inductive EditKind where
  | insert
  | backspace
  | delete
  | replace
  | ime
deriving DecidableEq

structure HistoryEntry where
  start : Nat
  deleted : Text
  inserted : Text
  selectionBefore : Selection
  selectionAfter : Selection
  kind : EditKind
  lastEditAt : Instant
deriving DecidableEq

namespace HistoryEntry

def fromSummary (summary : EditSummary) (inserted : Text)
    (selectionBefore selectionAfter : Selection) (kind : EditKind) (now : Instant)
    : HistoryEntry where
  start := summary.rangeBefore.start
  deleted := summary.inverse.replacement
  inserted
  selectionBefore
  selectionAfter
  kind
  lastEditAt := now

/-- The replacement that `entry` followed by `next` amounts to, when their kinds allow one
undo step for both.
-/
def mergedEdit (entry next : HistoryEntry) : Option HistoryEntry :=
  match entry.kind with
  | .insert =>
      if next.deleted = []
          ∧ next.start = entry.start + utf8Len entry.inserted
          ∧ entry.inserted.getLast?.any isLineEnding = false
          ∧ next.inserted.any isLineEnding = false then
        some { entry with inserted := entry.inserted ++ next.inserted }
      else
        none
  | .backspace =>
      if entry.inserted = [] ∧ next.inserted = []
          ∧ next.start + utf8Len next.deleted = entry.start then
        some { entry with start := next.start, deleted := next.deleted ++ entry.deleted }
      else
        none
  | .delete =>
      if entry.inserted = [] ∧ next.inserted = [] ∧ next.start = entry.start then
        some { entry with deleted := entry.deleted ++ next.deleted }
      else
        none
  | .replace | .ime => none

/-- `none` when the source reports that nothing was merged. -/
def tryMerge (entry next : HistoryEntry) : Option HistoryEntry :=
  if entry.kind ≠ next.kind
      ∨ next.lastEditAt - entry.lastEditAt > groupTimeout
      ∨ entry.selectionAfter ≠ next.selectionBefore then
    none
  else
    (entry.mergedEdit next).map fun merged =>
      { merged with selectionAfter := next.selectionAfter, lastEditAt := next.lastEditAt }

def undo (entry : HistoryEntry) (document : RopeBuffer)
    : Except BufferError (EditSummary × RopeBuffer) :=
  document.edit ⟨entry.start, entry.start + utf8Len entry.inserted⟩ entry.deleted

def redo (entry : HistoryEntry) (document : RopeBuffer)
    : Except BufferError (EditSummary × RopeBuffer) :=
  document.edit ⟨entry.start, entry.start + utf8Len entry.deleted⟩ entry.inserted

end HistoryEntry

/-- The two stacks, latest entry first. -/
structure History where
  undoStack : List HistoryEntry
  redoStack : List HistoryEntry
  canMergeLast : Bool
deriving DecidableEq

namespace History

def empty : History := ⟨[], [], false⟩

def breakGroup (history : History) : History := { history with canMergeLast := false }

/-- Pushes an entry, or merges it into the latest one when that group is still open. -/
def pushOrMerge (history : History) (entry : HistoryEntry) : List HistoryEntry :=
  match history.undoStack with
  | previous :: rest =>
      if history.canMergeLast then
        match previous.tryMerge entry with
        | some merged => merged :: rest
        | none => entry :: previous :: rest
      else
        entry :: previous :: rest
  | [] => [entry]

def record (history : History) (summary : EditSummary) (inserted : Text)
    (selectionBefore selectionAfter : Selection) (kind : EditKind) (now : Instant)
    : History where
  undoStack :=
    history.pushOrMerge
      (HistoryEntry.fromSummary summary inserted selectionBefore selectionAfter kind now)
  redoStack := []
  canMergeLast := true

def recordReplacement (history : History) (start : Nat) (deleted inserted : Text)
    (selectionBefore selectionAfter : Selection) (kind : EditKind) (now : Instant)
    : History where
  undoStack :=
    { start, deleted, inserted, selectionBefore, selectionAfter, kind, lastEditAt := now }
    :: history.undoStack
  redoStack := []
  canMergeLast := false

/-- Undoes the latest entry in `document`. On an error the entry is already popped. -/
def undo (history : History) (document : RopeBuffer)
    : Except BufferError (Option (EditSummary × Selection)) × History × RopeBuffer :=
  match history.undoStack with
  | [] => (.ok none, history.breakGroup, document)
  | entry :: rest =>
      let popped := { history.breakGroup with undoStack := rest }
      match entry.undo document with
      | .error problem => (.error problem, popped, document)
      | .ok (summary, document) =>
          (.ok (some (summary, entry.selectionBefore)),
            { popped with redoStack := entry :: popped.redoStack }, document)

/-- Redoes the entry undone last. On an error the entry is already popped. -/
def redo (history : History) (document : RopeBuffer)
    : Except BufferError (Option (EditSummary × Selection)) × History × RopeBuffer :=
  match history.redoStack with
  | [] => (.ok none, history.breakGroup, document)
  | entry :: rest =>
      let popped := { history.breakGroup with redoStack := rest }
      match entry.redo document with
      | .error problem => (.error problem, popped, document)
      | .ok (summary, document) =>
          (.ok (some (summary, entry.selectionAfter)),
            { popped with undoStack := entry :: popped.undoStack }, document)

def canUndo (history : History) : Bool := !history.undoStack.isEmpty

def canRedo (history : History) : Bool := !history.redoStack.isEmpty

end History

end Hane.Editing
