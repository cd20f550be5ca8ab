import Hane.Foundations.OsPaths
import Hane.Foundations.PlainText
import Hane.Foundations.Splitting
import Mathlib.Logic.Function.Basic

/-! The sidebar pins: an ordered list of files and folders for each work folder, the changes to it
and the file that keeps every list.
-/

namespace Hane.Session

open Hane.Foundations

-- Names of the operating system

/-- How an operating system reads paths and how the bytes of its strings are taken. -/
structure OsRules (α : Type) extends PathRules α where
  /-- `.hane` as a name. -/
  haneName : List α
  units : List α → List UInt8
  fromUnits : List UInt8 → Option (List α)
  fromUnits_units : ∀ value, fromUnits (units value) = some value

/-- A string of bytes, with `/` between names. -/
def unixRules : OsRules UInt8 where
  isSeparator unit := unit = 0x2F
  mainSeparator := 0x2F
  dot := 0x2E
  hasPrefix _ := false
  mainSeparator_separates := by decide
  dot_names := by decide
  hasPrefix_append _ _ _ := rfl
  haneName := [0x2E, 0x68, 0x61, 0x6E, 0x65]
  units value := value
  fromUnits bytes := some bytes
  fromUnits_units _ := rfl

def isDriveLetter (unit : UInt16) : Bool :=
  (0x41 ≤ unit && unit ≤ 0x5A) || (0x61 ≤ unit && unit ≤ 0x7A)

/-- Whether a path begins with a drive, such as `C:`. -/
def hasDrive : List UInt16 → Bool
  | letter :: colon :: _ => isDriveLetter letter && colon = 0x3A
  | _ => false

/-- The big-endian bytes of the units. -/
def wideUnits (value : List UInt16) : List UInt8 :=
  value.flatMap fun unit => [UInt8.ofNat (unit.toNat / 256), UInt8.ofNat (unit.toNat % 256)]

/-- An odd count of bytes is no string. -/
def fromWideUnits : List UInt8 → Option (List UInt16)
  | [] => some []
  | [_] => none
  | high :: low :: rest =>
    (fromWideUnits rest).map (UInt16.ofNat (high.toNat * 256 + low.toNat) :: ·)

/-- The bytes of the units give the units back, by induction over them. -/
theorem fromWideUnits_wideUnits (value : List UInt16)
    : fromWideUnits (wideUnits value) = some value := by
  induction value with
  | nil => rfl
  | cons unit rest ih =>
      have bound := unit.toNat_lt
      have same : UInt16.ofNat
          ((UInt8.ofNat (unit.toNat / 256)).toNat * 256
            + (UInt8.ofNat (unit.toNat % 256)).toNat) = unit := by
        rw [UInt8.toNat_ofNat', UInt8.toNat_ofNat', Nat.mod_eq_of_lt (by omega),
          Nat.mod_eq_of_lt (by omega), Nat.div_add_mod', UInt16.ofNat_toNat]
      have bytes : wideUnits (unit :: rest)
          = UInt8.ofNat (unit.toNat / 256) :: UInt8.ofNat (unit.toNat % 256) :: wideUnits rest :=
        rfl
      rw [bytes, fromWideUnits, ih, Option.map_some, same]

theorem hasDrive_append {name : List UInt16} {separator : UInt16} (rest : List UInt16)
    (filled : name ≠ []) (separates : separator ≠ 0x3A)
    : hasDrive (name ++ separator :: rest) = hasDrive name := by
  match name with
  | [] => exact absurd rfl filled
  | [letter] => simp [hasDrive, separates]
  | letter :: colon :: more => rfl

/-- A string of UTF-16 units, with `\` or `/` between names. The prefixes that begin with
separators are told by these.
-/
def windowsRules : OsRules UInt16 where
  isSeparator unit := unit = 0x5C || unit = 0x2F
  mainSeparator := 0x5C
  dot := 0x2E
  hasPrefix := hasDrive
  mainSeparator_separates := by decide
  dot_names := by decide
  hasPrefix_append rest filled separates :=
    hasDrive_append rest filled (by rintro rfl; revert separates; decide)
  haneName := [0x2E, 0x68, 0x61, 0x6E, 0x65]
  units := wideUnits
  fromUnits := fromWideUnits
  fromUnits_units := fromWideUnits_wideUnits

-- Pins and their updates

inductive PinKind where
  | file
  | folder
  deriving DecidableEq

/-- The path is relative to the work folder. -/
structure PinnedEntry (α : Type) where
  relativePath : List α
  kind : PinKind
  deriving DecidableEq

inductive PinUpdate (α : Type) where
  | pin (entry : PinnedEntry α)
  | unpin (path : List α)
  | renameFile (source target : List α)
  | renameFolder (source target : List α)
  | remove (path : List α) (folder : Bool)
  deriving DecidableEq

inductive PinError (α : Type) where
  | invalidPath (path : List α)
  | unreadable (reason : String)
  | corrupt (reason : String)
  | unknownVersion (version : String)
  | write (reason : String)
  deriving DecidableEq

variable {α : Type} [DecidableEq α] (os : OsRules α)

/-- The check of the components behind the first `count`. -/
def validateComponents (path : List α) : Nat → List (PathComponent α) → Except (PinError α) Unit
  | count, [] => if count = 0 then .error (.invalidPath path) else .ok ()
  | count, .normal name :: rest =>
    if count = 0 ∧ name = os.haneName then .error (.invalidPath path)
    else validateComponents path (count + 1) rest
  | _, _ :: _ => .error (.invalidPath path)

def validatePinPath (path : List α) : Except (PinError α) Unit :=
  validateComponents os path 0 (os.components path)

def rebase (path source target : List α) : Option (List α) :=
  (os.stripPrefix path source).map fun relative =>
    if relative = [] then target else os.join target relative

/-- The entries whose path is not among the seen ones. -/
def dedupeFrom (seen : List (List α)) : List (PinnedEntry α) → List (PinnedEntry α)
  | [] => []
  | entry :: rest =>
    if seen.any (os.samePath · entry.relativePath) then dedupeFrom seen rest
    else entry :: dedupeFrom (seen ++ [entry.relativePath]) rest

def dedupe (entries : List (PinnedEntry α)) : List (PinnedEntry α) := dedupeFrom os [] entries

/-- The path a renamed file's pin gets. -/
def renamedEntry (source target : List α) (entry : PinnedEntry α) : Option (PinnedEntry α) :=
  if entry.kind = .file ∧ os.samePath entry.relativePath source then
    some { entry with relativePath := target }
  else none

/-- The path a pin at or below a renamed folder gets. -/
def movedEntry (source target : List α) (entry : PinnedEntry α) : Option (PinnedEntry α) :=
  (rebase os entry.relativePath source target).map fun moved =>
    { entry with relativePath := moved }

/-- A change of some entries, with the repeated paths dropped when one changed. -/
def changeEntries (change : PinnedEntry α → Option (PinnedEntry α))
    (entries : List (PinnedEntry α)) : Bool × List (PinnedEntry α) :=
  if entries.any fun entry => (change entry).isSome then
    (true, dedupe os (entries.map fun entry => (change entry).getD entry))
  else (false, entries)

def retainEntries (stays : PinnedEntry α → Bool) (entries : List (PinnedEntry α))
    : Bool × List (PinnedEntry α) :=
  ((entries.filter stays).length ≠ entries.length, entries.filter stays)

def applyPinUpdate (entries : List (PinnedEntry α))
    : PinUpdate α → Except (PinError α) (Bool × List (PinnedEntry α))
  | .pin entry => do
    validatePinPath os entry.relativePath
    if entries.any fun existing => os.samePath existing.relativePath entry.relativePath then
      return (false, entries)
    else return (true, entry :: entries)
  | .unpin path =>
    .ok (retainEntries (fun entry => !os.samePath entry.relativePath path) entries)
  | .renameFile source target => do
    validatePinPath os target
    return changeEntries os (renamedEntry os source target) entries
  | .renameFolder source target => do
    validatePinPath os target
    return changeEntries os (movedEntry os source target) entries
  | .remove path folder =>
    .ok <|
      if folder then
        retainEntries (fun entry => !os.startsWith entry.relativePath path) entries
      else
        retainEntries
          (fun entry => !(entry.kind = .file && os.samePath entry.relativePath path)) entries

def applyFrom (changed : Bool) (entries : List (PinnedEntry α))
    : List (PinUpdate α) → Except (PinError α) (Bool × List (PinnedEntry α))
  | [] => .ok (changed, entries)
  | update :: rest => do
    let (now, working) ← applyPinUpdate os entries update
    applyFrom (changed || now) working rest

def applyAll (entries : List (PinnedEntry α)) (updates : List (PinUpdate α))
    : Except (PinError α) (Bool × List (PinnedEntry α)) :=
  applyFrom os false entries updates

-- The text of the file

def hexDigit (value : UInt8) : Char := "0123456789abcdef".toList.getD (value.toNat % 16) '0'

def encodeOs (value : List α) : List Char :=
  (os.units value).flatMap fun (byte : UInt8) => [hexDigit (byte >>> 4), hexDigit byte]

def nibble (digit : UInt8) : Option UInt8 :=
  if 0x30 ≤ digit ∧ digit ≤ 0x39 then some (digit - 0x30)
  else if 0x61 ≤ digit ∧ digit ≤ 0x66 then some (digit - 0x61 + 10)
  else none

/-- The bytes of pairs of digits. -/
def decodeDigits : List UInt8 → Option (List UInt8)
  | [] => some []
  | [_] => none
  | high :: low :: rest => do
    let byte := (← nibble high) <<< 4 ||| (← nibble low)
    return byte :: (← decodeDigits rest)

def decodeOs (hex : List Char) : Option (List α) := do
  os.fromUnits (← decodeDigits (hex.flatMap String.utf8EncodeChar))

/-- Every work folder with its list. -/
abbrev PinRoots (α : Type) := List (List α × List (PinnedEntry α))

def pinsHeaderPrefix : List Char := "hane-pins ".toList

def pinsVersion : List Char := "1".toList

def entryTag : PinKind → List Char
  | .file => "file".toList
  | .folder => "folder".toList

def renderEntry (entry : PinnedEntry α) : List Char :=
  entryTag entry.kind ++ ' ' :: encodeOs os entry.relativePath ++ ['\n']

def renderRoot (root : List α × List (PinnedEntry α)) : List Char :=
  "root".toList ++ ' ' :: encodeOs os root.1 ++ '\n' :: root.2.flatMap (renderEntry os)

def renderPins (roots : PinRoots α) : List Char :=
  pinsHeaderPrefix ++ pinsVersion ++ '\n' :: roots.flatMap (renderRoot os)

def corruptLine (what : String) (line : List Char) : PinError α :=
  .corrupt (what ++ ": " ++ String.ofList line)

/-- An entry line adds to the last work folder. -/
def parseEntry (line : List Char) (kind : PinKind) (relative : List α) (roots : PinRoots α)
    : Except (PinError α) (PinRoots α) := do
  if (validatePinPath os relative).isOk then
    match roots.getLast? with
    | none => throw (.corrupt "entry before root")
    | some (root, entries) =>
      if entries.any fun existing => os.samePath existing.relativePath relative then
        throw (corruptLine "duplicate entry" line)
      else return roots.dropLast ++ [(root, entries ++ [⟨relative, kind⟩])]
  else throw (corruptLine "invalid path" line)

def parseTagged (line tag : List Char) (decoded : List α) (roots : PinRoots α)
    : Except (PinError α) (PinRoots α) :=
  if tag = "root".toList then .ok (roots ++ [(decoded, [])])
  else if tag = entryTag .file then parseEntry os line .file decoded roots
  else if tag = entryTag .folder then parseEntry os line .folder decoded roots
  else .error (corruptLine "unknown line" line)

def parseLine (roots : PinRoots α) (line : List Char) : Except (PinError α) (PinRoots α) :=
  if trim line = [] then .ok roots
  else
    match Splitting.splitFirst [' '] line with
    | none => .error (corruptLine "unreadable line" line)
    | some (tag, value) =>
      match decodeOs os value with
      | none => .error (corruptLine "unreadable value" line)
      | some decoded => parseTagged os line tag decoded roots

def parseLines (roots : PinRoots α) : List (List Char) → Except (PinError α) (PinRoots α)
  | [] => .ok roots
  | line :: rest => do parseLines (← parseLine os roots line) rest

def parsePins (text : List Char) : Except (PinError α) (PinRoots α) :=
  match lines text with
  | [] => .error (.corrupt "empty file")
  | header :: rest =>
    if pinsHeaderPrefix.isPrefixOf header then
      let version := trim (header.drop pinsHeaderPrefix.length)
      if version ≠ pinsVersion then .error (.unknownVersion (String.ofList version))
      else parseLines os [] rest
    else .error (.corrupt "missing header")

-- The file store

/-- The file, when there is one, and the count of answers so far. -/
structure PinStore where
  file : Option ByteArray
  revision : Nat

structure PinSnapshot (α : Type) where
  entries : List (PinnedEntry α)
  revision : Nat

/-- How a write fails, and what it leaves in the place of the file where it does not leave the
file: nothing where the file was moved aside and could not be put back, or an earlier one that was
put back.
-/
structure WriteFault where
  reason : String
  left : Option (Option ByteArray)

/-- One call of `update`: the key of the work folder, the changes, and how reading and writing the
file fail, when they do.
-/
structure PinCall (α : Type) where
  key : List α
  updates : List (PinUpdate α)
  readFault : Option String
  writeFault : Option WriteFault

/-- If the write fails, it leaves the file as it was. -/
def PinCall.KeepsFile {α : Type} (call : PinCall α) : Prop :=
  ∀ fault ∈ call.writeFault, fault.left = none

/-- How the error of bytes that are no UTF-8 reads. -/
abbrev Utf8Error := ByteArray → String

def readAll (describe : Utf8Error) (file : Option ByteArray) (fault : Option String)
    : Except (PinError α) (PinRoots α) :=
  match fault with
  | some reason => .error (.unreadable reason)
  | none =>
    match file with
    | none => .ok []
    | some bytes =>
      match String.fromUTF8? bytes with
      | none => .error (.corrupt (describe bytes))
      | some text => parsePins os text.toList

/-- The list of a work folder, as `load` and `update` find it. -/
def listOf (roots : PinRoots α) (key : List α) : List (PinnedEntry α) :=
  match roots.find? fun root => root.1 = key with
  | some root => root.2
  | none => []

/-- The lists with a new one for a work folder: in its place, or behind the others. -/
def setList (roots : PinRoots α) (key : List α) (entries : List (PinnedEntry α)) : PinRoots α :=
  match roots.findIdx? fun root => root.1 = key with
  | some index => roots.modify index fun root => (root.1, entries)
  | none => roots ++ [(key, entries)]

def renderedBytes (roots : PinRoots α) : ByteArray := (String.ofList (renderPins os roots)).toUTF8

/-- The write of the changed lists. -/
def PinStore.store (store : PinStore) (call : PinCall α) (roots : PinRoots α)
    (entries : List (PinnedEntry α)) : Except (PinError α) (PinSnapshot α) × PinStore :=
  match call.writeFault with
  | some fault =>
    (.error (.write fault.reason), { store with file := fault.left.getD store.file })
  | none =>
    let kept := (setList roots call.key entries).filter fun root => !root.2.isEmpty
    (.ok ⟨entries, store.revision + 1⟩,
      { file := some (renderedBytes os kept), revision := store.revision + 1 })

def PinStore.update (describe : Utf8Error) (store : PinStore) (call : PinCall α)
    : Except (PinError α) (PinSnapshot α) × PinStore :=
  match readAll os describe store.file call.readFault with
  | .error error => (.error error, store)
  | .ok roots =>
    match applyAll os (listOf roots call.key) call.updates with
    | .error error => (.error error, store)
    | .ok (true, entries) => store.store os call roots entries
    | .ok (false, entries) =>
      (.ok ⟨entries, store.revision + 1⟩, { store with revision := store.revision + 1 })

end Hane.Session
