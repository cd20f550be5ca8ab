import Hane.Update.Errors
import Mathlib.Data.List.DropRight

/-! Relative path validation shared by archives, inventories, plans and journals. -/

namespace Hane.Update

open Hane.Foundations

def maxPathBytes : Nat := 240
def maxComponentBytes : Nat := 255

def reject (path why : String) : UpdateError :=
  let quoted := debugText path
  ⟨.archiveRejected, s!"unsafe path {quoted}: {why}"⟩

def toAsciiUppercase (text : String) : String := String.ofList (text.toList.map Char.toUpper)

def toAsciiLowercase (text : String) : String := String.ofList (text.toList.map Char.toLower)

def reservedDeviceNames : List String := ["CON", "PRN", "AUX", "NUL", "CONIN$", "CONOUT$"]

def isReservedDevice (component : String) : Bool :=
  let stem := toAsciiUppercase (String.ofList
    ((component.toList.takeWhile (· ≠ '.')).rdropWhile (· = ' ')))
  reservedDeviceNames.contains stem
    || [['C', 'O', 'M'], ['L', 'P', 'T']].any fun device =>
      match stem.toList.drop 3 with
      | [digit] => stem.toList.take 3 == device && '1' ≤ digit && digit ≤ '9'
      | _ => false

def isForbidden (ch : Char) : Bool :=
  ['<', '>', ':', '"', '|', '?', '*', '\\', '/'].contains ch

/-- The checks on the characters of a component, in order. -/
def checkChars (path : String) : List Char → Except UpdateError Unit
  | [] => .ok ()
  | ch :: rest =>
    if 128 ≤ ch.toNat then .error (reject path "non-ASCII name")
    else if ch.toNat < 32 ∨ ch.toNat = 127 then .error (reject path "control character")
    else if isForbidden ch then .error (reject path "forbidden character")
    else checkChars path rest

def validateComponent (path component : String) : Except UpdateError Unit := do
  if component = "" then throw (reject path "empty component")
  if component = "." ∨ component = ".." then throw (reject path "dot component")
  if component.utf8ByteSize > maxComponentBytes then throw (reject path "component too long")
  checkChars path component.toList
  if component.toList.getLast? = some '.' ∨ component.toList.getLast? = some ' ' then
    throw (reject path "trailing dot or space")
  if isReservedDevice component then throw (reject path "reserved device name")
  if toAsciiLowercase component = toAsciiLowercase "__MACOSX"
      ∨ toAsciiLowercase component = toAsciiLowercase ".DS_Store" then
    throw (reject path "archiver metadata")

def components (path : String) : List String := (path.toList.splitOn '/').map String.ofList

def validateComponents (path : String) : List String → Except UpdateError Unit
  | [] => .ok ()
  | component :: rest => do
    validateComponent path component
    validateComponents path rest

/-- Validates a forward-slash relative path without trailing separator. -/
def validateRelPath (path : String) : Except UpdateError Unit := do
  if path = "" then throw (reject path "empty path")
  if path.utf8ByteSize > maxPathBytes then throw (reject path "path too long")
  if path.toList.head? = some '/' ∨ path.toList.getLast? = some '/' then
    throw (reject path "absolute path or trailing separator")
  validateComponents path (components path)

/-- Key under which two names are one entry on a case-insensitive file system. -/
def collisionKey (path : String) : String := toAsciiLowercase path

/-- The prefixes of a text that end before one of its slashes. -/
def ancestorsFrom (before : List Char) : List Char → List String
  | [] => []
  | '/' :: rest => String.ofList before :: ancestorsFrom (before ++ ['/']) rest
  | ch :: rest => ancestorsFrom (before ++ [ch]) rest

/-- All strict ancestors of a path: `a/b/c` has `a` and `a/b`. -/
def ancestors (path : String) : List String := ancestorsFrom [] path.toList

example : ancestors "a/b/c" = ["a", "a/b"] := by decide

example : (validateRelPath "backup/COM1.txt").isOk = false := by decide +kernel

end Hane.Update
