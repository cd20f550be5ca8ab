import Hane.Document.Text
import Hane.Foundations.PlainText
import Hane.Foundations.Splitting

/-! The store of the user's prompts: what a save checks, the ids it gives out and what it writes.
-/

namespace Hane.Ai

open Hane.Document Hane.Foundations Hane.Foundations.Splitting

-- Templates

inductive PromptTemplateError where
  | duplicateVariable (name : String)
  | unknownVariable (name : Text)
deriving DecidableEq

structure PromptTemplate where
  usesSelection : Bool
  usesDocumentContext : Bool
deriving DecidableEq

/-- The variables met so far in a prompt. -/
structure VariableCount where
  selection : Nat
  documentContext : Nat
  firstUnknown : Option Text

section Templates

-- `char::is_alphanumeric`, from the tables of Unicode.
variable (isAlphanumeric : Char → Bool)

def isIdentifierLike (text : Text) : Bool :=
  !text.isEmpty && text.all fun c => isAlphanumeric c || c == '_'

/-- Counts what stands between two pairs of braces. -/
def VariableCount.add (count : VariableCount) (inner : Text) : VariableCount :=
  if inner = "selection".toList then
    { count with selection := count.selection + 1 }
  else if inner = "document_context".toList then
    { count with documentContext := count.documentContext + 1 }
  else if isIdentifierLike isAlphanumeric (trim inner) && count.firstUnknown.isNone then
    { count with firstUnknown := some (trim inner) }
  else
    count

/-- Counts the variables of a text. A brace between the braces starts another try one character
on.
-/
def countVariables (rest : Text) (count : VariableCount) : VariableCount :=
  match _opened : splitFirst ['\x7b', '\x7b'] rest with
  | none => count
  | some (before, after) =>
      match closed : splitFirst ['\x7d', '\x7d'] after with
      | none => count
      | some (inner, behind) =>
          if inner.contains '\x7b' then
            countVariables (rest.drop (before.length + 1)) count
          else
            countVariables behind (count.add isAlphanumeric inner)
termination_by rest.length
decreasing_by
  · have whole := congrArg List.length (splitFirst_sound _opened)
    simp only [List.length_append, List.length_cons, List.length_nil, List.length_drop] at *
    omega
  · have whole := congrArg List.length (splitFirst_sound _opened)
    have shorter := congrArg List.length (splitFirst_sound closed)
    simp only [List.length_append, List.length_cons, List.length_nil] at *
    omega

/-- The template a prompt is; a prompt without a known variable is none. -/
def parsePromptTemplate (prompt : Text) : Except PromptTemplateError (Option PromptTemplate) :=
  let count := countVariables isAlphanumeric prompt ⟨0, 0, none⟩
  if count.selection = 0 ∧ count.documentContext = 0 then
    .ok none
  else if 1 < count.selection then
    .error (.duplicateVariable "\x7b\x7bselection\x7d\x7d")
  else if 1 < count.documentContext then
    .error (.duplicateVariable "\x7b\x7bdocument_context\x7d\x7d")
  else
    match count.firstUnknown with
    | some name => .error (.unknownVariable name)
    | none => .ok (some ⟨count.selection = 1, count.documentContext = 1⟩)

end Templates

-- The file

def userPromptsSchemaVersion : Nat := 1

def maxPromptTitleChars : Nat := 80

def maxPromptBodyBytes : Nat := 8 * 1024

def maxPromptCount : Nat := 64

structure UserPrompt where
  id : Nat
  title : Text
  prompt : Text
deriving DecidableEq

structure UserPrompts where
  schemaVersion : Nat
  revision : Nat
  nextId : Nat
  prompts : List UserPrompt
deriving DecidableEq

/-- A row of the settings page. A new row has no id. -/
structure UserPromptDraft where
  id : Option Nat
  title : Text
  prompt : Text
deriving DecidableEq

/-- What counts as stored while there is no file. -/
def UserPrompts.none : UserPrompts := ⟨userPromptsSchemaVersion, 0, 1, []⟩

inductive UserPromptsLoadError where
  | io (reason : String)
  | unsupportedSchemaVersion (found supported : Nat)
deriving DecidableEq

inductive UserPromptsSaveError where
  | io (reason : String)
  | busy
  | revisionConflict (current : UserPrompts)
  | tooManyPrompts (max : Nat)
  | invalidId (id : Nat)
  | duplicateId (id : Nat)
  | titleEmpty
  | titleContainsNewline
  | titleTooLong (maxChars : Nat)
  | promptEmpty
  | promptTooLarge (maxBytes : Nat)
  | invalidTemplate (error : PromptTemplateError)
  | idCounterOverflow
  | revisionOverflow
  | persistedDurabilityUnconfirmed (reason : String)
deriving DecidableEq

/-- What the lock of the store gives. -/
inductive LockAttempt where
  | failed (reason : String)
  | held
  | acquired
deriving DecidableEq

/-- How the atomic replacement of the file ends. -/
inductive WriteOutcome where
  | written
  | notPersisted (reason : String)
  | renamedUnsynced (reason : String)
deriving DecidableEq

/-- What the file system does during one save. -/
structure Disk where
  lock : LockAttempt
  readFailure : Option String
  write : WriteOutcome
deriving DecidableEq

/-- The stored prompts, if there are any; a save reads back what a save wrote. -/
def loadPrompts (file : Option UserPrompts) (readFailure : Option String)
    : Except UserPromptsLoadError (Option UserPrompts) :=
  match readFailure with
  | some reason => .error (.io reason)
  | none =>
      match file with
      | none => .ok none
      | some prompts =>
          if userPromptsSchemaVersion < prompts.schemaVersion then
            .error (.unsupportedSchemaVersion prompts.schemaVersion userPromptsSchemaVersion)
          else
            .ok (some prompts)

def UserPromptsLoadError.toSave : UserPromptsLoadError → UserPromptsSaveError
  | .io reason => .io reason
  | .unsupportedSchemaVersion found supported =>
      .io ("cannot save: on-disk schema_version " ++ toString found
        ++ " is newer than the supported " ++ toString supported)

-- Saving

/-- The ids of the drafts that carry one: issued before, and none of them twice. -/
def checkIds (nextId : Nat) (seen : List Nat)
    : List UserPromptDraft → Except UserPromptsSaveError (List Nat)
  | [] => .ok seen
  | draft :: rest =>
      match draft.id with
      | none => checkIds nextId seen rest
      | some id =>
          if id = 0 ∨ nextId ≤ id then .error (.invalidId id)
          else if seen.contains id then .error (.duplicateId id)
          else checkIds nextId (id :: seen) rest

/-- The id of a draft, with the counter and the ids seen behind it. -/
def takeId (nextId : Nat) (seen : List Nat)
    : Option Nat → Except UserPromptsSaveError (Nat × Nat × List Nat)
  | some id => .ok (id, nextId, seen)
  | none =>
      if nextId = 0 then .error (.invalidId 0)
      else if seen.contains nextId then .error (.duplicateId nextId)
      else if nextId + 1 < 2 ^ 64 then .ok (nextId, nextId + 1, nextId :: seen)
      else .error .idCounterOverflow

section Saving

variable (isAlphanumeric : Char → Bool)

/-- The title a draft is stored with. -/
def checkDraft (draft : UserPromptDraft) : Except UserPromptsSaveError Text :=
  let title := trim draft.title
  if title = [] then
    .error .titleEmpty
  else if title.contains '\n' || title.contains '\r' then
    .error .titleContainsNewline
  else if maxPromptTitleChars < title.length then
    .error (.titleTooLong maxPromptTitleChars)
  else if trim draft.prompt = [] then
    .error .promptEmpty
  else if maxPromptBodyBytes < utf8Len draft.prompt then
    .error (.promptTooLarge maxPromptBodyBytes)
  else
    match parsePromptTemplate isAlphanumeric draft.prompt with
    | .error error => .error (.invalidTemplate error)
    | .ok _ => .ok title

/-- Checks the drafts in order and gives each new one the next id. -/
def assignIds (nextId : Nat) (seen : List Nat)
    : List UserPromptDraft → Except UserPromptsSaveError (List UserPrompt × Nat)
  | [] => .ok ([], nextId)
  | draft :: rest => do
      let title ← checkDraft isAlphanumeric draft
      let (id, nextId, seen) ← takeId nextId seen draft.id
      let (prompts, nextId) ← assignIds nextId seen rest
      return (⟨id, title, draft.prompt⟩ :: prompts, nextId)

/-- The new revision, from the stored prompts. -/
def nextRevision (stored : UserPrompts) (expectedRevision : Nat) (drafts : List UserPromptDraft)
    : Except UserPromptsSaveError UserPrompts := do
  if stored.revision ≠ expectedRevision then
    throw (.revisionConflict stored)
  if maxPromptCount < drafts.length then
    throw (.tooManyPrompts maxPromptCount)
  let seen ← checkIds stored.nextId [] drafts
  let (prompts, nextId) ← assignIds isAlphanumeric stored.nextId seen drafts
  if stored.revision + 1 < 2 ^ 64 then
    return ⟨userPromptsSchemaVersion, stored.revision + 1, nextId, prompts⟩
  else
    throw .revisionOverflow

/-- Everything a save does before it writes. -/
def prepareSave (file : Option UserPrompts) (disk : Disk) (expectedRevision : Nat)
    (drafts : List UserPromptDraft) : Except UserPromptsSaveError UserPrompts :=
  match disk.lock with
  | .failed reason => .error (.io reason)
  | .held => .error .busy
  | .acquired => do
      let current ← (loadPrompts file disk.readFailure).mapError UserPromptsLoadError.toSave
      nextRevision isAlphanumeric (current.getD .none) expectedRevision drafts

/-- A save, with the file behind it. -/
def savePrompts (file : Option UserPrompts) (disk : Disk) (expectedRevision : Nat)
    (drafts : List UserPromptDraft)
    : Except UserPromptsSaveError UserPrompts × Option UserPrompts :=
  match prepareSave isAlphanumeric file disk expectedRevision drafts with
  | .error error => (.error error, file)
  | .ok prompts =>
      match disk.write with
      | .written => (.ok prompts, some prompts)
      | .notPersisted reason => (.error (.io reason), file)
      | .renamedUnsynced reason => (.error (.persistedDurabilityUnconfirmed reason), some prompts)

end Saving

end Hane.Ai
