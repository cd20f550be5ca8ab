import Hane.Ai.Json
import Hane.Document.Boundaries
import Hane.Foundations.PlainText
import Mathlib.Data.List.Infix

/-! The collector of one turn's agent messages, and what a text transform makes of its terminal. -/

namespace Hane.Ai

open Hane.Document Hane.Foundations

-- Events and terminals

inductive ProbeErrorCode where
  | invalidConfiguration
  | accountUnavailable
  | modelUnavailable
  | credentialUnavailable
  | ownedElsewhere
  | busy
  | runtimeUnavailable
  | staleGeneration
  | unauthorized
  | forbidden
  | rateLimited
  | network
  | timedOut
  | protocolMismatch
  | notificationOverflow
  | safetyProfileUnsupported
  | providerFailed
  | canceled
  | isolated
  | contextLengthExceeded
deriving DecidableEq

inductive ProbeTerminal where
  | completed (text : Text)
  | failed (code : ProbeErrorCode)
  | interrupted
deriving DecidableEq

inductive RuntimeEventKind where
  | notification (method : String) (params : Option Value)
  | diagnostic (text : String)

structure RuntimeEvent where
  generation : Nat
  kind : RuntimeEventKind

def isToolActivity (itemType : String) : Bool :=
  ["commandExecution", "fileChange", "webSearch", "mcpToolCall", "collabAgentToolCall",
    "imageGeneration", "browser", "computerAction"].contains itemType
  || decide ("tool".toList <:+: itemType.toList.map Char.toLower)

-- Provider errors

/-- The HTTP status among the fields of one object. -/
def statusField (fields : List (String × Value)) : Option Nat :=
  ["httpStatusCode", "statusCode", "status"].findSome? fun key =>
    (((Value.object fields).get key).bind Value.asU64).filter fun status =>
      decide (100 ≤ status ∧ status ≤ 599)

mutual

/-- The first HTTP status anywhere in a value. -/
def statusOf : Value → Option Nat
  | .object fields => (statusField fields).or (statusOfFields fields)
  | .array values => statusOfAll values
  | _ => none

def statusOfAll : List Value → Option Nat
  | [] => none
  | value :: rest => (statusOf value).or (statusOfAll rest)

def statusOfFields : List (String × Value) → Option Nat
  | [] => none
  | (_, value) :: rest => (statusOf value).or (statusOfFields rest)

end

def classifyProviderError (error : Value) : ProbeErrorCode :=
  match error.getStr "codexErrorInfo" with
  | some "unauthorized" => .unauthorized
  | some "rateLimitExceeded" => .rateLimited
  | some "contextWindowExceeded" => .contextLengthExceeded
  | _ =>
      match statusOf error with
      | some 401 => .unauthorized
      | some 403 => .forbidden
      | some 429 => .rateLimited
      | _ => .providerFailed

/-- At most 40 ASCII letters, digits, `_`, `-` and `.` of a value. -/
def safeToken (value : String) : String :=
  let token := (value.toList.filter fun c => c.isAlphanum || ['_', '-', '.'].contains c).take 40
  if token.isEmpty then "none" else String.ofList token

/-- The `codexErrorInfo` names this code knows. -/
def knownErrorInfo (name : String) : Option String :=
  ["unauthorized", "rateLimitExceeded", "contextWindowExceeded", "httpConnectionFailed"].find?
    (· == name)

/-- The name an error is reported under; another name than the known ones becomes `unknown`. -/
def errorInfo (error : Value) : Option String :=
  match error.get "codexErrorInfo" with
  | some (.string name) => some ((knownErrorInfo name).getD "unknown")
  | some (.object fields) =>
      some ((fields.findSome? fun field => knownErrorInfo field.1).getD "unknown")
  | _ => none

/-- A failed turn without the provider's message. -/
def providerErrorCause (method : String) (error : Option Value) : String :=
  let info := (error.bind errorInfo).elim "" (" error_info=" ++ ·)
  let status := (error.bind statusOf).elim "" fun status => " http_status=" ++ toString status
  "provider_turn_failed method=" ++ safeToken method ++ info ++ status

-- The collector

def maxProbeTextBytes : Nat := 8 * 1024

structure ProbeCollector where
  runtimeGeneration : Nat
  threadId : String
  turnId : String
  itemIds : List String
  text : Text
  textBytes : Nat
  maxTextBytes : Nat
  terminal : Option ProbeTerminal
  unsafeToolActivity : Bool
  failOnToolActivity : Bool
  overflowed : Bool
  failureCause : Option String

namespace ProbeCollector

def withMaxTextBytes (generation : Nat) (thread turn : String) (maxTextBytes : Nat)
    : ProbeCollector where
  runtimeGeneration := generation
  threadId := thread
  turnId := turn
  itemIds := []
  text := []
  textBytes := 0
  maxTextBytes := maxTextBytes
  terminal := none
  unsafeToolActivity := false
  failOnToolActivity := true
  overflowed := false
  failureCause := none

def new (generation : Nat) (thread turn : String) : ProbeCollector :=
  withMaxTextBytes generation thread turn maxProbeTextBytes

def allowToolActivity (collector : ProbeCollector) : ProbeCollector :=
  { collector with failOnToolActivity := false }

def textOverflowed (collector : ProbeCollector) : Bool := collector.overflowed

/-- Appends as much of a text as the limit leaves room for, up to a character boundary. -/
def appendBounded (collector : ProbeCollector) (value : Text) : ProbeCollector :=
  let remaining := collector.maxTextBytes - collector.textBytes
  if remaining = 0 then
    { collector with overflowed := collector.overflowed || !value.isEmpty }
  else
    let stop := floorBoundary value (min (utf8Len value) remaining)
    { collector with
      overflowed := collector.overflowed || decide (stop < utf8Len value)
      text := collector.text ++ substring value 0 stop
      textBytes := collector.textBytes + stop }

/-- A terminal that is reached for a reason, which the interruption of a turn does not have. -/
def settle (collector : ProbeCollector) (terminal : ProbeTerminal) (cause : Option String)
    : Option ProbeTerminal × ProbeCollector :=
  (some terminal,
    { collector with
      terminal := some terminal
      failureCause := cause.or collector.failureCause })

/-- The collector after the text of an agent message, unless its item was seen already. -/
def collect (collector : ProbeCollector) (id : String) (text : Option String) : ProbeCollector :=
  if collector.itemIds.contains id then
    collector
  else
    let seen := { collector with itemIds := id :: collector.itemIds }
    match text with
    | none => seen
    | some text => seen.appendBounded text.toList

/-- `item/started` and, where it completes the item, `item/completed`. -/
def observeItem (collector : ProbeCollector) (completes : Bool) (params : Value)
    : Option ProbeTerminal × ProbeCollector :=
  let item := (params.get "item").getD .null
  let itemType := (item.getStr "type").getD ""
  if params.getStr "turnId" ≠ some collector.turnId then
    (none, collector)
  else if isToolActivity itemType then
    (none, { collector with unsafeToolActivity := true })
  else if completes = true ∧ itemType = "agentMessage" then
    match (item.getStr "id").filter (· ≠ "") with
    | none => collector.settle (.failed .protocolMismatch) (some "agent_message_missing_id")
    | some id => (none, collector.collect id (item.getStr "text"))
  else
    (none, collector)

/-- Only states the protocol defines are echoed. -/
def shownStatus (status : String) : String :=
  if ["completed", "failed", "interrupted", "canceled", "inProgress"].contains status then status
  else "unknown"

/-- `turn/completed` and `turn/failed`. -/
def observeTurn (collector : ProbeCollector) (method : String) (params : Value)
    : Option ProbeTerminal × ProbeCollector :=
  let turn := (params.get "turn").getD .null
  let status := (turn.getStr "status").getD ""
  let error := (turn.get "error").filter fun error => !error.isNull
  if turn.getStr "id" ≠ some collector.turnId then
    (none, collector)
  else if collector.unsafeToolActivity && collector.failOnToolActivity then
    collector.settle (.failed .safetyProfileUnsupported) (some "tool_activity_detected")
  else if status = "interrupted" ∨ status = "canceled" then
    collector.settle .interrupted none
  else if method = "turn/completed" ∧ status = "completed" ∧ error.isNone then
    if trim collector.text = [] then
      collector.settle (.failed .protocolMismatch) (some "final_text_empty")
    else
      collector.settle (.completed collector.text) none
  else if error.isSome ∨ status = "failed" ∨ method = "turn/failed" then
    collector.settle (.failed (error.elim .providerFailed classifyProviderError))
      (some (providerErrorCause method error))
  else
    collector.settle (.failed .protocolMismatch)
      (some ("unexpected_turn_status status=" ++ shownStatus status))

def observe (collector : ProbeCollector) (event : RuntimeEvent)
    : Option ProbeTerminal × ProbeCollector :=
  if collector.terminal.isSome ∨ event.generation ≠ collector.runtimeGeneration then
    (collector.terminal, collector)
  else
    match event.kind with
    | .diagnostic _ => (none, collector)
    | .notification method params =>
        let params := params.getD .null
        if params.getStr "threadId" ≠ some collector.threadId then
          (none, collector)
        else if method = "item/started" ∨ method = "item/completed" then
          collector.observeItem (method = "item/completed") params
        else if method = "turn/completed" ∨ method = "turn/failed" then
          collector.observeTurn method params
        else
          (none, collector)

end ProbeCollector

end Hane.Ai
