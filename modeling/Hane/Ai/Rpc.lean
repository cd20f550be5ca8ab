import Hane.Ai.Json
import Hane.Foundations.TextBytes

/-! The transport of the runtime's messages: calls, the reader and the writer thread as they take
turns. What happens under the lock of the pending requests, or on one queue, is one step.
-/

namespace Hane.Ai

open Hane.Foundations

-- Messages

inductive RequestId where
  | number (value : Int)
  | string (text : String)
deriving DecidableEq

/-- The identifier as diagnostics show it. -/
def RequestId.debug : RequestId → String
  | .number value => s!"Number({value})"
  | .string text => s!"String({debugText text})"

structure ErrorObject where
  code : Int
  message : String
  data : Option Value

def ErrorObject.methodNotFound (method : String) : ErrorObject where
  code := -32601
  message := s!"method not found: {method}"
  data := none

/-- A line of the server, by what it says. -/
inductive IncomingMessage where
  | response (id : RequestId) (outcome : Except ErrorObject Value)
  | notification (method : String) (params : Option Value)
  | serverRequest (id : RequestId) (method : String) (params : Option Value)

/-- A line for the server, before it is encoded. -/
inductive OutgoingLine where
  | request (id : RequestId) (method : String) (params : Option Value)
  | notification (method : String) (params : Option Value)
  | response (id : RequestId) (outcome : Except ErrorObject Value)

inductive WriterCommand where
  | line (line : OutgoingLine)
  | close

def WriterCommand.lines : WriterCommand → List OutgoingLine
  | .line sent => [sent]
  | .close => []

inductive RpcError where
  | timeout
  | disconnected
  | backpressure
  | remote (error : ErrorObject)

inductive RpcEvent where
  | notification (method : String) (params : Option Value)
  | diagnostic (text : String)

inductive TrySendError where
  | full
  | disconnected

/-- A request of the server, as it was read. -/
structure ServerRequest where
  id : RequestId
  method : String
  params : Option Value

/-- What the handler answers, by the number of server requests it was given before; nothing if it
panics.
-/
abbrev ServerRequestHandler :=
  Nat → String → Option Value → Option (Except ErrorObject Value)

def rejectAllServerRequests : ServerRequestHandler :=
  fun _ method _ => some (.error (.methodNotFound method))

def isCriticalNotification (method : String) : Bool :=
  ["account/login/completed", "account/updated", "item/completed", "turn/completed",
    "turn/failed"].contains method

def maxPendingRequests : Nat := 256

def writerQueueCapacity : Nat := 256

-- States

/-- Where a call stands: waiting, with what its channel holds; after its timeout, before its entry
is removed; or back at its caller.
-/
inductive CallState where
  | waiting (reply : Option (Except RpcError Value))
  | timedOut
  | returned (result : Except RpcError Value)

/-- A call, with the id its request was queued under. -/
structure CallRecord where
  id : Option RequestId
  state : CallState

/-- Sends to a call; one that no longer waits does not notice, and a first reply stays first. -/
def CallRecord.accept (result : Except RpcError Value) (record : CallRecord) : CallRecord :=
  match record.state with
  | .waiting none => { record with state := .waiting (some result) }
  | _ => record

/-- What the reader thread is about to do. -/
inductive Reader where
  | idle
  | holding (message : Except String IncomingMessage)
  | delivering (call : Nat) (result : Except RpcError Value)
  | answering (request : ServerRequest) (outcome : Except ErrorObject Value)
  | dropping (request : ServerRequest)
  | reporting (text : String)
  | closing
  | ended

def Reader.receiver : Reader → Option Nat
  | .delivering call _ => some call
  | _ => none

/-- What became of a server request: its reply was queued, or it was dropped and a diagnostic about
that was taken or not, or the handler panicked on it.
-/
inductive Fate where
  | queued (outcome : Except ErrorObject Value)
  | dropped (reported : Bool)
  | panicked

/-- The pending requests name their calls by number; there are none once the core is closed. The
last four fields record what happened and are read by no step.
-/
structure RpcState where
  pending : Option (List (RequestId × Nat))
  nextId : Int
  queue : List WriterCommand
  writerAlive : Bool
  events : List RpcEvent
  eventsAlive : Bool
  criticalOverflow : Bool
  reader : Reader
  calls : List CallRecord
  sent : List OutgoingLine
  notices : List (Except RpcError Unit)
  requests : List ServerRequest
  served : List (ServerRequest × Fate)

namespace RpcState

def spawn : RpcState where
  pending := some []
  nextId := 1
  queue := []
  writerAlive := true
  events := []
  eventsAlive := true
  criticalOverflow := false
  reader := .idle
  calls := []
  sent := []
  notices := []
  requests := []
  served := []

def isOpen (state : RpcState) : Bool := state.pending.isSome

/-- `try_send` on the writer's queue. -/
def trySend (state : RpcState) (command : WriterCommand) : Except TrySendError RpcState :=
  if state.writerAlive = false then
    .error .disconnected
  else if writerQueueCapacity ≤ state.queue.length then
    .error .full
  else
    .ok
      { state with
        queue := state.queue ++ [command]
        sent := state.sent ++ command.lines }

/-- `try_send` on the queue of events; the flag says whether the event was taken. -/
def tryEvent (capacity : Nat) (state : RpcState) (event : RpcEvent) : Bool × RpcState :=
  if state.eventsAlive && decide (state.events.length < capacity) then
    (true, { state with events := state.events ++ [event] })
  else
    (false, state)

-- Calls

/-- A call that returns before it has registered anything. -/
def refuse (state : RpcState) (error : RpcError) : RpcState :=
  { state with calls := state.calls ++ [⟨none, .returned (.error error)⟩] }

/-- The locked part of `call`. -/
def call (state : RpcState) (method : String) (params : Option Value) : RpcState :=
  match state.pending with
  | none => state.refuse .disconnected
  | some entries =>
      if maxPendingRequests ≤ entries.length then
        state.refuse .backpressure
      else
        match { state with nextId := state.nextId + 1 }.trySend
            (.line (.request (.number state.nextId) method params)) with
        | .error .full => { state with nextId := state.nextId + 1 }.refuse .backpressure
        | .error .disconnected => { state with nextId := state.nextId + 1 }.refuse .disconnected
        | .ok queued =>
            { queued with
              pending := some ((.number state.nextId, state.calls.length) :: entries)
              calls := state.calls ++ [⟨some (.number state.nextId), .waiting none⟩] }

/-- Whether something may still send to a call. -/
def hasSender (state : RpcState) (call : Nat) : Bool :=
  ((state.pending.getD []).any fun entry => entry.2 == call)
  || state.reader.receiver == some call

def setCall (state : RpcState) (call : Nat) (next : CallState) : RpcState :=
  { state with calls := state.calls.modify call fun record => { record with state := next } }

/-- A call takes what its channel holds; without a sender there will never be anything. -/
def receive (state : RpcState) (call : Nat) : Option RpcState :=
  match (state.calls[call]?).map CallRecord.state with
  | some (.waiting (some result)) => some (state.setCall call (.returned result))
  | some (.waiting none) =>
      if state.hasSender call then none
      else some (state.setCall call (.returned (.error .disconnected)))
  | _ => none

/-- The timeout of a call whose channel is empty. -/
def expire (state : RpcState) (call : Nat) : Option RpcState :=
  match (state.calls[call]?).map CallRecord.state with
  | some (.waiting none) => some (state.setCall call .timedOut)
  | _ => none

def removePending (state : RpcState) (id : RequestId) : RpcState :=
  { state with pending := state.pending.map fun entries => entries.filter (·.1 ≠ id) }

/-- A call that timed out removes its entry and returns. -/
def forget (state : RpcState) (call : Nat) : Option RpcState :=
  match state.calls[call]? with
  | some ⟨some id, .timedOut⟩ =>
      some ((state.removePending id).setCall call (.returned (.error .timeout)))
  | _ => none

def notify (state : RpcState) (method : String) (params : Option Value) : RpcState :=
  if state.isOpen = false then
    { state with notices := state.notices ++ [.error .disconnected] }
  else
    match state.trySend (.line (.notification method params)) with
    | .error .full => { state with notices := state.notices ++ [.error .backpressure] }
    | .error .disconnected => { state with notices := state.notices ++ [.error .disconnected] }
    | .ok queued => { queued with notices := state.notices ++ [.ok ()] }

-- Closing

def markClosed (state : RpcState) : RpcState :=
  match state.pending with
  | none => state
  | some entries =>
      { state with
        pending := none
        calls :=
          entries.foldl
            (fun calls entry => calls.modify entry.2 (.accept (.error .disconnected)))
            state.calls }

def closeWriter (state : RpcState) : RpcState :=
  match state.trySend .close with
  | .ok queued => queued
  | .error _ => state

-- The reader

/-- Reads a line that is not blank. -/
def read (state : RpcState) (message : Except String IncomingMessage) : Option RpcState :=
  match state.reader with
  | .idle =>
      some
        { state with
          reader := .holding message
          requests :=
            match message with
            | .ok (.serverRequest id method params) => state.requests ++ [⟨id, method, params⟩]
            | _ => state.requests }
  | _ => none

/-- `send_event`. -/
def sendNotification (capacity : Nat) (state : RpcState) (method : String)
    (params : Option Value) : RpcState :=
  let outcome := tryEvent capacity state (.notification method params)
  if !outcome.1 && isCriticalNotification method then
    { outcome.2 with criticalOverflow := true }
  else
    outcome.2

/-- Takes up the message read last. -/
def takeUp (handler : ServerRequestHandler) (capacity : Nat) (state : RpcState)
    : Option RpcState :=
  match state.reader with
  | .holding (.ok (.response id outcome)) =>
      match (state.pending.getD []).find? (·.1 == id) with
      | some (_, call) =>
          some
            { state.removePending id with
              reader := .delivering call (outcome.mapError RpcError.remote) }
      | none =>
          some { state with reader := .reporting s!"late or unknown response id={id.debug}" }
  | .holding (.ok (.notification method params)) =>
      some { sendNotification capacity state method params with reader := .idle }
  | .holding (.ok (.serverRequest id method params)) =>
      match handler state.served.length method params with
      | some outcome => some { state with reader := .answering ⟨id, method, params⟩ outcome }
      | none =>
          -- The panic unwinds the reader into its cleanup guard.
          some
            { state with
              reader := .closing
              served := state.served ++ [(⟨id, method, params⟩, .panicked)] }
  | .holding (.error problem) =>
      some { state with reader := .reporting s!"malformed message ignored: {problem}" }
  | _ => none

def deliver (state : RpcState) : Option RpcState :=
  match state.reader with
  | .delivering call result =>
      some { state with reader := .idle, calls := state.calls.modify call (.accept result) }
  | _ => none

/-- `try_send_if_open` for a reply. -/
def answer (state : RpcState) : Option RpcState :=
  match state.reader with
  | .answering request outcome =>
      if state.isOpen = false then
        some { state with reader := .dropping request }
      else
        match state.trySend (.line (.response request.id outcome)) with
        | .error _ => some { state with reader := .dropping request }
        | .ok queued =>
            some
              { queued with
                reader := .idle
                served := state.served ++ [(request, .queued outcome)] }
  | _ => none

def dropDiagnostic (id : RequestId) : RpcEvent :=
  .diagnostic s!"dropped reply to server request id={id.debug}: outgoing queue full or closed"

/-- Tries to hand on the diagnostic the reader is about to report. -/
def report (capacity : Nat) (state : RpcState) : Option RpcState :=
  match state.reader with
  | .reporting text =>
      some { (tryEvent capacity state (.diagnostic text)).2 with reader := .idle }
  | .dropping request =>
      let outcome := tryEvent capacity state (dropDiagnostic request.id)
      some
        { outcome.2 with
          reader := .idle
          served := state.served ++ [(request, .dropped outcome.1)] }
  | _ => none

def endOfStream (state : RpcState) : Option RpcState :=
  match state.reader with
  | .idle => some { state with reader := .closing }
  | _ => none

def readerCloses (state : RpcState) : Option RpcState :=
  match state.reader with
  | .closing => some { state.markClosed with reader := .ended }
  | _ => none

-- The other threads

/-- The writer takes the next command, and ends on `close` or when the write fails. -/
def write (state : RpcState) (fails : Bool) : Option RpcState :=
  if state.writerAlive = false then
    none
  else
    match state.queue with
    | [] => none
    | .close :: _ => some { state with queue := [], writerAlive := false }
    | .line _ :: rest =>
        if fails then some { state with queue := [], writerAlive := false }
        else some { state with queue := rest }

/-- The owner takes an event. -/
def takeEvent (state : RpcState) : Option RpcState :=
  match state.events with
  | [] => none
  | _ :: rest => some { state with events := rest }

end RpcState

inductive RpcAction where
  | call (method : String) (params : Option Value)
  | receive (call : Nat)
  | expire (call : Nat)
  | forget (call : Nat)
  | notify (method : String) (params : Option Value)
  | read (message : Except String IncomingMessage)
  | takeUp
  | deliver
  | answer
  | report
  | endOfStream
  | readerCloses
  | write (fails : Bool)
  | shutdown
  | closeWriter
  | stderrLine (text : String)
  | takeEvent
  | dropEvents

/-- One step of any thread. `request_shutdown` is `shutdown` and then `closeWriter`. -/
def RpcState.step (handler : ServerRequestHandler) (capacity : Nat) (state : RpcState)
    : RpcAction → Option RpcState
  | .call method params => some (state.call method params)
  | .receive call => state.receive call
  | .expire call => state.expire call
  | .forget call => state.forget call
  | .notify method params => some (state.notify method params)
  | .read message => state.read message
  | .takeUp => state.takeUp handler capacity
  | .deliver => state.deliver
  | .answer => state.answer
  | .report => state.report capacity
  | .endOfStream => state.endOfStream
  | .readerCloses => state.readerCloses
  | .write fails => state.write fails
  | .shutdown => some state.markClosed
  | .closeWriter => some state.closeWriter
  | .stderrLine text => some (state.tryEvent capacity (.diagnostic s!"stderr: {text}")).2
  | .takeEvent => state.takeEvent
  | .dropEvents => some { state with events := [], eventsAlive := false }

end Hane.Ai
