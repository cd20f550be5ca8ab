import Hane.Ai.Rpc
import Mathlib.Data.List.Basic
import Mathlib.Data.List.Nodup

/-! What one step of any thread does to the calls of the transport, and that their ids and entries
stay in order.
-/

namespace Hane.Ai

namespace RpcState

variable {handler : ServerRequestHandler} {capacity : Nat} {state next : RpcState}
  {action : RpcAction}

-- The queues

theorem trySend_ok {command : WriterCommand} (sends : state.trySend command = .ok next)
    : next =
        { state with
          queue := state.queue ++ [command]
          sent := state.sent ++ command.lines } := by
  unfold trySend at sends
  split at sends
  · cases sends
  · split at sends
    · cases sends
    · exact (Except.ok.inj sends).symm

theorem tryEvent_cases (capacity : Nat) (state : RpcState) (event : RpcEvent)
    : state.eventsAlive = true
        ∧ state.events.length < capacity
        ∧ state.tryEvent capacity event = (true, { state with events := state.events ++ [event] })
      ∨ ¬(state.eventsAlive = true ∧ state.events.length < capacity)
        ∧ state.tryEvent capacity event = (false, state) := by
  unfold tryEvent
  by_cases room : state.eventsAlive = true ∧ state.events.length < capacity
  · exact .inl ⟨room.1, room.2, by simp [room.1, room.2]⟩
  · exact .inr ⟨room, by simpa using fun alive short => room ⟨alive, short⟩⟩

theorem tryEvent_snd (capacity : Nat) (state : RpcState) (event : RpcEvent)
    : ∃ events, (state.tryEvent capacity event).2 = { state with events := events } := by
  rcases tryEvent_cases capacity state event with ⟨-, -, taken⟩ | ⟨-, refused⟩
  · exact ⟨_, congrArg Prod.snd taken⟩
  · exact ⟨state.events, congrArg Prod.snd refused⟩

theorem sendNotification_eq (capacity : Nat) (state : RpcState) (method : String)
    (params : Option Value)
    : ∃ events overflow,
        sendNotification capacity state method params
          = { state with events := events, criticalOverflow := overflow } := by
  obtain ⟨events, taken⟩ := tryEvent_snd capacity state (.notification method params)
  rw [sendNotification, taken]
  split
  · exact ⟨events, true, rfl⟩
  · exact ⟨events, state.criticalOverflow, rfl⟩

-- One step

/-- A step that touches no call: what the calls and their entries rest on is as before. -/
structure Quiet (state next : RpcState) : Prop where
  calls : next.calls = state.calls
  pending : next.pending = state.pending
  nextId : next.nextId = state.nextId
  sent : state.sent <+: next.sent
  reader : next.reader = state.reader
    ∨ state.reader.receiver = none ∧ next.reader.receiver = none

/-- The call whose own thread acts, after the call is queued. -/
def turnOf : RpcAction → Option Nat
  | .receive call => some call
  | .expire call => some call
  | .forget call => some call
  | _ => none

/-- What a step does to the calls. -/
inductive CallStep (state : RpcState) : RpcAction → RpcState → Prop
  | quiet {action : RpcAction} {next : RpcState}
      : turnOf action = none → Quiet state next → CallStep state action next
  | refused {method : String} {params : Option Value} {error : RpcError} {nextId : Int}
      : (error = .disconnected ∨ error = .backpressure ∧ state.isOpen = true)
        → state.nextId ≤ nextId
        → CallStep state (.call method params) ({ state with nextId := nextId }.refuse error)
  | queued {method : String} {params : Option Value} {entries : List (RequestId × Nat)}
      {queue : List WriterCommand}
      : state.pending = some entries
        → entries.length < maxPendingRequests
        → CallStep state (.call method params)
            { state with
              pending := some ((.number state.nextId, state.calls.length) :: entries)
              nextId := state.nextId + 1
              queue := queue
              calls := state.calls ++ [⟨some (.number state.nextId), .waiting none⟩]
              sent := state.sent ++ [.request (.number state.nextId) method params] }
  | received {call : Nat} {id : Option RequestId} {result : Except RpcError Value}
      : state.calls[call]? = some ⟨id, .waiting (some result)⟩
        → CallStep state (.receive call) (state.setCall call (.returned result))
  | orphaned {call : Nat} {id : Option RequestId}
      : state.calls[call]? = some ⟨id, .waiting none⟩
        → state.hasSender call = false
        → CallStep state (.receive call) (state.setCall call (.returned (.error .disconnected)))
  | expired {call : Nat} {id : Option RequestId}
      : state.calls[call]? = some ⟨id, .waiting none⟩
        → CallStep state (.expire call) (state.setCall call .timedOut)
  | forgotten {call : Nat} {id : RequestId}
      : state.calls[call]? = some ⟨some id, .timedOut⟩
        → CallStep state (.forget call)
            ((state.removePending id).setCall call (.returned (.error .timeout)))
  | matched {id : RequestId} {outcome : Except ErrorObject Value} {call : Nat}
      : state.reader = .holding (.ok (.response id outcome))
        → (id, call) ∈ state.pending.getD []
        → CallStep state .takeUp
            { state.removePending id with
              reader := .delivering call (outcome.mapError RpcError.remote) }
  | delivered {call : Nat} {result : Except RpcError Value}
      : state.reader = .delivering call result
        → CallStep state .deliver
            { state with
              reader := .idle
              calls := state.calls.modify call (.accept result) }
  | closed {action : RpcAction} {entries : List (RequestId × Nat)} {reader : Reader}
      : turnOf action = none
        → state.pending = some entries
        → (reader = state.reader ∨ state.reader.receiver = none ∧ reader.receiver = none)
        → CallStep state action { state.markClosed with reader := reader }

theorem call_cases (method : String) (params : Option Value)
    : CallStep state (.call method params) (state.call method params) := by
  unfold call
  split
  · exact .refused (.inl rfl) (Int.le_refl state.nextId)
  case h_2 entries pending =>
    have isOpen : state.isOpen = true := by rw [RpcState.isOpen, pending, Option.isSome_some]
    by_cases full : maxPendingRequests ≤ entries.length
    · rw [if_pos full]
      exact .refused (.inr ⟨rfl, isOpen⟩) (Int.le_refl state.nextId)
    · rw [if_neg full]
      have grows : state.nextId ≤ state.nextId + 1 := by omega
      split
      · exact .refused (.inr ⟨rfl, isOpen⟩) grows
      · exact .refused (.inl rfl) grows
      case h_3 after sends =>
        cases trySend_ok sends
        exact .queued pending (Nat.lt_of_not_le full)

theorem receive_cases {call : Nat} (receives : state.receive call = some next)
    : CallStep state (.receive call) next := by
  unfold receive at receives
  cases found : state.calls[call]? with
  | none =>
      rw [found] at receives
      cases receives
  | some record =>
      obtain ⟨id, stage⟩ := record
      rw [found] at receives
      cases stage with
      | waiting reply =>
          cases reply with
          | some result =>
              cases receives
              exact .received found
          | none =>
              cases sender : state.hasSender call with
              | true => simp [sender] at receives
              | false =>
                  simp only [Option.map_some, sender] at receives
                  cases receives
                  exact .orphaned found sender
      | timedOut => cases receives
      | returned result => cases receives

theorem expire_cases {call : Nat} (expires : state.expire call = some next)
    : CallStep state (.expire call) next := by
  unfold expire at expires
  cases found : state.calls[call]? with
  | none =>
      rw [found] at expires
      cases expires
  | some record =>
      obtain ⟨id, stage⟩ := record
      rw [found] at expires
      cases stage with
      | waiting reply =>
          cases reply with
          | some result => cases expires
          | none =>
              cases expires
              exact .expired found
      | timedOut => cases expires
      | returned result => cases expires

theorem forget_cases {call : Nat} (forgets : state.forget call = some next)
    : CallStep state (.forget call) next := by
  unfold forget at forgets
  split at forgets
  case h_1 id found =>
    cases forgets
    exact .forgotten found
  · cases forgets

theorem markClosed_none (closed : state.pending = none) : state.markClosed = state := by
  rw [markClosed, closed]

theorem markClosed_some {entries : List (RequestId × Nat)} (pending : state.pending = some entries)
    : state.markClosed =
        { state with
          pending := none
          calls :=
            entries.foldl
              (fun calls entry => calls.modify entry.2 (.accept (.error .disconnected)))
              state.calls } := by
  rw [markClosed, pending]

theorem markClosed_reader : state.markClosed.reader = state.reader := by
  rw [markClosed]
  split <;> rfl

theorem markClosed_nextId : state.markClosed.nextId = state.nextId := by
  rw [markClosed]
  split <;> rfl

theorem markClosed_sent : state.markClosed.sent = state.sent := by
  rw [markClosed]
  split <;> rfl

theorem markClosed_cases {reader : Reader} (other : turnOf action = none)
    (same : reader = state.reader ∨ state.reader.receiver = none ∧ reader.receiver = none)
    : CallStep state action { state.markClosed with reader := reader } := by
  cases pending : state.pending with
  | none =>
      rw [markClosed_none pending]
      exact .quiet other ⟨rfl, rfl, rfl, List.prefix_rfl, same⟩
  | some entries => exact .closed other pending same

theorem takeUp_cases (takes : state.takeUp handler capacity = some next)
    : CallStep state .takeUp next := by
  unfold takeUp at takes
  split at takes
  case h_1 id outcome holds =>
    split at takes
    case h_1 key call found =>
      cases takes
      obtain rfl : key = id := by simpa using List.find?_some found
      exact .matched holds (List.mem_of_find?_eq_some found)
    case h_2 =>
      cases takes
      exact .quiet rfl ⟨rfl, rfl, rfl, List.prefix_rfl, .inr ⟨by rw [holds]; rfl, rfl⟩⟩
  case h_2 method params holds =>
    cases takes
    obtain ⟨events, overflow, taken⟩ := sendNotification_eq capacity state method params
    rw [taken]
    exact .quiet rfl ⟨rfl, rfl, rfl, List.prefix_rfl, .inr ⟨by rw [holds]; rfl, rfl⟩⟩
  case h_3 id method params holds =>
    split at takes
    · cases takes
      exact .quiet rfl ⟨rfl, rfl, rfl, List.prefix_rfl, .inr ⟨by rw [holds]; rfl, rfl⟩⟩
    · cases takes
      exact .quiet rfl ⟨rfl, rfl, rfl, List.prefix_rfl, .inr ⟨by rw [holds]; rfl, rfl⟩⟩
  case h_4 problem holds =>
    cases takes
    exact .quiet rfl ⟨rfl, rfl, rfl, List.prefix_rfl, .inr ⟨by rw [holds]; rfl, rfl⟩⟩
  · cases takes

theorem notify_cases (method : String) (params : Option Value)
    : Quiet state (state.notify method params) := by
  unfold notify
  split
  · exact ⟨rfl, rfl, rfl, List.prefix_rfl, .inl rfl⟩
  · split
    · exact ⟨rfl, rfl, rfl, List.prefix_rfl, .inl rfl⟩
    · exact ⟨rfl, rfl, rfl, List.prefix_rfl, .inl rfl⟩
    case h_3 after sends =>
      cases trySend_ok sends
      exact ⟨rfl, rfl, rfl, List.prefix_append .., .inl rfl⟩

theorem closeWriter_cases : Quiet state state.closeWriter := by
  unfold closeWriter
  split
  case h_1 after sends =>
    cases trySend_ok sends
    exact ⟨rfl, rfl, rfl, List.prefix_append .., .inl rfl⟩
  · exact ⟨rfl, rfl, rfl, List.prefix_rfl, .inl rfl⟩

theorem answer_cases (answers : state.answer = some next) : Quiet state next := by
  unfold answer at answers
  split at answers
  case h_1 id outcome holds =>
    have free : state.reader.receiver = none := by rw [holds]; rfl
    split at answers
    · cases answers
      exact ⟨rfl, rfl, rfl, List.prefix_rfl, .inr ⟨free, rfl⟩⟩
    · split at answers
      · cases answers
        exact ⟨rfl, rfl, rfl, List.prefix_rfl, .inr ⟨free, rfl⟩⟩
      case h_2 after sends =>
        cases trySend_ok sends
        cases answers
        exact ⟨rfl, rfl, rfl, List.prefix_append .., .inr ⟨free, rfl⟩⟩
  · cases answers

theorem report_cases (reports : state.report capacity = some next)
    : (∃ text events,
        state.reader = .reporting text ∧ next = { state with events := events, reader := .idle })
      ∨ ∃ request,
          state.reader = .dropping request
          ∧ next =
              { (state.tryEvent capacity (dropDiagnostic request.id)).2 with
                reader := .idle
                served :=
                  state.served
                  ++ [(request,
                    .dropped (state.tryEvent capacity (dropDiagnostic request.id)).1)] } := by
  unfold report at reports
  split at reports
  case h_1 text holds =>
    obtain ⟨events, taken⟩ := tryEvent_snd capacity state (.diagnostic text)
    rw [taken] at reports
    cases reports
    exact .inl ⟨text, events, holds, rfl⟩
  case h_2 request holds => exact .inr ⟨request, holds, (Option.some.inj reports).symm⟩
  · cases reports

theorem report_quiet (reports : state.report capacity = some next) : Quiet state next := by
  rcases report_cases reports with ⟨text, events, holds, rfl⟩ | ⟨request, holds, rfl⟩
  · exact ⟨rfl, rfl, rfl, List.prefix_rfl, .inr ⟨by rw [holds]; rfl, rfl⟩⟩
  · obtain ⟨events, taken⟩ := tryEvent_snd capacity state (dropDiagnostic request.id)
    rw [taken]
    exact ⟨rfl, rfl, rfl, List.prefix_rfl, .inr ⟨by rw [holds]; rfl, rfl⟩⟩

theorem write_cases {fails : Bool} (writes : state.write fails = some next)
    : Quiet state next := by
  unfold write at writes
  repeat' split at writes
  all_goals
    cases writes
    try exact ⟨rfl, rfl, rfl, List.prefix_rfl, .inl rfl⟩

/-- What a step does to the calls, action by action. -/
theorem step_cases (moved : state.step handler capacity action = some next)
    : CallStep state action next := by
  cases action with
  | call method params =>
      cases moved
      exact call_cases method params
  | receive call => exact receive_cases moved
  | expire call => exact expire_cases moved
  | forget call => exact forget_cases moved
  | notify method params =>
      cases moved
      exact .quiet rfl (notify_cases method params)
  | read message =>
      simp only [step, read] at moved
      split at moved
      case h_1 idle =>
        cases moved
        exact .quiet rfl ⟨rfl, rfl, rfl, List.prefix_rfl, .inr ⟨by rw [idle]; rfl, rfl⟩⟩
      · cases moved
  | takeUp => exact takeUp_cases moved
  | deliver =>
      simp only [step, deliver] at moved
      split at moved
      case h_1 call result holds =>
        cases moved
        exact .delivered holds
      · cases moved
  | answer => exact .quiet rfl (answer_cases moved)
  | report => exact .quiet rfl (report_quiet moved)
  | endOfStream =>
      simp only [step, endOfStream] at moved
      split at moved
      case h_1 idle =>
        cases moved
        exact .quiet rfl ⟨rfl, rfl, rfl, List.prefix_rfl, .inr ⟨by rw [idle]; rfl, rfl⟩⟩
      · cases moved
  | readerCloses =>
      simp only [step, readerCloses] at moved
      split at moved
      case h_1 closing =>
        cases moved
        exact markClosed_cases rfl (.inr ⟨by rw [closing]; rfl, rfl⟩)
      · cases moved
  | write fails => exact .quiet rfl (write_cases moved)
  | shutdown =>
      cases moved
      have closed : CallStep state .shutdown { state.markClosed with reader := state.reader } :=
        markClosed_cases rfl (.inl rfl)
      rwa [← markClosed_reader] at closed
  | closeWriter =>
      cases moved
      exact .quiet rfl closeWriter_cases
  | stderrLine text =>
      cases moved
      obtain ⟨events, taken⟩ := tryEvent_snd capacity state (.diagnostic s!"stderr: {text}")
      rw [taken]
      exact .quiet rfl ⟨rfl, rfl, rfl, List.prefix_rfl, .inl rfl⟩
  | takeEvent =>
      simp only [step, takeEvent] at moved
      split at moved
      · cases moved
      · cases moved
        exact .quiet rfl ⟨rfl, rfl, rfl, List.prefix_rfl, .inl rfl⟩
  | dropEvents =>
      cases moved
      exact .quiet rfl ⟨rfl, rfl, rfl, List.prefix_rfl, .inl rfl⟩

-- One call

end RpcState

/-- How a call moves in one step, if it moves at all. -/
inductive CallState.Leads : CallState → CallState → Prop
  | stays (stage : CallState) : Leads stage stage
  | answered (result : Except RpcError Value) : Leads (.waiting none) (.waiting (some result))
  | received (result : Except RpcError Value)
      : Leads (.waiting (some result)) (.returned result)
  | orphaned : Leads (.waiting none) (.returned (.error .disconnected))
  | expired : Leads (.waiting none) .timedOut
  | forgotten : Leads .timedOut (.returned (.error .timeout))

namespace CallRecord

variable {result : Except RpcError Value} {record : CallRecord}

theorem accept_id : (record.accept result).id = record.id := by
  unfold accept
  split <;> rfl

theorem accept_waiting {id : Option RequestId}
    : accept result ⟨id, .waiting none⟩ = ⟨id, .waiting (some result)⟩ := rfl

theorem accept_other (settled : record.state ≠ .waiting none)
    : record.accept result = record := by
  unfold accept
  split
  case h_1 waits => exact absurd waits settled
  · rfl

theorem accept_leads : record.state.Leads (record.accept result).state := by
  obtain ⟨id, stage⟩ := record
  by_cases waits : stage = .waiting none
  · subst waits
    exact .answered result
  · rw [accept_other waits]
    exact .stays stage

theorem accept_settles : (record.accept result).state ≠ .waiting none := by
  obtain ⟨id, stage⟩ := record
  by_cases waits : stage = .waiting none
  · subst waits
    rintro ⟨⟩
  · rw [accept_other waits]
    exact waits

/-- Only the first reply counts. -/
theorem accept_accept : (record.accept result).accept result = record.accept result := by
  obtain ⟨id, stage⟩ := record
  by_cases waits : stage = .waiting none
  · subst waits
    rfl
  · have kept : accept result ⟨id, stage⟩ = ⟨id, stage⟩ := accept_other waits
    rw [kept, kept]

/-- Replies to all entries reach the calls they name, by induction on the entries. -/
theorem acceptAll_getElem? {entries : List (RequestId × Nat)} {calls : List CallRecord}
    {call : Nat} (found : calls[call]? = some record)
    : (entries.foldl (fun calls entry => calls.modify entry.2 (accept result)) calls)[call]?
      = some (if call ∈ entries.map Prod.snd then record.accept result else record) := by
  induction entries generalizing calls record with
  | nil => exact found
  | cons entry rest ih =>
      rw [List.foldl_cons, List.map_cons]
      by_cases same : entry.2 = call
      · subst same
        have first : (calls.modify entry.2 (accept result))[entry.2]?
            = some (record.accept result) := by
          rw [List.getElem?_modify_eq, found]
          rfl
        rw [ih first, accept_accept, ite_self, if_pos List.mem_cons_self]
      · have first : (calls.modify entry.2 (accept result))[call]? = some record := by
          rw [List.getElem?_modify_ne _ _ same, found]
        have members : call ∈ entry.2 :: rest.map Prod.snd ↔ call ∈ rest.map Prod.snd := by
          rw [List.mem_cons]
          exact or_iff_right (Ne.symm same)
        rw [ih first]
        simp only [members]

theorem acceptAll_length (entries : List (RequestId × Nat)) (calls : List CallRecord)
    : (entries.foldl (fun calls entry => calls.modify entry.2 (accept result)) calls).length
      = calls.length := by
  induction entries generalizing calls with
  | nil => rfl
  | cons entry rest ih => rw [List.foldl_cons, ih, List.length_modify]

end CallRecord

namespace RpcState

variable {handler : ServerRequestHandler} {capacity : Nat} {state next : RpcState}
  {action : RpcAction}

theorem setCall_getElem?_self {call : Nat} {record : CallRecord} {stage : CallState}
    (found : state.calls[call]? = some record)
    : (state.setCall call stage).calls[call]? = some ⟨record.id, stage⟩ := by
  rw [setCall, List.getElem?_modify_eq, found]
  rfl

theorem setCall_getElem?_ne {call other : Nat} {stage : CallState} (apart : call ≠ other)
    : (state.setCall call stage).calls[other]? = state.calls[other]? :=
  List.getElem?_modify_ne _ _ apart

theorem setCall_leads {call other : Nat} {id : Option RequestId} {before after : CallState}
    {record : CallRecord} (found : state.calls[call]? = some ⟨id, before⟩)
    (leads : before.Leads after) (member : state.calls[other]? = some record)
    : ∃ stage,
        (state.setCall call after).calls[other]? = some ⟨record.id, stage⟩
        ∧ record.state.Leads stage := by
  by_cases same : call = other
  · subst same
    obtain rfl : ⟨id, before⟩ = record := Option.some.inj (found.symm.trans member)
    exact ⟨after, setCall_getElem?_self found, leads⟩
  · exact ⟨record.state, (setCall_getElem?_ne same).trans member, .stays record.state⟩

theorem CallStep.kept {call : Nat} {record : CallRecord} (moved : CallStep state action next)
    (found : state.calls[call]? = some record)
    : ∃ stage, next.calls[call]? = some ⟨record.id, stage⟩ ∧ record.state.Leads stage := by
  have short : call < state.calls.length := (List.getElem?_eq_some_iff.mp found).1
  cases moved with
  | quiet _ quiet => exact ⟨record.state, by rw [quiet.calls, found], .stays record.state⟩
  | refused =>
      refine ⟨record.state, ?_, .stays record.state⟩
      exact (List.getElem?_append_left short).trans found
  | queued =>
      refine ⟨record.state, ?_, .stays record.state⟩
      exact (List.getElem?_append_left short).trans found
  | received held => exact setCall_leads held (.received _) found
  | orphaned held => exact setCall_leads held .orphaned found
  | expired held => exact setCall_leads held .expired found
  | forgotten held =>
      exact @setCall_leads (state.removePending _) _ _ _ _ _ _ held .forgotten found
  | matched => exact ⟨record.state, found, .stays record.state⟩
  | @delivered other result =>
      by_cases same : other = call
      · subst same
        refine ⟨(record.accept result).state, ?_, CallRecord.accept_leads⟩
        rw [← @CallRecord.accept_id result, List.getElem?_modify_eq, found]
        rfl
      · have other := (List.getElem?_modify_ne (.accept result) state.calls same).trans found
        exact ⟨record.state, other, .stays record.state⟩
  | @closed _ entries reader _ pending =>
      rw [markClosed_some pending]
      dsimp only
      rw [CallRecord.acceptAll_getElem? found]
      by_cases member : call ∈ entries.map Prod.snd
      · rw [if_pos member]
        refine ⟨(record.accept (.error .disconnected)).state, ?_, CallRecord.accept_leads⟩
        rw [← @CallRecord.accept_id (.error .disconnected)]
      · rw [if_neg member]
        exact ⟨record.state, rfl, .stays record.state⟩

theorem CallStep.nextId_le (moved : CallStep state action next) : state.nextId ≤ next.nextId := by
  cases moved with
  | quiet _ quiet => exact Int.le_of_eq quiet.nextId.symm
  | refused _ grows => exact grows
  | queued => exact Int.le_add_one (Int.le_refl state.nextId)
  | closed => exact Int.le_of_eq markClosed_nextId.symm
  | _ => exact Int.le_refl state.nextId

theorem CallStep.sent_prefix (moved : CallStep state action next) : state.sent <+: next.sent := by
  cases moved with
  | quiet _ quiet => exact quiet.sent
  | queued => exact List.prefix_append ..
  | closed =>
      have same : state.markClosed.sent = state.sent := markClosed_sent
      exact same ▸ List.prefix_rfl
  | _ => exact List.prefix_rfl

/-- A record that a call leaves when it is made. -/
inductive Made (state next : RpcState) : CallRecord → Prop
  | refused {error : RpcError}
      : (error = .disconnected ∨ error = .backpressure ∧ state.isOpen = true)
        → Made state next ⟨none, .returned (.error error)⟩
  | queued {method : String} {params : Option Value}
      : state.isOpen = true
        → next.nextId = state.nextId + 1
        → .request (.number state.nextId) method params ∈ next.sent
        → Made state next ⟨some (.number state.nextId), .waiting none⟩

theorem CallStep.back {call : Nat} {record : CallRecord} (moved : CallStep state action next)
    (found : next.calls[call]? = some record)
    : (∃ stage, state.calls[call]? = some ⟨record.id, stage⟩ ∧ stage.Leads record.state)
      ∨ call = state.calls.length ∧ Made state next record := by
  cases before : state.calls[call]? with
  | some old =>
      obtain ⟨stage, kept, leads⟩ := moved.kept before
      obtain rfl : ⟨old.id, stage⟩ = record := Option.some.inj (kept.symm.trans found)
      exact .inl ⟨old.state, rfl, leads⟩
  | none =>
      have long : state.calls.length ≤ call := List.getElem?_eq_none_iff.mp before
      have last {new : CallRecord} (found : (state.calls ++ [new])[call]? = some record)
          : call = state.calls.length ∧ new = record := by
        rw [List.getElem?_append_right long] at found
        have short := (List.getElem?_eq_some_iff.mp found).1
        rw [List.length_singleton] at short
        obtain zero : call - state.calls.length = 0 := by omega
        rw [zero] at found
        exact ⟨by omega, Option.some.inj found⟩
      have same {calls : List CallRecord} (length : calls.length = state.calls.length)
          (found : calls[call]? = some record) : False := by
        have short := (List.getElem?_eq_some_iff.mp found).1
        omega
      refine .inr ?_
      cases moved with
      | quiet _ quiet =>
          rw [quiet.calls] at found
          exact (same rfl found).elim
      | refused cause =>
          obtain ⟨here, rfl⟩ := last found
          exact ⟨here, .refused cause⟩
      | queued pending =>
          obtain ⟨here, rfl⟩ := last found
          refine ⟨here, .queued ?_ rfl (List.mem_append_right _ List.mem_cons_self)⟩
          rw [isOpen, pending, Option.isSome_some]
      | received => exact (same (List.length_modify ..) found).elim
      | orphaned => exact (same (List.length_modify ..) found).elim
      | expired => exact (same (List.length_modify ..) found).elim
      | forgotten => exact (same (List.length_modify ..) found).elim
      | matched => exact (same rfl found).elim
      | delivered => exact (same (List.length_modify ..) found).elim
      | @closed _ entries reader _ pending =>
          rw [markClosed_some pending] at found
          exact (same (CallRecord.acceptAll_length entries state.calls) found).elim

-- Ids and entries

def entries (state : RpcState) : List (RequestId × Nat) := state.pending.getD []

/-- The entries are those of calls that may still get a reply, and every call that waits has one or
is about to get its reply.
-/
structure Routed (state : RpcState) : Prop where
  room : state.entries.length ≤ maxPendingRequests
  keys : (state.entries.map Prod.fst).Nodup
  registered : ∀ entry ∈ state.entries,
    ∃ stage : CallState,
      state.calls[entry.2]? = some ⟨some entry.1, stage⟩
      ∧ (stage = .waiting none ∨ stage = .timedOut)
  receiving : ∀ call, state.reader.receiver = some call → call < state.calls.length
  apart : ∀ entry ∈ state.entries, state.reader.receiver ≠ some entry.2
  awaited : ∀ {call : Nat} {id : Option RequestId},
    state.calls[call]? = some ⟨id, .waiting none⟩
    → (∃ entry ∈ state.entries, entry.2 = call) ∨ state.reader.receiver = some call

/-- What holds of the calls and their entries in every state of a run. -/
structure Consistent (state : RpcState) : Prop extends Routed state where
  numbered : ∀ {call : Nat} {id : RequestId} {stage : CallState},
    state.calls[call]? = some ⟨some id, stage⟩
    → ∃ number, number < state.nextId ∧ id = .number number
  distinct : ∀ {first second : Nat} {id : RequestId} {stage stage' : CallState},
    state.calls[first]? = some ⟨some id, stage⟩
    → state.calls[second]? = some ⟨some id, stage'⟩
    → first = second
  queued : ∀ {call : Nat} {id : RequestId} {stage : CallState},
    state.calls[call]? = some ⟨some id, stage⟩
    → ∃ method params, .request id method params ∈ state.sent
  refused : ∀ {call : Nat} {stage : CallState},
    state.calls[call]? = some ⟨none, stage⟩
    → stage = .returned (.error .disconnected) ∨ stage = .returned (.error .backpressure)

theorem Consistent.spawn : RpcState.spawn.Consistent where
  room := Nat.zero_le _
  keys := List.nodup_nil
  registered entry member := by cases member
  receiving call receives := by cases receives
  apart entry member := by cases member
  awaited found := by cases found
  numbered found := by cases found
  distinct found := by cases found
  queued found := by cases found
  refused found := by cases found

theorem entries_removePending (id : RequestId)
    : (state.removePending id).entries = state.entries.filter (·.1 ≠ id) := by
  rw [entries, entries, removePending]
  cases state.pending <;> rfl

theorem Quiet.entries (quiet : Quiet state next) : next.entries = state.entries := by
  rw [RpcState.entries, quiet.pending, RpcState.entries]

theorem Quiet.receiver (quiet : Quiet state next)
    : next.reader.receiver = state.reader.receiver := by
  rcases quiet.reader with same | ⟨before, after⟩
  · rw [same]
  · rw [before, after]

theorem Routed.sender {call : Nat} {id : Option RequestId} (routed : state.Routed)
    (waits : state.calls[call]? = some ⟨id, .waiting none⟩) : state.hasSender call = true := by
  rw [hasSender, Bool.or_eq_true, List.any_eq_true]
  rcases routed.awaited waits with ⟨entry, member, rfl⟩ | receives
  · exact .inl ⟨entry, member, beq_self_eq_true entry.2⟩
  · exact .inr (by rw [receives, beq_self_eq_true])

theorem Consistent.entry_call {id : RequestId} {call : Nat} {stage : CallState}
    {entry : RequestId × Nat} (consistent : state.Consistent) (member : entry ∈ state.entries)
    (found : state.calls[call]? = some ⟨some id, stage⟩)
    : entry.1 = id ↔ entry.2 = call := by
  obtain ⟨stage', registered, -⟩ := consistent.registered entry member
  constructor
  · rintro rfl
    exact consistent.distinct registered found
  · rintro rfl
    rw [registered] at found
    cases found
    rfl

section Step

variable (consistent : state.Consistent) (moved : CallStep state action next)

include consistent moved

theorem Consistent.step_numbered {call : Nat} {id : RequestId} {stage : CallState}
    (found : next.calls[call]? = some ⟨some id, stage⟩)
    : ∃ number, number < next.nextId ∧ id = .number number := by
  rcases moved.back found with ⟨before, found, -⟩ | ⟨-, made⟩
  · obtain ⟨number, below, rfl⟩ := consistent.numbered found
    exact ⟨number, Int.lt_of_lt_of_le below moved.nextId_le, rfl⟩
  · cases made with
    | queued _ grows => exact ⟨state.nextId, by omega, rfl⟩

/-- A new id is above those of all calls before. -/
theorem Consistent.step_distinct {first second : Nat} {id : RequestId} {stage stage' : CallState}
    (one : next.calls[first]? = some ⟨some id, stage⟩)
    (other : next.calls[second]? = some ⟨some id, stage'⟩) : first = second := by
  have fresh {call : Nat} {before : CallState} {number : Int}
      (found : state.calls[call]? = some ⟨some (.number number), before⟩)
      : number ≠ state.nextId := by
    obtain ⟨number, below, same⟩ := consistent.numbered found
    cases same
    omega
  rcases moved.back one with ⟨before, one, -⟩ | ⟨here, made⟩
  · rcases moved.back other with ⟨before', other, -⟩ | ⟨-, made⟩
    · exact consistent.distinct one other
    · cases made with
      | queued => exact absurd rfl (fresh one)
  · rcases moved.back other with ⟨before', other, -⟩ | ⟨there, -⟩
    · cases made with
      | queued => exact absurd rfl (fresh other)
    · exact here.trans there.symm

theorem Consistent.step_queued {call : Nat} {id : RequestId} {stage : CallState}
    (found : next.calls[call]? = some ⟨some id, stage⟩)
    : ∃ method params, .request id method params ∈ next.sent := by
  rcases moved.back found with ⟨before, found, -⟩ | ⟨-, made⟩
  · obtain ⟨method, params, member⟩ := consistent.queued found
    exact ⟨method, params, moved.sent_prefix.subset member⟩
  · cases made with
    | queued _ _ member => exact ⟨_, _, member⟩

theorem Consistent.step_refused {call : Nat} {stage : CallState}
    (found : next.calls[call]? = some ⟨none, stage⟩)
    : stage = .returned (.error .disconnected) ∨ stage = .returned (.error .backpressure) := by
  rcases moved.back found with ⟨before, found, leads⟩ | ⟨-, made⟩
  · rcases consistent.refused found with rfl | rfl
    · cases leads
      exact .inl rfl
    · cases leads
      exact .inr rfl
  · cases made with
    | refused cause =>
        rcases cause with rfl | ⟨rfl, -⟩
        · exact .inl rfl
        · exact .inr rfl

end Step

theorem Routed.quiet (routed : state.Routed) (quiet : Quiet state next) : next.Routed where
  room := by rw [quiet.entries]; exact routed.room
  keys := by rw [quiet.entries]; exact routed.keys
  registered entry member := by
    rw [quiet.entries] at member
    rw [quiet.calls]
    exact routed.registered entry member
  receiving call receives := by
    rw [quiet.receiver] at receives
    rw [quiet.calls]
    exact routed.receiving call receives
  apart entry member := by
    rw [quiet.entries] at member
    rw [quiet.receiver]
    exact routed.apart entry member
  awaited found := by
    rw [quiet.calls] at found
    rw [quiet.entries, quiet.receiver]
    exact routed.awaited found

/-- A call more that does not wait. -/
theorem Routed.refuse {error : RpcError} {nextId : Int} (routed : state.Routed)
    : ({ state with nextId := nextId }.refuse error).Routed where
  room := routed.room
  keys := routed.keys
  registered entry member := by
    obtain ⟨stage, found, pending⟩ := routed.registered entry member
    have short := (List.getElem?_eq_some_iff.mp found).1
    exact ⟨stage, (List.getElem?_append_left short).trans found, pending⟩
  receiving call receives := by
    have short := routed.receiving call receives
    refine Nat.lt_of_lt_of_le short ?_
    rw [RpcState.refuse, List.length_append]
    exact Nat.le_add_right ..
  apart := routed.apart
  awaited {call id} found := by
    by_cases short : call < state.calls.length
    · exact routed.awaited ((List.getElem?_append_left short).symm.trans found)
    · have last := (List.getElem?_append_right (Nat.le_of_not_lt short)).symm.trans found
      obtain ⟨within, same⟩ := List.getElem?_eq_some_iff.mp last
      rw [List.getElem_singleton] at same
      cases same

theorem Consistent.queue {entries : List (RequestId × Nat)} {queue : List WriterCommand}
    {sent : List OutgoingLine} (consistent : state.Consistent)
    (pending : state.pending = some entries) (room : entries.length < maxPendingRequests)
    : Routed
        { state with
          pending := some ((.number state.nextId, state.calls.length) :: entries)
          nextId := state.nextId + 1
          queue := queue
          calls := state.calls ++ [⟨some (.number state.nextId), .waiting none⟩]
          sent := sent } := by
  have known : state.entries = entries := by rw [RpcState.entries, pending, Option.getD_some]
  have short {entry : RequestId × Nat} (member : entry ∈ entries)
      : entry.2 < state.calls.length := by
    obtain ⟨stage, found, -⟩ := consistent.registered entry (known ▸ member)
    exact (List.getElem?_eq_some_iff.mp found).1
  refine ⟨room, ?_, ?_, ?_, ?_, ?_⟩
  · refine List.nodup_cons.mpr ⟨fun member => ?_, known ▸ consistent.keys⟩
    obtain ⟨entry, inside, key⟩ := List.mem_map.mp member
    obtain ⟨stage, found, -⟩ := consistent.registered entry (known ▸ inside)
    obtain ⟨number, below, numbered⟩ := consistent.numbered found
    have again : RequestId.number state.nextId = .number number := key.symm.trans numbered
    cases again
    omega
  · intro entry member
    rcases List.mem_cons.mp member with rfl | member
    · exact ⟨.waiting none, List.getElem?_concat_length, .inl rfl⟩
    · obtain ⟨stage, found, open'⟩ := consistent.registered entry (known ▸ member)
      exact ⟨stage, (List.getElem?_append_left (short member)).trans found, open'⟩
  · intro call receives
    have short := consistent.receiving call receives
    rw [List.length_append]
    omega
  · intro entry member
    rcases List.mem_cons.mp member with rfl | member
    · intro receives
      exact absurd (consistent.receiving _ receives) (Nat.lt_irrefl _)
    · exact consistent.apart entry (known ▸ member)
  · intro call id found
    by_cases below : call < state.calls.length
    · rcases consistent.awaited ((List.getElem?_append_left below).symm.trans found) with
        ⟨entry, member, same⟩ | receives
      · exact .inl ⟨entry, List.mem_cons_of_mem _ (known ▸ member), same⟩
      · exact .inr receives
    · have within := (List.getElem?_eq_some_iff.mp found).1
      rw [List.length_append, List.length_singleton] at within
      exact .inl ⟨_, List.mem_cons_self, by dsimp only; omega⟩

theorem Routed.setCall {call : Nat} {id : Option RequestId} {before after : CallState}
    (routed : state.Routed) (found : state.calls[call]? = some ⟨id, before⟩)
    (leaves : after ≠ .waiting none)
    (pending : ∀ entry ∈ state.entries, entry.2 = call → after = .timedOut)
    : (state.setCall call after).Routed where
  room := routed.room
  keys := routed.keys
  registered entry member := by
    obtain ⟨stage, registered, waits⟩ := routed.registered entry member
    by_cases same : call = entry.2
    · subst same
      exact ⟨after, setCall_getElem?_self registered, .inr (pending entry member rfl)⟩
    · exact ⟨stage, (setCall_getElem?_ne same).trans registered, waits⟩
  receiving other receives := by
    rw [RpcState.setCall, List.length_modify]
    exact routed.receiving other receives
  apart := routed.apart
  awaited {other id'} waits := by
    by_cases same : call = other
    · subst same
      rw [setCall_getElem?_self found] at waits
      cases waits
      exact absurd rfl leaves
    · exact routed.awaited ((setCall_getElem?_ne same).symm.trans waits)

/-- An entry goes whose call does not wait. -/
theorem Consistent.removePending {call : Nat} {id : RequestId} {stage : CallState}
    (consistent : state.Consistent) (found : state.calls[call]? = some ⟨some id, stage⟩)
    (settled : stage ≠ .waiting none) : (state.removePending id).Routed where
  room := by
    rw [entries_removePending]
    exact Nat.le_trans (List.length_filter_le ..) consistent.room
  keys := by
    rw [entries_removePending]
    exact consistent.keys.sublist (List.filter_sublist.map Prod.fst)
  registered entry member := by
    rw [entries_removePending] at member
    exact consistent.registered entry (List.mem_filter.mp member).1
  receiving := consistent.receiving
  apart entry member := by
    rw [entries_removePending] at member
    exact consistent.apart entry (List.mem_filter.mp member).1
  awaited {other id'} waits := by
    rw [entries_removePending]
    rcases consistent.awaited waits with ⟨entry, member, rfl⟩ | receives
    · refine .inl ⟨entry, List.mem_filter.mpr ⟨member, ?_⟩, rfl⟩
      refine decide_eq_true fun same => ?_
      obtain rfl := (consistent.entry_call member found).mp same
      cases found.symm.trans waits
      exact settled rfl
    · exact .inr receives

/-- The reply of an entry is about to reach its call. -/
theorem Consistent.matched {id : RequestId} {call : Nat} {result : Except RpcError Value}
    (consistent : state.Consistent) (member : (id, call) ∈ state.entries)
    (free : state.reader.receiver = none)
    : Routed { state.removePending id with reader := .delivering call result } := by
  obtain ⟨stage, found, -⟩ := consistent.registered _ member
  have same : RpcState.entries { state.removePending id with reader := .delivering call result }
      = state.entries.filter (·.1 ≠ id) := entries_removePending id
  refine ⟨?_, ?_, ?_, ?_, ?_, ?_⟩
  · rw [same]
    exact Nat.le_trans (List.length_filter_le ..) consistent.room
  · rw [same]
    exact consistent.keys.sublist (List.filter_sublist.map Prod.fst)
  · intro entry member
    rw [same] at member
    exact consistent.registered entry (List.mem_filter.mp member).1
  · intro other receives
    cases receives
    exact (List.getElem?_eq_some_iff.mp found).1
  · intro entry member receives
    rw [same] at member
    obtain ⟨inside, other⟩ := List.mem_filter.mp member
    have here : entry.2 = call := (Option.some.inj receives).symm
    exact of_decide_eq_true other ((consistent.entry_call inside found).mpr here)
  · intro other id' waits
    rw [same]
    rcases consistent.awaited waits with ⟨entry, inside, rfl⟩ | receives
    · by_cases key : entry.1 = id
      · exact .inr (congrArg some ((consistent.entry_call inside found).mp key).symm)
      · exact .inl ⟨entry, List.mem_filter.mpr ⟨inside, decide_eq_true key⟩, rfl⟩
    · rw [free] at receives
      cases receives

theorem Routed.delivered {call : Nat} {result : Except RpcError Value} (routed : state.Routed)
    (receives : state.reader.receiver = some call)
    : Routed
        { state with
          reader := .idle
          calls := state.calls.modify call (.accept result) } where
  room := routed.room
  keys := routed.keys
  registered entry member := by
    obtain ⟨stage, found, waits⟩ := routed.registered entry member
    refine ⟨stage, ?_, waits⟩
    have other : call ≠ entry.2 := by
      rintro rfl
      exact routed.apart entry member receives
    exact (List.getElem?_modify_ne _ _ other).trans found
  receiving other receives := by cases receives
  apart entry member := by rintro ⟨⟩
  awaited {other id} waits := by
    left
    by_cases same : call = other
    · subst same
      rw [List.getElem?_modify_eq] at waits
      obtain ⟨record, -, accepted⟩ := Option.map_eq_some_iff.mp waits
      exact absurd (congrArg CallRecord.state accepted) CallRecord.accept_settles
    · rcases routed.awaited ((List.getElem?_modify_ne _ _ same).symm.trans waits) with
        entry | again
      · exact entry
      · rw [receives] at again
        exact absurd (Option.some.inj again) same

/-- Closing leaves no entry, and answers every call that had one. -/
theorem Routed.closed {entries : List (RequestId × Nat)} {reader : Reader} (routed : state.Routed)
    (pending : state.pending = some entries)
    (same : reader = state.reader ∨ state.reader.receiver = none ∧ reader.receiver = none)
    : Routed { state.markClosed with reader := reader } := by
  have receiver : reader.receiver = state.reader.receiver := by
    rcases same with rfl | ⟨before, after⟩
    · rfl
    · rw [before, after]
  have known : state.entries = entries := by rw [RpcState.entries, pending, Option.getD_some]
  rw [markClosed_some pending]
  refine ⟨Nat.zero_le _, List.nodup_nil, ?_, ?_, ?_, ?_⟩
  · rintro entry ⟨⟩
  · intro call receives
    rw [receiver] at receives
    exact Nat.lt_of_lt_of_eq (routed.receiving call receives)
      (CallRecord.acceptAll_length entries state.calls).symm
  · rintro entry ⟨⟩
  · intro call id waits
    right
    rw [receiver]
    have short := (List.getElem?_eq_some_iff.mp waits).1
    rw [CallRecord.acceptAll_length] at short
    have found := List.getElem?_eq_getElem short
    dsimp only at waits
    rw [CallRecord.acceptAll_getElem? found] at waits
    by_cases member : call ∈ entries.map Prod.snd
    · rw [if_pos member] at waits
      have accepted := congrArg CallRecord.state (Option.some.inj waits)
      exact absurd accepted CallRecord.accept_settles
    · rw [if_neg member] at waits
      rcases routed.awaited (found.trans waits) with ⟨entry, inside, rfl⟩ | receives
      · exact absurd (List.mem_map_of_mem (known ▸ inside)) member
      · exact receives

theorem Consistent.step_routed (consistent : state.Consistent)
    (moved : CallStep state action next) : next.Routed := by
  cases moved with
  | quiet _ quiet => exact consistent.toRouted.quiet quiet
  | refused => exact consistent.toRouted.refuse
  | queued pending room => exact consistent.queue pending room
  | @received call id result found =>
      refine consistent.toRouted.setCall found (by rintro ⟨⟩) fun entry member same => ?_
      subst same
      obtain ⟨stage, registered, waits⟩ := consistent.registered entry member
      cases registered.symm.trans found
      rcases waits with waits | waits
      · cases waits
      · cases waits
  | orphaned found alone =>
      rw [consistent.sender found] at alone
      cases alone
  | expired found => exact consistent.toRouted.setCall found (by rintro ⟨⟩) fun _ _ _ => rfl
  | @forgotten call id found =>
      have removed := consistent.removePending found (by rintro ⟨⟩)
      refine removed.setCall found (by rintro ⟨⟩) fun entry member same => ?_
      rw [entries_removePending] at member
      obtain ⟨inside, other⟩ := List.mem_filter.mp member
      exact absurd ((consistent.entry_call inside found).mpr same) (of_decide_eq_true other)
  | matched holds member => exact consistent.matched member (by rw [holds]; rfl)
  | delivered holds => exact consistent.toRouted.delivered (by rw [holds]; rfl)
  | closed _ pending same => exact consistent.toRouted.closed pending same

theorem Consistent.step (consistent : state.Consistent) (moved : CallStep state action next)
    : next.Consistent where
  toRouted := consistent.step_routed moved
  numbered := consistent.step_numbered moved
  distinct := consistent.step_distinct moved
  queued := consistent.step_queued moved
  refused := consistent.step_refused moved

end RpcState

end Hane.Ai
