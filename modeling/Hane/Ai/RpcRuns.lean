import Hane.Ai.RpcCalls
import Hane.Foundations.Traces

/-! Runs of the transport: in whatever order the threads take their turns, every call returns once
and with its own reply, and every request of the server gets one answer or is dropped.
-/

namespace Hane.Ai

open Hane.Foundations

-- What is said

def Reader.inHand : Reader → List ServerRequest
  | .holding (.ok (.serverRequest id method params)) => [⟨id, method, params⟩]
  | .answering request _ => [request]
  | .dropping request => [request]
  | _ => []

def RpcAction.serverRequest : RpcAction → Option ServerRequest
  | .read (.ok (.serverRequest id method params)) => some ⟨id, method, params⟩
  | _ => none

/-- The record of what was queued and answered. -/
structure Ledger where
  sent : List OutgoingLine
  notices : List (Except RpcError Unit)
  requests : List ServerRequest
  inHand : List ServerRequest
  served : List (ServerRequest × Fate)

namespace RpcState

variable {handler : ServerRequestHandler} {capacity : Nat} {state next : RpcState}
  {action : RpcAction}

def ledger (state : RpcState) : Ledger where
  sent := state.sent
  notices := state.notices
  requests := state.requests
  inHand := state.reader.inHand
  served := state.served

/-- What a step adds to the record. -/
inductive LedgerStep (handler : ServerRequestHandler) (capacity : Nat) (state : RpcState)
    : RpcAction → RpcState → Prop
  | silent {action : RpcAction} {next : RpcState}
      : next.ledger = state.ledger → LedgerStep handler capacity state action next
  | request {method : String} {params : Option Value} {next : RpcState} {id : RequestId}
      : state.isOpen = true
        → next.ledger =
            { state.ledger with sent := state.sent ++ [.request id method params] }
        → LedgerStep handler capacity state (.call method params) next
  | notified {method : String} {params : Option Value} {next : RpcState}
      : state.isOpen = true
        → next.ledger =
            { state.ledger with
              sent := state.sent ++ [.notification method params]
              notices := state.notices ++ [.ok ()] }
        → LedgerStep handler capacity state (.notify method params) next
  | unnotified {method : String} {params : Option Value} {next : RpcState} {error : RpcError}
      : (state.isOpen = false → error = .disconnected)
        → next.ledger = { state.ledger with notices := state.notices ++ [.error error] }
        → LedgerStep handler capacity state (.notify method params) next
  | read {id : RequestId} {method : String} {params : Option Value} {next : RpcState}
      : state.reader = .idle
        → next.reader = .holding (.ok (.serverRequest id method params))
        → next.ledger =
            { state.ledger with
              requests := state.requests ++ [⟨id, method, params⟩]
              inHand := [⟨id, method, params⟩] }
        → LedgerStep handler capacity state
            (.read (.ok (.serverRequest id method params))) next
  | panicked {id : RequestId} {method : String} {params : Option Value} {next : RpcState}
      : state.reader = .holding (.ok (.serverRequest id method params))
        → handler state.served.length method params = none
        → next.ledger =
            { state.ledger with
              inHand := []
              served := state.served ++ [(⟨id, method, params⟩, .panicked)] }
        → LedgerStep handler capacity state .takeUp next
  | answered {request : ServerRequest} {outcome : Except ErrorObject Value} {next : RpcState}
      : state.reader = .answering request outcome
        → state.isOpen = true
        → next.ledger =
            { state.ledger with
              sent := state.sent ++ [.response request.id outcome]
              inHand := []
              served := state.served ++ [(request, .queued outcome)] }
        → LedgerStep handler capacity state .answer next
  | dropped {request : ServerRequest} {next : RpcState}
      : state.reader = .dropping request
        → next.ledger =
            { state.ledger with
              inHand := []
              served :=
                state.served
                ++ [(request,
                  .dropped (state.tryEvent capacity (dropDiagnostic request.id)).1)] }
        → LedgerStep handler capacity state .report next

theorem ledger_congr (sent : next.sent = state.sent) (notices : next.notices = state.notices)
    (requests : next.requests = state.requests)
    (inHand : next.reader.inHand = state.reader.inHand) (served : next.served = state.served)
    : next.ledger = state.ledger := by
  rw [ledger, sent, notices, requests, inHand, served, ← ledger]

theorem markClosed_ledger : state.markClosed.ledger = state.ledger := by
  cases pending : state.pending with
  | none => rw [markClosed_none pending]
  | some entries => rw [markClosed_some pending, ledger, ledger]

theorem tryEvent_ledger (capacity : Nat) (state : RpcState) (event : RpcEvent)
    : (state.tryEvent capacity event).2.ledger = state.ledger := by
  obtain ⟨events, taken⟩ := tryEvent_snd capacity state event
  rw [taken, ledger, ledger]

theorem call_ledger (method : String) (params : Option Value)
    : LedgerStep handler capacity state (.call method params) (state.call method params) := by
  unfold call
  split
  · exact .silent rfl
  case h_2 entries pending =>
    split
    · exact .silent rfl
    · split
      · exact .silent rfl
      · exact .silent rfl
      case h_3 after sends =>
        cases trySend_ok sends
        exact .request (by rw [isOpen, pending, Option.isSome_some]) rfl

theorem notify_ledger (method : String) (params : Option Value)
    : LedgerStep handler capacity state (.notify method params) (state.notify method params) := by
  unfold notify
  by_cases closed : state.isOpen = false
  · rw [if_pos closed]
    exact .unnotified (fun _ => rfl) rfl
  · rw [if_neg closed]
    split
    · exact .unnotified (fun shut => absurd shut closed) rfl
    · exact .unnotified (fun _ => rfl) rfl
    case h_3 after sends =>
      cases trySend_ok sends
      exact .notified (Bool.not_eq_false _ ▸ closed) rfl

theorem receive_ledger {call : Nat} (receives : state.receive call = some next)
    : next.ledger = state.ledger := by
  unfold receive at receives
  split at receives
  · cases receives
    rfl
  · split at receives
    · cases receives
    · cases receives
      rfl
  · cases receives

theorem expire_ledger {call : Nat} (expires : state.expire call = some next)
    : next.ledger = state.ledger := by
  unfold expire at expires
  split at expires
  · cases expires
    rfl
  · cases expires

theorem forget_ledger {call : Nat} (forgets : state.forget call = some next)
    : next.ledger = state.ledger := by
  unfold forget at forgets
  split at forgets
  · cases forgets
    rfl
  · cases forgets

theorem read_ledger {message : Except String IncomingMessage}
    (reads : state.read message = some next)
    : LedgerStep handler capacity state (.read message) next := by
  unfold read at reads
  split at reads
  case h_1 idle =>
    cases reads
    have free : Reader.inHand .idle = state.reader.inHand := by rw [idle]
    cases message with
    | error problem => exact .silent (ledger_congr rfl rfl rfl free rfl)
    | ok message =>
        cases message with
        | serverRequest id method params => exact .read idle rfl rfl
        | response id outcome => exact .silent (ledger_congr rfl rfl rfl free rfl)
        | notification method params => exact .silent (ledger_congr rfl rfl rfl free rfl)
  · cases reads

theorem takeUp_ledger (takes : state.takeUp handler capacity = some next)
    : LedgerStep handler capacity state .takeUp next := by
  unfold takeUp at takes
  split at takes
  case h_1 id outcome holds =>
    split at takes
    · cases takes
      exact .silent (ledger_congr rfl rfl rfl (by rw [holds]; rfl) rfl)
    · cases takes
      exact .silent (ledger_congr rfl rfl rfl (by rw [holds]; rfl) rfl)
  case h_2 method params holds =>
    cases takes
    obtain ⟨events, overflow, taken⟩ := sendNotification_eq capacity state method params
    rw [taken]
    exact .silent (ledger_congr rfl rfl rfl (by rw [holds]; rfl) rfl)
  case h_3 id method params holds =>
    split at takes
    · cases takes
      exact .silent (ledger_congr rfl rfl rfl (by rw [holds]; rfl) rfl)
    case h_2 panics =>
      cases takes
      exact .panicked holds panics rfl
  case h_4 problem holds =>
    cases takes
    exact .silent (ledger_congr rfl rfl rfl (by rw [holds]; rfl) rfl)
  · cases takes

theorem answer_ledger (answers : state.answer = some next)
    : LedgerStep handler capacity state .answer next := by
  unfold answer at answers
  split at answers
  case h_1 request outcome holds =>
    have same : Reader.inHand (.dropping request) = state.reader.inHand := by
      rw [holds, Reader.inHand, Reader.inHand]
    by_cases closed : state.isOpen = false
    · rw [if_pos closed] at answers
      cases answers
      exact .silent (ledger_congr rfl rfl rfl same rfl)
    · rw [if_neg closed] at answers
      split at answers
      · cases answers
        exact .silent (ledger_congr rfl rfl rfl same rfl)
      case h_2 after sends =>
        cases trySend_ok sends
        cases answers
        exact .answered holds (Bool.not_eq_false _ ▸ closed) rfl
  · cases answers

theorem report_ledger (reports : state.report capacity = some next)
    : LedgerStep handler capacity state .report next := by
  rcases report_cases reports with ⟨text, events, holds, rfl⟩ | ⟨request, holds, rfl⟩
  · exact .silent (ledger_congr rfl rfl rfl (by rw [holds]; rfl) rfl)
  · refine .dropped holds ?_
    obtain ⟨events, taken⟩ := tryEvent_snd capacity state (dropDiagnostic request.id)
    rw [taken]
    rfl

/-- What a step adds to the record, action by action. -/
theorem ledger_cases (moved : state.step handler capacity action = some next)
    : LedgerStep handler capacity state action next := by
  cases action with
  | call method params =>
      cases moved
      exact call_ledger method params
  | receive call => exact .silent (receive_ledger moved)
  | expire call => exact .silent (expire_ledger moved)
  | forget call => exact .silent (forget_ledger moved)
  | notify method params =>
      cases moved
      exact notify_ledger method params
  | read message => exact read_ledger moved
  | takeUp => exact takeUp_ledger moved
  | deliver =>
      simp only [step, deliver] at moved
      split at moved
      case h_1 call result holds =>
        cases moved
        exact .silent (ledger_congr rfl rfl rfl (by rw [holds]; rfl) rfl)
      · cases moved
  | answer => exact answer_ledger moved
  | report => exact report_ledger moved
  | endOfStream =>
      simp only [step, endOfStream] at moved
      split at moved
      case h_1 idle =>
        cases moved
        exact .silent (ledger_congr rfl rfl rfl (by rw [idle]; rfl) rfl)
      · cases moved
  | readerCloses =>
      simp only [step, readerCloses] at moved
      split at moved
      case h_1 closing =>
        cases moved
        refine .silent (Eq.trans ?_ markClosed_ledger)
        refine ledger_congr rfl rfl rfl ?_ rfl
        rw [markClosed_reader, closing]
        rfl
      · cases moved
  | write fails =>
      refine .silent ?_
      simp only [step, write] at moved
      repeat' split at moved
      all_goals
        cases moved
        try rfl
  | shutdown =>
      cases moved
      exact .silent markClosed_ledger
  | closeWriter =>
      cases moved
      refine .silent ?_
      rw [closeWriter]
      split
      case h_1 after sends =>
        cases trySend_ok sends
        exact ledger_congr (List.append_nil _) rfl rfl rfl rfl
      · rfl
  | stderrLine text =>
      cases moved
      exact .silent (tryEvent_ledger capacity state _)
  | takeEvent =>
      simp only [step, takeEvent] at moved
      split at moved
      · cases moved
      · cases moved
        exact .silent rfl
  | dropEvents =>
      cases moved
      exact .silent rfl

-- Server requests

end RpcState

/-- A reply to the server, with what it answers. -/
def OutgoingLine.reply : OutgoingLine → Option (RequestId × Except ErrorObject Value)
  | .response id outcome => some (id, outcome)
  | _ => none

def Fate.reply : ServerRequest × Fate → Option (RequestId × Except ErrorObject Value)
  | (request, .queued outcome) => some (request.id, outcome)
  | _ => none

/-- Every request of the server was served once or is in hand, and the replies are those of the
requests that were answered.
-/
structure Ledger.Balanced (ledger : Ledger) : Prop where
  requests : ledger.requests = ledger.served.map Prod.fst ++ ledger.inHand
  replies : ledger.sent.filterMap OutgoingLine.reply = ledger.served.filterMap Fate.reply

namespace RpcState

variable {handler : ServerRequestHandler} {capacity : Nat} {state next : RpcState}
  {action : RpcAction}

theorem balanced_step (balanced : state.ledger.Balanced)
    (moved : LedgerStep handler capacity state action next) : next.ledger.Balanced := by
  obtain ⟨requests, replies⟩ := balanced
  dsimp only [ledger] at requests replies
  cases moved with
  | silent same =>
      rw [same]
      exact ⟨requests, replies⟩
  | request _ same =>
      rw [same]
      refine ⟨requests, ?_⟩
      rw [List.filterMap_append, replies]
      exact List.append_nil _
  | notified _ same =>
      rw [same]
      refine ⟨requests, ?_⟩
      rw [List.filterMap_append, replies]
      exact List.append_nil _
  | unnotified _ same =>
      rw [same]
      exact ⟨requests, replies⟩
  | read idle _ same =>
      rw [same]
      refine ⟨?_, replies⟩
      have free : Reader.inHand .idle = [] := rfl
      rw [idle, free, List.append_nil] at requests
      exact congrArg (· ++ [_]) requests
  | @panicked id method params next holds _ same =>
      rw [same]
      constructor
      · rw [holds, Reader.inHand] at requests
        dsimp only [ledger]
        rw [requests, List.map_append, List.append_nil]
        rfl
      · dsimp only [ledger]
        rw [List.filterMap_append, replies]
        exact (List.append_nil _).symm
  | @answered request outcome next holds _ same =>
      rw [same]
      constructor
      · rw [holds, Reader.inHand] at requests
        dsimp only [ledger]
        rw [requests, List.map_append, List.append_nil]
        rfl
      · dsimp only [ledger]
        rw [List.filterMap_append, List.filterMap_append, replies]
        rfl
  | @dropped request next holds same =>
      rw [same]
      constructor
      · rw [holds, Reader.inHand] at requests
        dsimp only [ledger]
        rw [requests, List.map_append, List.append_nil]
        rfl
      · dsimp only [ledger]
        rw [List.filterMap_append, replies]
        exact (List.append_nil _).symm

theorem call_reader (method : String) (params : Option Value)
    : (state.call method params).reader = state.reader := by
  unfold call
  split
  · rfl
  · split
    · rfl
    · split
      · rfl
      · rfl
      case h_3 after sends =>
        cases trySend_ok sends
        rfl

theorem notify_reader (method : String) (params : Option Value)
    : (state.notify method params).reader = state.reader := by
  unfold notify
  split
  · rfl
  · split
    · rfl
    · rfl
    case h_3 after sends =>
      cases trySend_ok sends
      rfl

/-- What a step leaves the reader to answer comes from the handler, or was there before. -/
theorem answering_cases {request : ServerRequest} {outcome : Except ErrorObject Value}
    (moved : state.step handler capacity action = some next)
    (after : next.reader = .answering request outcome)
    : state.reader = .answering request outcome
      ∨ handler state.served.length request.method request.params = some outcome := by
  cases action with
  | call method params =>
      cases moved
      exact .inl ((call_reader method params).symm.trans after)
  | notify method params =>
      cases moved
      exact .inl ((notify_reader method params).symm.trans after)
  | takeUp =>
      simp only [step, takeUp] at moved
      split at moved
      · split at moved
        · cases moved
          cases after
        · cases moved
          cases after
      · cases moved
        cases after
      · split at moved
        case h_1 answers =>
          cases moved
          cases after
          exact .inr answers
        · cases moved
          cases after
      · cases moved
        cases after
      · cases moved
  | answer =>
      simp only [step, answer] at moved
      split at moved
      · split at moved
        · cases moved
          cases after
        · split at moved
          · cases moved
            cases after
          · cases moved
            cases after
      · cases moved
  | report =>
      rcases report_cases moved with ⟨_, _, _, rfl⟩ | ⟨_, _, rfl⟩
      · cases after
      · cases after
  | shutdown =>
      cases moved
      exact .inl (markClosed_reader.symm.trans after)
  | closeWriter =>
      cases moved
      rw [closeWriter] at after
      split at after
      case h_1 sent sends =>
        cases trySend_ok sends
        exact .inl after
      · exact .inl after
  | stderrLine text =>
      cases moved
      obtain ⟨events, taken⟩ := tryEvent_snd capacity state (.diagnostic s!"stderr: {text}")
      rw [taken] at after
      exact .inl after
  | dropEvents =>
      cases moved
      exact .inl after
  | _ =>
      simp only [step, receive, expire, forget, read, deliver, endOfStream, readerCloses, write,
        takeEvent] at moved
      repeat' split at moved
      all_goals
        cases moved
        try first | exact .inl after | cases after

-- Replies

/-- The reader takes up a response with the id of the call, after the request of the call was
queued.
-/
def Matched (handler : ServerRequestHandler) (capacity : Nat) (actions : List RpcAction)
    (call : Nat) (id : RequestId) (result : Except RpcError Value) : Prop :=
  ∃ earlier later before outcome stage,
    actions = earlier ++ .takeUp :: later
    ∧ runActions (step handler capacity) spawn earlier = some before
    ∧ before.reader = .holding (.ok (.response id outcome))
    ∧ before.calls[call]? = some ⟨some id, stage⟩
    ∧ (∃ method params, .request id method params ∈ before.sent)
    ∧ result = outcome.mapError RpcError.remote

theorem Matched.append {actions : List RpcAction} {call : Nat} {id : RequestId}
    {result : Except RpcError Value} (matched : Matched handler capacity actions call id result)
    (more : List RpcAction) : Matched handler capacity (actions ++ more) call id result := by
  obtain ⟨earlier, later, before, outcome, stage, rfl, matched⟩ := matched
  refine ⟨earlier, later ++ more, before, outcome, stage, ?_, matched⟩
  rw [List.append_assoc, List.cons_append]

/-- Where the replies come from that calls have or are about to get. -/
structure Explained (handler : ServerRequestHandler) (capacity : Nat)
    (actions : List RpcAction) (state : RpcState) : Prop where
  delivering : ∀ {call : Nat} {result : Except RpcError Value},
    state.reader = .delivering call result
    → ∃ id stage,
        state.calls[call]? = some ⟨some id, stage⟩
        ∧ Matched handler capacity actions call id result
  waiting : ∀ {call : Nat} {id : Option RequestId} {result : Except RpcError Value},
    state.calls[call]? = some ⟨id, .waiting (some result)⟩
    → result = .error .disconnected
      ∨ ∃ own, id = some own ∧ Matched handler capacity actions call own result
  returned : ∀ {call : Nat} {id : Option RequestId} {result : Except RpcError Value},
    state.calls[call]? = some ⟨id, .returned result⟩
    → result = .error .disconnected
      ∨ result = .error .backpressure
      ∨ result = .error .timeout
      ∨ ∃ own, id = some own ∧ Matched handler capacity actions call own result

theorem CallStep.answered {call : Nat} {id : Option RequestId} {result : Except RpcError Value}
    (moved : CallStep state action next)
    (before : state.calls[call]? = some ⟨id, .waiting none⟩)
    (after : next.calls[call]? = some ⟨id, .waiting (some result)⟩)
    : result = .error .disconnected ∨ state.reader = .delivering call result := by
  have short : call < state.calls.length := (List.getElem?_eq_some_iff.mp before).1
  have same (kept : next.calls[call]? = state.calls[call]?) : False := by
    cases before.symm.trans (kept.symm.trans after)
  have set {other : Nat} {stage : CallState} {id' : Option RequestId} {old : CallState}
      (found : state.calls[other]? = some ⟨id', old⟩)
      (settled : stage ≠ .waiting (some result))
      (calls : next.calls = (state.setCall other stage).calls) : False := by
    by_cases here : other = call
    · subst here
      rw [calls, setCall_getElem?_self found] at after
      exact settled (congrArg CallRecord.state (Option.some.inj after))
    · exact same (by rw [calls, setCall_getElem?_ne here])
  cases moved with
  | quiet _ quiet => exact (same (by rw [quiet.calls])).elim
  | refused => exact (same (List.getElem?_append_left short)).elim
  | queued => exact (same (List.getElem?_append_left short)).elim
  | received found => exact (set found (by rintro ⟨⟩) rfl).elim
  | orphaned found => exact (set found (by rintro ⟨⟩) rfl).elim
  | expired found => exact (set found (by rintro ⟨⟩) rfl).elim
  | forgotten found => exact (set found (by rintro ⟨⟩) rfl).elim
  | matched => exact (same rfl).elim
  | @delivered other delivered holds =>
      by_cases here : other = call
      · subst here
        rw [List.getElem?_modify_eq, before] at after
        cases after
        exact .inr holds
      · exact (same (List.getElem?_modify_ne _ _ here)).elim
  | @closed _ entries reader _ pending =>
      rw [markClosed_some pending] at after
      dsimp only at after
      rw [CallRecord.acceptAll_getElem? before] at after
      by_cases member : call ∈ entries.map Prod.snd
      · rw [if_pos member] at after
        cases after
        exact .inl rfl
      · rw [if_neg member] at after
        cases after

theorem CallStep.delivering {call : Nat} {result : Except RpcError Value}
    (moved : CallStep state action next) (after : next.reader = .delivering call result)
    : state.reader = .delivering call result
      ∨ action = .takeUp
        ∧ ∃ id outcome,
            state.reader = .holding (.ok (.response id outcome))
            ∧ (id, call) ∈ state.entries
            ∧ result = outcome.mapError RpcError.remote := by
  cases moved with
  | quiet _ quiet =>
      rcases quiet.reader with same | ⟨-, free⟩
      · exact .inl (same.symm.trans after)
      · rw [after] at free
        cases free
  | @matched id outcome other holds member =>
      cases after
      exact .inr ⟨rfl, id, outcome, holds, member, rfl⟩
  | delivered => cases after
  | @closed _ entries reader _ _ same =>
      have held : reader = .delivering call result := after
      rcases same with same | ⟨-, free⟩
      · exact .inl (same.symm.trans held)
      · rw [held] at free
        cases free
  | _ => exact .inl after

theorem Explained.step {actions : List RpcAction}
    (explained : Explained handler capacity actions state) (consistent : state.Consistent)
    (ran : runActions (RpcState.step handler capacity) spawn actions = some state)
    (moved : CallStep state action next)
    : Explained handler capacity (actions ++ [action]) next where
  delivering {call result} after := by
    rcases moved.delivering after with before | ⟨rfl, id, outcome, holds, member, rfl⟩
    · obtain ⟨id, stage, found, matched⟩ := explained.delivering before
      obtain ⟨stage', found', -⟩ := moved.kept found
      exact ⟨id, stage', found', matched.append [action]⟩
    · obtain ⟨stage, found, -⟩ := consistent.registered _ member
      obtain ⟨stage', found', -⟩ := moved.kept found
      exact ⟨id, stage', found', actions, [], state, outcome, stage, rfl, ran, holds, found,
        consistent.queued found, rfl⟩
  waiting {call id result} after := by
    rcases moved.back after with ⟨stage, before, leads⟩ | ⟨-, made⟩
    · cases leads with
      | stays =>
          refine (explained.waiting before).imp_right ?_
          rintro ⟨own, same, matched⟩
          exact ⟨own, same, matched.append [action]⟩
      | answered =>
          refine (moved.answered before after).imp_right fun holds => ?_
          obtain ⟨own, stage, found, matched⟩ := explained.delivering holds
          cases found.symm.trans before
          exact ⟨own, rfl, matched.append [action]⟩
    · cases made
  returned {call id result} after := by
    rcases moved.back after with ⟨stage, before, leads⟩ | ⟨-, made⟩
    · cases leads with
      | stays =>
          refine (explained.returned before).imp_right (.imp_right (.imp_right ?_))
          rintro ⟨own, same, matched⟩
          exact ⟨own, same, matched.append [action]⟩
      | received =>
          rcases explained.waiting before with lost | ⟨own, same, matched⟩
          · exact .inl lost
          · exact .inr (.inr (.inr ⟨own, same, matched.append [action]⟩))
      | orphaned => exact .inl rfl
      | forgotten => exact .inr (.inr (.inl rfl))
    · cases made with
      | refused cause =>
          rcases cause with rfl | ⟨rfl, -⟩
          · exact .inl rfl
          · exact .inr (.inl rfl)

/-- How the server request of a number came to its fate. -/
def Served (handler : ServerRequestHandler) (capacity : Nat) (actions : List RpcAction)
    (number : Nat) (request : ServerRequest) : Fate → Prop
  | .queued outcome => handler number request.method request.params = some outcome
  | .panicked => handler number request.method request.params = none
  | .dropped reported =>
      ∃ earlier later before after,
        actions = earlier ++ .report :: later
        ∧ runActions (step handler capacity) spawn earlier = some before
        ∧ before.served.length = number
        ∧ before.reader = .dropping request
        ∧ before.step handler capacity .report = some after
        ∧ (reported = true ↔ before.eventsAlive = true ∧ before.events.length < capacity)
        ∧ after.events
          = before.events ++ if reported then [dropDiagnostic request.id] else []

theorem Served.append {actions : List RpcAction} {number : Nat} {request : ServerRequest}
    {fate : Fate} (served : Served handler capacity actions number request fate)
    (more : List RpcAction) : Served handler capacity (actions ++ more) number request fate := by
  cases fate with
  | queued outcome => exact served
  | panicked => exact served
  | dropped reported =>
      obtain ⟨earlier, later, before, after, rfl, dropped⟩ := served
      refine ⟨earlier, later ++ more, before, after, ?_, dropped⟩
      rw [List.append_assoc, List.cons_append]

/-- What holds after every run, with the actions of the run in view. -/
structure Accounted (handler : ServerRequestHandler) (capacity : Nat) (actions : List RpcAction)
    (state : RpcState) : Prop where
  consistent : state.Consistent
  explained : Explained handler capacity actions state
  balanced : state.ledger.Balanced
  read : state.requests = actions.filterMap RpcAction.serverRequest
  answering : ∀ {request : ServerRequest} {outcome : Except ErrorObject Value},
    state.reader = .answering request outcome
    → handler state.served.length request.method request.params = some outcome
  served : ∀ {number : Nat} {request : ServerRequest} {fate : Fate},
    state.served[number]? = some (request, fate)
    → Served handler capacity actions number request fate

theorem Accounted.spawn : Accounted handler capacity [] RpcState.spawn where
  consistent := .spawn
  explained :=
    { delivering holds := by cases holds
      waiting found := by cases found
      returned found := by cases found }
  balanced := ⟨rfl, rfl⟩
  read := rfl
  answering holds := by cases holds
  served found := by cases found

theorem LedgerStep.requests (moved : LedgerStep handler capacity state action next)
    (other : action.serverRequest = none) : next.requests = state.requests := by
  cases moved with
  | read => cases other
  | silent same => exact congrArg Ledger.requests same
  | request _ same => exact congrArg Ledger.requests same
  | notified _ same => exact congrArg Ledger.requests same
  | unnotified _ same => exact congrArg Ledger.requests same
  | panicked _ _ same => exact congrArg Ledger.requests same
  | answered _ _ same => exact congrArg Ledger.requests same
  | dropped _ same => exact congrArg Ledger.requests same

theorem requests_step (moved : state.step handler capacity action = some next)
    : next.requests = state.requests ++ action.serverRequest.toList := by
  cases reads : action.serverRequest with
  | none => exact ((ledger_cases moved).requests reads).trans (List.append_nil _).symm
  | some request =>
      unfold RpcAction.serverRequest at reads
      split at reads
      · cases reads
        simp only [step, read] at moved
        split at moved
        · cases moved
          rfl
        · cases moved
      · cases reads

theorem LedgerStep.served {number : Nat} {entry : ServerRequest × Fate}
    (moved : LedgerStep handler capacity state action next)
    (found : next.served[number]? = some entry)
    : state.served[number]? = some entry
      ∨ number = state.served.length
        ∧ ((∃ outcome,
            entry.2 = .queued outcome ∧ state.reader = .answering entry.1 outcome)
          ∨ (entry.2 = .panicked
            ∧ handler number entry.1.method entry.1.params = none)
          ∨ action = .report
            ∧ state.reader = .dropping entry.1
            ∧ entry.2 = .dropped (state.tryEvent capacity (dropDiagnostic entry.1.id)).1) := by
  have added {last : ServerRequest × Fate} (same : next.served = state.served ++ [last])
      : state.served[number]? = some entry ∨ number = state.served.length ∧ entry = last := by
    rw [same, List.getElem?_append] at found
    split at found
    · exact .inl found
    · next long =>
      obtain ⟨first, rfl⟩ := List.getElem?_eq_some_iff.mp found
      have here : number - state.served.length < 1 := first
      have last : number - state.served.length = 0 := by omega
      exact .inr ⟨by omega, by simp [last]⟩
  have kept (same : next.served = state.served) : state.served[number]? = some entry := by
    rw [← same]
    exact found
  cases moved with
  | silent same => exact .inl (kept (congrArg Ledger.served same))
  | request _ same => exact .inl (kept (congrArg Ledger.served same))
  | notified _ same => exact .inl (kept (congrArg Ledger.served same))
  | unnotified _ same => exact .inl (kept (congrArg Ledger.served same))
  | read _ _ same => exact .inl (kept (congrArg Ledger.served same))
  | panicked _ panics same =>
      refine (added (congrArg Ledger.served same)).imp_right ?_
      rintro ⟨rfl, rfl⟩
      exact ⟨rfl, .inr (.inl ⟨rfl, panics⟩)⟩
  | answered holds _ same =>
      refine (added (congrArg Ledger.served same)).imp_right ?_
      rintro ⟨rfl, rfl⟩
      exact ⟨rfl, .inl ⟨_, rfl, holds⟩⟩
  | dropped holds same =>
      refine (added (congrArg Ledger.served same)).imp_right ?_
      rintro ⟨rfl, rfl⟩
      exact ⟨rfl, .inr (.inr ⟨rfl, holds, rfl⟩)⟩

theorem LedgerStep.busy (moved : LedgerStep handler capacity state action next)
    (busy : next.reader.inHand ≠ []) : next.served = state.served := by
  cases moved with
  | silent same => exact congrArg Ledger.served same
  | request _ same => exact congrArg Ledger.served same
  | notified _ same => exact congrArg Ledger.served same
  | unnotified _ same => exact congrArg Ledger.served same
  | read _ _ same => exact congrArg Ledger.served same
  | panicked _ _ same => exact absurd (congrArg Ledger.inHand same) busy
  | answered _ _ same => exact absurd (congrArg Ledger.inHand same) busy
  | dropped _ same => exact absurd (congrArg Ledger.inHand same) busy

theorem report_dropping {request : ServerRequest} (holds : state.reader = .dropping request)
    (reports : state.report capacity = some next)
    : ((state.tryEvent capacity (dropDiagnostic request.id)).1 = true
        ↔ state.eventsAlive = true ∧ state.events.length < capacity)
      ∧ next.events
        = state.events
          ++ if (state.tryEvent capacity (dropDiagnostic request.id)).1 then
              [dropDiagnostic request.id]
            else
              [] := by
  rcases report_cases reports with ⟨_, _, other, -⟩ | ⟨_, again, rfl⟩
  · rw [holds] at other
    cases other
  · rw [holds] at again
    cases again
    rcases tryEvent_cases capacity state (dropDiagnostic request.id) with
      ⟨alive, room, taken⟩ | ⟨full, refused⟩
    · rw [taken]
      exact ⟨iff_of_true rfl ⟨alive, room⟩, rfl⟩
    · rw [refused]
      exact ⟨iff_of_false nofun full, (List.append_nil _).symm⟩

theorem Accounted.step {actions : List RpcAction}
    (accounted : Accounted handler capacity actions state)
    (ran : runActions (RpcState.step handler capacity) RpcState.spawn actions = some state)
    (moved : state.step handler capacity action = some next)
    : Accounted handler capacity (actions ++ [action]) next where
  consistent := accounted.consistent.step (step_cases moved)
  explained := accounted.explained.step accounted.consistent ran (step_cases moved)
  balanced := balanced_step accounted.balanced (ledger_cases moved)
  read := by
    rw [requests_step moved, accounted.read, List.filterMap_append, List.filterMap_cons,
      List.filterMap_nil]
    cases action.serverRequest <;> rfl
  answering {request outcome} holds := by
    have same : next.served = state.served :=
      (ledger_cases moved).busy (by rw [holds]; exact List.cons_ne_nil _ _)
    rw [same]
    rcases answering_cases moved holds with before | handled
    · exact accounted.answering before
    · exact handled
  served {number request fate} found := by
    rcases (ledger_cases moved).served found with
      before | ⟨rfl, ⟨outcome, same, holds⟩ | ⟨same, panics⟩ | ⟨rfl, holds, same⟩⟩
    · exact (accounted.served before).append [action]
    · cases same
      exact accounted.answering holds
    · cases same
      exact panics
    · dsimp only at holds same
      subst same
      exact ⟨actions, [], state, next, rfl, ran, rfl, holds, moved, report_dropping holds moved⟩

theorem accounted {actions : List RpcAction}
    (ran : runActions (RpcState.step handler capacity) RpcState.spawn actions = some state)
    : Accounted handler capacity actions state :=
  runActions_invariant (Accounted handler capacity) .spawn
    (fun _ _ _ _ ran accounted moved => accounted.step ran moved) ran

-- Turns

/-- How many steps of its own a call takes at most until it has returned. -/
def turnsLeft : CallState → Nat
  | .waiting _ => 2
  | .timedOut => 1
  | .returned _ => 0

theorem turnsLeft_le {before after : CallState} (leads : before.Leads after)
    : turnsLeft after ≤ turnsLeft before := by
  cases leads with
  | stays => exact Nat.le_refl _
  | answered => exact Nat.le_refl _
  | received => exact Nat.zero_le _
  | orphaned => exact Nat.zero_le _
  | expired => exact Nat.le_succ 1
  | forgotten => exact Nat.zero_le _

theorem CallStep.turn {call : Nat} {record : CallRecord} (moved : CallStep state action next)
    (own : turnOf action = some call) (found : state.calls[call]? = some record)
    : ∃ stage,
        next.calls[call]? = some ⟨record.id, stage⟩
        ∧ turnsLeft stage < turnsLeft record.state := by
  cases moved with
  | quiet other =>
      rw [other] at own
      cases own
  | refused => cases own
  | queued => cases own
  | received held =>
      cases own
      cases held.symm.trans found
      exact ⟨_, setCall_getElem?_self found, Nat.zero_lt_two⟩
  | orphaned held =>
      cases own
      cases held.symm.trans found
      exact ⟨_, setCall_getElem?_self found, Nat.zero_lt_two⟩
  | expired held =>
      cases own
      cases held.symm.trans found
      exact ⟨_, setCall_getElem?_self found, Nat.lt_succ_self 1⟩
  | @forgotten _ id held =>
      cases own
      cases held.symm.trans found
      exact ⟨_, @setCall_getElem?_self (state.removePending id) call _ _ found, Nat.zero_lt_one⟩
  | matched => cases own
  | delivered => cases own
  | closed other =>
      rw [other] at own
      cases own

/-- A call that has not returned can take a step of its own. -/
theorem Consistent.turn {call : Nat} {record : CallRecord} (consistent : state.Consistent)
    (found : state.calls[call]? = some record) (left : turnsLeft record.state ≠ 0)
    : ∃ action, turnOf action = some call ∧ (state.step handler capacity action).isSome := by
  obtain ⟨id, stage⟩ := record
  cases stage with
  | waiting reply =>
      cases reply with
      | some result =>
          refine ⟨.receive call, rfl, ?_⟩
          simp [RpcState.step, receive, found]
      | none =>
          refine ⟨.expire call, rfl, ?_⟩
          simp [RpcState.step, expire, found]
  | timedOut =>
      cases id with
      | some id =>
          refine ⟨.forget call, rfl, ?_⟩
          simp [RpcState.step, forget, found]
      | none =>
          rcases consistent.refused found with same | same
          · cases same
          · cases same
  | returned result => exact absurd rfl left

theorem run_kept {holds : CallState → Prop}
    (kept : ∀ {before after : CallState}, before.Leads after → holds before → holds after)
    {later : List RpcAction} {final : RpcState} {call : Nat} {record : CallRecord}
    (ran : runActions (step handler capacity) state later = some final)
    (found : state.calls[call]? = some record) (start : holds record.state)
    : ∃ stage, final.calls[call]? = some ⟨record.id, stage⟩ ∧ holds stage := by
  refine runActions_invariant
    (fun _ reached =>
      ∃ stage, reached.calls[call]? = some ⟨record.id, stage⟩ ∧ holds stage)
    ⟨record.state, found, start⟩ ?_ ran
  rintro earlier before action after - ⟨stage, found, held⟩ moved
  obtain ⟨stage', found', leads⟩ := (step_cases moved).kept found
  exact ⟨stage', found', kept leads held⟩

theorem run_turns {later : List RpcAction} {final : RpcState} {call : Nat} {record : CallRecord}
    (ran : runActions (step handler capacity) state later = some final)
    (found : state.calls[call]? = some record)
    : ∃ stage,
        final.calls[call]? = some ⟨record.id, stage⟩
        ∧ turnsLeft stage + later.countP (turnOf · = some call) ≤ turnsLeft record.state := by
  refine runActions_invariant
    (fun earlier reached =>
      ∃ stage,
        reached.calls[call]? = some ⟨record.id, stage⟩
        ∧ turnsLeft stage + earlier.countP (turnOf · = some call) ≤ turnsLeft record.state)
    ⟨record.state, found, Nat.le_refl _⟩ ?_ ran
  rintro earlier before action after - ⟨stage, found, bound⟩ moved
  have moved := step_cases moved
  rw [List.countP_append, List.countP_singleton]
  by_cases own : turnOf action = some call
  · obtain ⟨stage', found', fewer⟩ := moved.turn own found
    refine ⟨stage', found', ?_⟩
    rw [if_pos (decide_eq_true own)]
    dsimp only at fewer
    omega
  · obtain ⟨stage', found', leads⟩ := moved.kept found
    have fewer := turnsLeft_le leads
    refine ⟨stage', found', ?_⟩
    rw [if_neg (by simpa using own)]
    dsimp only at fewer
    omega

end RpcState

end Hane.Ai
