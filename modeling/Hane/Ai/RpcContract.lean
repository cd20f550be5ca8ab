import Hane.Ai.RpcRuns

/-! What the transport promises its callers and the server, over every run, and what closing it
leaves behind.
-/

namespace Hane.Ai

open Hane.Foundations

namespace RpcState

variable {handler : ServerRequestHandler} {capacity : Nat} {state next : RpcState}
  {action : RpcAction}

-- Closing

theorem isOpen_eq_false : state.isOpen = false ↔ state.pending = none := by
  rw [isOpen, Option.isSome_eq_false_iff, Option.isNone_iff_eq_none]

theorem CallStep.stays_closed (moved : CallStep state action next) (closed : state.pending = none)
    : next.pending = none := by
  cases moved with
  | quiet _ quiet => exact quiet.pending.trans closed
  | refused => exact closed
  | queued pending =>
      rw [pending] at closed
      cases closed
  | received => exact closed
  | orphaned => exact closed
  | expired => exact closed
  | @forgotten call id =>
      change (state.removePending id).pending = none
      rw [removePending, closed, Option.map_none]
  | @matched id =>
      change (state.removePending id).pending = none
      rw [removePending, closed, Option.map_none]
  | delivered => exact closed
  | closed _ pending =>
      rw [pending] at closed
      cases closed

/-- A closed core queues nothing, and refuses. -/
theorem LedgerStep.closed (moved : LedgerStep handler capacity state action next)
    (closed : state.isOpen = false)
    : next.sent = state.sent
      ∧ ∃ more,
          next.notices = state.notices ++ more
          ∧ ∀ outcome ∈ more, outcome = .error .disconnected := by
  have quiet (sent : next.sent = state.sent) (notices : next.notices = state.notices)
      : next.sent = state.sent
        ∧ ∃ more, next.notices = state.notices ++ more
          ∧ ∀ outcome ∈ more, outcome = .error .disconnected :=
    ⟨sent, [], notices.trans (List.append_nil _).symm, nofun⟩
  cases moved with
  | silent same => exact quiet (congrArg Ledger.sent same) (congrArg Ledger.notices same)
  | request isOpen =>
      rw [closed] at isOpen
      cases isOpen
  | notified isOpen =>
      rw [closed] at isOpen
      cases isOpen
  | @unnotified _ _ _ error refused same =>
      refine ⟨congrArg Ledger.sent same, [.error error], congrArg Ledger.notices same, ?_⟩
      intro outcome member
      rw [List.mem_singleton.mp member, refused closed]
  | read _ _ same => exact quiet (congrArg Ledger.sent same) (congrArg Ledger.notices same)
  | panicked _ _ same => exact quiet (congrArg Ledger.sent same) (congrArg Ledger.notices same)
  | answered _ isOpen =>
      rw [closed] at isOpen
      cases isOpen
  | dropped _ same => exact quiet (congrArg Ledger.sent same) (congrArg Ledger.notices same)

/-- What a closed core is after a run. -/
structure ClosedSince (state final : RpcState) : Prop where
  pending : final.pending = none
  sent : final.sent = state.sent
  notices : ∃ more,
    final.notices = state.notices ++ more ∧ ∀ outcome ∈ more, outcome = .error .disconnected
  calls : ∀ {call : Nat} {record : CallRecord},
    state.calls.length ≤ call
    → final.calls[call]? = some record
    → record = ⟨none, .returned (.error .disconnected)⟩

theorem closed_run {later : List RpcAction} {final : RpcState} (closed : state.pending = none)
    (ran : runActions (step handler capacity) state later = some final)
    : ClosedSince state final := by
  refine runActions_invariant (fun _ reached => ClosedSince state reached) ?_ ?_ ran
  · refine ⟨closed, rfl, ⟨[], (List.append_nil _).symm, by rintro _ ⟨⟩⟩, ?_⟩
    intro call record long found
    exact absurd (List.getElem?_eq_some_iff.mp found).1 (Nat.not_lt.mpr long)
  · rintro earlier before action after - since moved
    have shut := isOpen_eq_false.mpr since.pending
    obtain ⟨sent, more, notices, refused⟩ := (ledger_cases moved).closed shut
    obtain ⟨past, old, refusals⟩ := since.notices
    refine ⟨(step_cases moved).stays_closed since.pending, sent.trans since.sent, ?_, ?_⟩
    · refine ⟨past ++ more, ?_, ?_⟩
      · rw [notices, old, List.append_assoc]
      · intro outcome member
        rcases List.mem_append.mp member with member | member
        · exact refusals outcome member
        · exact refused outcome member
    · rintro call ⟨id, stage'⟩ long found
      rcases (step_cases moved).back found with ⟨stage, found, leads⟩ | ⟨-, made⟩
      · cases since.calls long found
        cases leads
        rfl
      · cases made with
        | refused cause =>
            rcases cause with rfl | ⟨-, isOpen⟩
            · rfl
            · rw [shut] at isOpen
              cases isOpen
        | queued isOpen =>
            rw [shut] at isOpen
            cases isOpen

theorem CallStep.closing {entry : RequestId × Nat} {id : Option RequestId}
    (moved : CallStep state action next) (isOpen : state.isOpen = true)
    (closes : next.isOpen = false) (member : entry ∈ state.entries)
    (waits : state.calls[entry.2]? = some ⟨id, .waiting none⟩)
    : next.calls[entry.2]? = some ⟨id, .waiting (some (.error .disconnected))⟩ := by
  have stays (same : next.pending = state.pending) : False := by
    rw [RpcState.isOpen, same, ← RpcState.isOpen, isOpen] at closes
    cases closes
  have removed {other : RequestId}
      (same : next.pending = (state.removePending other).pending) : False := by
    rw [RpcState.isOpen, same, removePending, Option.isSome_map, ← RpcState.isOpen, isOpen]
      at closes
    cases closes
  cases moved with
  | quiet _ quiet => exact (stays quiet.pending).elim
  | refused => exact (stays rfl).elim
  | queued => cases closes
  | received => exact (stays rfl).elim
  | orphaned => exact (stays rfl).elim
  | expired => exact (stays rfl).elim
  | forgotten => exact (removed rfl).elim
  | matched => exact (removed rfl).elim
  | delivered => exact (stays rfl).elim
  | @closed _ entries reader _ pending =>
      have known : state.entries = entries := by
        rw [RpcState.entries, pending, Option.getD_some]
      rw [markClosed_some pending]
      dsimp only
      rw [CallRecord.acceptAll_getElem? waits,
        if_pos (List.mem_map_of_mem (known ▸ member)), CallRecord.accept_waiting]

-- Server requests in hand

/-- The reader can go on with a server request. -/
theorem works (busy : state.reader.inHand ≠ [])
    : ∃ action ∈ [RpcAction.takeUp, .answer, .report],
        (state.step handler capacity action).isSome := by
  cases held : state.reader with
  | holding message =>
      refine ⟨.takeUp, by simp, ?_⟩
      rcases message with problem | message
      · simp [step, takeUp, held]
      · cases message with
        | response =>
            rw [held] at busy
            exact absurd rfl busy
        | notification => simp [step, takeUp, held]
        | serverRequest =>
            simp only [step, takeUp, held]
            split <;> rfl
  | answering request outcome =>
      refine ⟨.answer, by simp, ?_⟩
      simp only [step, answer, held]
      split
      · rfl
      · split <;> rfl
  | dropping request =>
      refine ⟨.report, by simp, ?_⟩
      simp [step, report, held]
  | idle =>
      rw [held] at busy
      exact absurd rfl busy
  | delivering =>
      rw [held] at busy
      exact absurd rfl busy
  | reporting =>
      rw [held] at busy
      exact absurd rfl busy
  | closing =>
      rw [held] at busy
      exact absurd rfl busy
  | ended =>
      rw [held] at busy
      exact absurd rfl busy

theorem Accounted.reply {actions : List RpcAction} {id : RequestId}
    {outcome : Except ErrorObject Value} (accounted : Accounted handler capacity actions state)
    (member : .response id outcome ∈ state.sent)
    : ∃ number method params, handler number method params = some outcome := by
  have reply : (id, outcome) ∈ state.sent.filterMap OutgoingLine.reply :=
    List.mem_filterMap.mpr ⟨_, member, rfl⟩
  have same : state.sent.filterMap OutgoingLine.reply = state.served.filterMap Fate.reply :=
    accounted.balanced.replies
  rw [same] at reply
  obtain ⟨⟨request, fate⟩, served, is⟩ := List.mem_filterMap.mp reply
  obtain ⟨number, found⟩ := List.mem_iff_getElem?.mp served
  cases fate with
  | queued answer =>
      cases is
      exact ⟨number, _, _, accounted.served found⟩
  | dropped => cases is
  | panicked => cases is

theorem Consistent.closing {final : RpcState} {later : List RpcAction} {entry : RequestId × Nat}
    (consistent : state.Consistent) (isOpen : state.isOpen = true)
    (moved : state.step handler capacity action = some next) (closes : next.isOpen = false)
    (ran : runActions (RpcState.step handler capacity) next later = some final)
    (member : entry ∈ state.entries)
    : ∃ before stage,
        state.calls[entry.2]? = some ⟨some entry.1, before⟩
        ∧ final.calls[entry.2]? = some ⟨some entry.1, stage⟩
        ∧ (before = .waiting none
            ∧ (stage = .waiting (some (.error .disconnected))
              ∨ stage = .returned (.error .disconnected))
          ∨ before = .timedOut
            ∧ (stage = .timedOut ∨ stage = .returned (.error .timeout))) := by
  obtain ⟨before, found, rfl | rfl⟩ := consistent.registered entry member
  · have answered := (step_cases moved).closing isOpen closes member found
    obtain ⟨stage, reached, kept⟩ :=
      @run_kept handler capacity next
        (fun stage =>
          stage = .waiting (some (.error .disconnected))
          ∨ stage = .returned (.error .disconnected))
        (by rintro before after leads (rfl | rfl) <;> cases leads <;> simp)
        later final entry.2 _ ran answered (.inl rfl)
    exact ⟨_, stage, found, reached, .inl ⟨rfl, kept⟩⟩
  · obtain ⟨stage, reached, leads⟩ := (step_cases moved).kept found
    obtain ⟨stage', reached', kept⟩ :=
      @run_kept handler capacity next
        (fun stage => stage = .timedOut ∨ stage = .returned (.error .timeout))
        (by rintro before after leads (rfl | rfl) <;> cases leads <;> simp)
        later final entry.2 _ ran reached (by cases leads <;> simp)
    exact ⟨_, stage', found, reached', .inr ⟨rfl, kept⟩⟩

-- The contract

/-- What a caller may rely on after some actions, and in every run that goes on from there. -/
structure CallContract (handler : ServerRequestHandler) (capacity : Nat)
    (actions : List RpcAction) (state : RpcState) : Prop where
  /-- A call that has not returned can go on, -/
  turn : ∀ {call : Nat} {record : CallRecord},
    state.calls[call]? = some record
    → turnsLeft record.state ≠ 0
    → ∃ action, turnOf action = some call ∧ (state.step handler capacity action).isSome
  /-- it returns within two steps of its own, -/
  turns : ∀ {later : List RpcAction} {final : RpcState} {call : Nat} {record : CallRecord},
    runActions (step handler capacity) state later = some final
    → state.calls[call]? = some record
    → ∃ stage,
        final.calls[call]? = some ⟨record.id, stage⟩
        ∧ turnsLeft stage + later.countP (turnOf · = some call) ≤ turnsLeft record.state
  /-- and what it has returned stays, as does a reply it has got. -/
  returned : ∀ {later : List RpcAction} {final : RpcState} {call : Nat}
      {id : Option RequestId} {result : Except RpcError Value},
    runActions (step handler capacity) state later = some final
    → (state.calls[call]? = some ⟨id, .returned result⟩
        → final.calls[call]? = some ⟨id, .returned result⟩)
      ∧ (state.calls[call]? = some ⟨id, .waiting (some result)⟩
        → final.calls[call]? = some ⟨id, .waiting (some result)⟩
          ∨ final.calls[call]? = some ⟨id, .returned result⟩)
  /-- A result, or an error of the server, is that of a response with the id of the call. -/
  answered : ∀ {call : Nat} {id : Option RequestId} {result : Except RpcError Value},
    state.calls[call]? = some ⟨id, .returned result⟩
    → result = .error .disconnected
      ∨ result = .error .backpressure
      ∨ result = .error .timeout
      ∨ ∃ own, id = some own ∧ Matched handler capacity actions call own result
  distinct : ∀ {first second : Nat} {id : RequestId} {stage stage' : CallState},
    state.calls[first]? = some ⟨some id, stage⟩
    → state.calls[second]? = some ⟨some id, stage'⟩
    → first = second
  room : state.entries.length ≤ maxPendingRequests

/-- In whatever order the threads take their turns, every call returns once and with its own
reply.
-/
theorem calls_return {actions : List RpcAction}
    (ran : runActions (step handler capacity) spawn actions = some state)
    : CallContract handler capacity actions state := by
  have accounted := accounted ran
  have consistent := accounted.consistent
  refine ⟨consistent.turn, run_turns, ?_, accounted.explained.returned, consistent.distinct,
    consistent.room⟩
  intro later final call id result ran
  constructor
  · intro found
    obtain ⟨stage, reached, rfl⟩ :=
      run_kept (by rintro before after leads rfl; cases leads; rfl) ran found rfl
    exact reached
  · intro found
    obtain ⟨stage, reached, rfl | rfl⟩ :=
      @run_kept handler capacity state
        (fun stage => stage = .waiting (some result) ∨ stage = .returned result)
        (by rintro before after leads (rfl | rfl) <;> cases leads <;> simp)
        later final call _ ran found (.inl rfl)
    · exact .inl reached
    · exact .inr reached

/-- A call gets its reply. -/
theorem calls_return_one
    : ∃ state,
        CallContract rejectAllServerRequests 4
          [.call "m" none, .read (.ok (.response (.number 1) (.ok .null))), .takeUp, .deliver,
            .receive 0]
          state
        ∧ state.calls[0]? = some ⟨some (.number 1), .returned (.ok .null)⟩ :=
  ⟨_, calls_return rfl, rfl⟩

/-- What closing leaves behind, after some actions and in every run that goes on from there. -/
structure ClosingContract (handler : ServerRequestHandler) (capacity : Nat) (state : RpcState)
    : Prop where
  closed : ∀ {later : List RpcAction} {final : RpcState},
    state.pending = none
    → runActions (step handler capacity) state later = some final
    → ClosedSince state final
  /-- A call that waits after the closing is about to get its reply. -/
  routed : ∀ {call : Nat} {id : Option RequestId},
    state.pending = none
    → state.calls[call]? = some ⟨id, .waiting none⟩
    → ∃ result, state.reader = .delivering call result
  /-- A call with an entry at the closing returns that, unless its timeout came before. -/
  closing : ∀ {action : RpcAction} {after final : RpcState} {later : List RpcAction}
      {entry : RequestId × Nat},
    state.isOpen = true
    → state.step handler capacity action = some after
    → after.isOpen = false
    → runActions (step handler capacity) after later = some final
    → entry ∈ state.entries
    → ∃ before stage,
        state.calls[entry.2]? = some ⟨some entry.1, before⟩
        ∧ final.calls[entry.2]? = some ⟨some entry.1, stage⟩
        ∧ (before = .waiting none
            ∧ (stage = .waiting (some (.error .disconnected))
              ∨ stage = .returned (.error .disconnected))
          ∨ before = .timedOut
            ∧ (stage = .timedOut ∨ stage = .returned (.error .timeout)))

/-- Whoever closes the transport, and whatever the other threads are doing: nothing is queued
later, and no call is left without an answer.
-/
theorem closing_releases {actions : List RpcAction}
    (ran : runActions (step handler capacity) spawn actions = some state)
    : ClosingContract handler capacity state := by
  have consistent := (accounted ran).consistent
  refine ⟨closed_run, ?_, consistent.closing⟩
  intro call id closed waits
  rcases consistent.awaited waits with ⟨entry, member, -⟩ | receives
  · rw [entries, closed] at member
    cases member
  · cases holds : state.reader with
    | delivering other result =>
        rw [holds] at receives
        cases receives
        exact ⟨result, rfl⟩
    | _ =>
        rw [holds] at receives
        cases receives

/-- A call waits when the transport is closed. -/
theorem closing_releases_one
    : ∃ state,
        ClosingContract rejectAllServerRequests 4 state
        ∧ state.isOpen = true
        ∧ state.entries = [(.number 1, 0)]
        ∧ (state.step rejectAllServerRequests 4 .shutdown).isSome :=
  ⟨_, @closing_releases rejectAllServerRequests 4 _ [.call "m" none] rfl, rfl, rfl, rfl⟩

/-- What the server may rely on for its requests, after some actions. -/
structure RequestContract (handler : ServerRequestHandler) (capacity : Nat)
    (actions : List RpcAction) (state : RpcState) : Prop where
  /-- Every request that was read is served once, in their order, -/
  read : state.requests = actions.filterMap RpcAction.serverRequest
  requests : state.requests = state.served.map Prod.fst ++ state.reader.inHand
  replies : state.sent.filterMap OutgoingLine.reply = state.served.filterMap Fate.reply
  works : state.reader.inHand ≠ []
    → ∃ action ∈ [RpcAction.takeUp, .answer, .report],
        (state.step handler capacity action).isSome
  /-- with what the handler returned for it, or dropped with a diagnostic, exactly if the queue of
  events has a receiver and room for it, unless the handler panicked on it.
  -/
  served : ∀ {number : Nat} {request : ServerRequest} {fate : Fate},
    state.served[number]? = some (request, fate)
    → Served handler capacity actions number request fate
  declines : handler = rejectAllServerRequests
    → ∀ {id : RequestId} {outcome : Except ErrorObject Value},
        .response id outcome ∈ state.sent
        → ∃ method, outcome = .error (.methodNotFound method)

/-- In whatever order the threads take their turns, every request of the server gets one answer or
is dropped, or ends the reader because the handler panics, and without a handler of its own none is
answered but by a refusal.
-/
theorem requests_answered {actions : List RpcAction}
    (ran : runActions (step handler capacity) spawn actions = some state)
    : RequestContract handler capacity actions state := by
  have accounted := accounted ran
  refine ⟨accounted.read, accounted.balanced.requests, accounted.balanced.replies, works,
    accounted.served, ?_⟩
  rintro rfl id outcome member
  obtain ⟨number, method, params, refused⟩ := accounted.reply member
  cases refused
  exact ⟨method, rfl⟩

/-- A request is refused; when the reply to the next one is to be queued the writer is gone and a
line of the error stream fills the queue of events, so that it is dropped without a diagnostic.
-/
theorem requests_answered_unreported
    : ∃ state,
        RequestContract rejectAllServerRequests 1
          [.read (.ok (.serverRequest (.string "a") "n" none)), .takeUp, .answer, .write true,
            .stderrLine "s", .read (.ok (.serverRequest (.number 7) "m" none)), .takeUp, .answer,
            .report]
          state
        ∧ state.isOpen = true
        ∧ state.served
          = [(⟨.string "a", "n", none⟩, .queued (.error (.methodNotFound "n"))),
            (⟨.number 7, "m", none⟩, .dropped false)] :=
  ⟨_, requests_answered rfl, rfl, rfl⟩

end RpcState

end Hane.Ai
