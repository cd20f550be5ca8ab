import Hane.Ai.Probe
import Hane.Document.BoundedTexts
import Mathlib.Data.List.Induction

/-! What the collector of a turn returns over any sequence of runtime events. -/

namespace Hane.Ai

open Hane.Document Hane.Foundations

-- Events of one turn

/-- A turn of a thread, in one generation of the runtime. -/
structure TurnKey where
  generation : Nat
  thread : String
  turn : String
deriving DecidableEq

namespace TurnKey

variable (key : TurnKey)

/-- The turn a notification names. -/
def turnOf (method : String) (params : Value) : Option String :=
  if method = "turn/completed" ∨ method = "turn/failed" then
    ((params.get "turn").getD .null).getStr "id"
  else
    params.getStr "turnId"

/-- An event of another generation, thread or turn. -/
def Foreign (event : RuntimeEvent) : Prop :=
  event.generation ≠ key.generation
  ∨ ∃ method params, event.kind = .notification method params
      ∧ ((params.getD .null).getStr "threadId" ≠ some key.thread
        ∨ turnOf method (params.getD .null) ≠ some key.turn)

/-- The item that an event of the turn starts or completes. -/
def itemOf (event : RuntimeEvent) : Option (Bool × Value) :=
  match event.kind with
  | .diagnostic _ => none
  | .notification method params =>
      let params := params.getD .null
      if event.generation = key.generation ∧ params.getStr "threadId" = some key.thread
          ∧ params.getStr "turnId" = some key.turn
          ∧ (method = "item/started" ∨ method = "item/completed") then
        some (method = "item/completed", (params.get "item").getD .null)
      else
        none

/-- A tool item of the turn. -/
def isTool (event : RuntimeEvent) : Bool :=
  (key.itemOf event).any fun item => isToolActivity ((item.2.getStr "type").getD "")

/-- The id and the text of the agent message an event of the turn completes. -/
def messageOf (event : RuntimeEvent) : Option (String × Option String) :=
  (key.itemOf event).bind fun item =>
    if item.1 ∧ item.2.getStr "type" = some "agentMessage" then
      ((item.2.getStr "id").filter (· ≠ "")).map fun id => (id, item.2.getStr "text")
    else
      none

def addMessage (found : List (String × Option String)) (event : RuntimeEvent)
    : List (String × Option String) :=
  match key.messageOf event with
  | none => found
  | some message =>
      if found.any fun other => other.1 == message.1 then found else found ++ [message]

/-- The distinct agent messages completed in some events, each by its first event. -/
def messages (events : List RuntimeEvent) : List (String × Option String) :=
  events.foldl key.addMessage []

/-- The texts of the distinct agent messages. -/
def texts (events : List RuntimeEvent) : List Text :=
  (key.messages events).map fun message => (message.2.getD "").toList

/-- The turn is completed without an error. -/
def Completes (event : RuntimeEvent) : Prop :=
  ∃ params turn, event = ⟨key.generation, .notification "turn/completed" (some params)⟩
    ∧ params.getStr "threadId" = some key.thread
    ∧ params.get "turn" = some turn
    ∧ turn.getStr "id" = some key.turn
    ∧ turn.getStr "status" = some "completed"
    ∧ ∀ error, turn.get "error" = some error → error.isNull = true

end TurnKey

-- One event

namespace ProbeCollector

def key (collector : ProbeCollector) : TurnKey :=
  ⟨collector.runtimeGeneration, collector.threadId, collector.turnId⟩

theorem observe_settled {collector : ProbeCollector} {terminal : ProbeTerminal}
    (settled : collector.terminal = some terminal) (event : RuntimeEvent)
    : collector.observe event = (some terminal, collector) := by
  rw [observe, if_pos (.inl (by rw [settled]; rfl)), settled]

/-- What the collector makes of an event while it has no terminal. -/
inductive Observes (collector : ProbeCollector) (event : RuntimeEvent)
    : Option ProbeTerminal × ProbeCollector → Prop where
  | passed (other : collector.key.messageOf event = none)
      (harmless : collector.key.isTool event = false)
    : Observes collector event (none, collector)
  | tool (other : collector.key.messageOf event = none)
      (active : collector.key.isTool event = true)
    : Observes collector event (none, { collector with unsafeToolActivity := true })
  | message {id : String} {text : Option String}
      (message : collector.key.messageOf event = some (id, text))
      (harmless : collector.key.isTool event = false)
    : Observes collector event (none, collector.collect id text)
  | settled {terminal : ProbeTerminal} {cause : Option String}
      (own : ¬collector.key.Foreign event) (other : collector.key.messageOf event = none)
      (sound : ∀ text, terminal = .completed text →
        text = collector.text
        ∧ collector.key.Completes event
        ∧ (collector.unsafeToolActivity && collector.failOnToolActivity) = false)
    : Observes collector event (collector.settle terminal cause)

theorem Observes.other {collector : ProbeCollector} {event : RuntimeEvent}
    (none : collector.key.itemOf event = none) : Observes collector event (.none, collector) :=
  .passed (by rw [TurnKey.messageOf, none]; rfl) (by rw [TurnKey.isTool, none]; rfl)

theorem Observes.uncompleted {collector : ProbeCollector} {event : RuntimeEvent}
    {terminal : ProbeTerminal} {cause : Option String} (own : ¬collector.key.Foreign event)
    (other : collector.key.messageOf event = none) (never : ∀ text, terminal ≠ .completed text)
    : Observes collector event (collector.settle terminal cause) :=
  .settled own other fun text same => absurd same (never text)

theorem not_foreign {collector : ProbeCollector} {generation : Nat} {method : String}
    {params : Option Value} (same : generation = collector.runtimeGeneration)
    (thread : (params.getD .null).getStr "threadId" = some collector.threadId)
    (turn : TurnKey.turnOf method (params.getD .null) = some collector.turnId)
    : ¬collector.key.Foreign ⟨generation, .notification method params⟩ := by
  rintro (other | ⟨method', params', kind, other | other⟩)
  · exact other same
  · cases kind
    exact other thread
  · cases kind
    exact other turn

theorem observeTurn_observes {collector : ProbeCollector} {method : String} {params : Value}
    {generation : Nat} (same : generation = collector.runtimeGeneration)
    (thread : params.getStr "threadId" = some collector.threadId)
    (ended : method = "turn/completed" ∨ method = "turn/failed")
    (none : collector.key.itemOf ⟨generation, .notification method (some params)⟩ = none)
    : Observes collector ⟨generation, .notification method (some params)⟩
        (collector.observeTurn method params) := by
  rw [observeTurn]
  by_cases turn : ((params.get "turn").getD .null).getStr "id" = some collector.turnId
  · have own : ¬collector.key.Foreign ⟨generation, .notification method (some params)⟩ :=
      not_foreign same thread (by rw [TurnKey.turnOf, if_pos ended]; exact turn)
    have other : collector.key.messageOf ⟨generation, .notification method (some params)⟩
        = .none := by
      rw [TurnKey.messageOf, none]
      rfl
    rw [if_neg (not_not.mpr turn)]
    by_cases active : (collector.unsafeToolActivity && collector.failOnToolActivity) = true
    · rw [if_pos active]
      exact .uncompleted own other (by rintro _ ⟨⟩)
    · rw [if_neg active]
      split
      · exact .uncompleted own other (by rintro _ ⟨⟩)
      · split
        · rename_i completes
          obtain ⟨rfl, status, error⟩ := completes
          split
          · exact .uncompleted own other (by rintro _ ⟨⟩)
          · refine .settled own other fun text same' => ⟨?_, ?_, by simpa using active⟩
            · exact (ProbeTerminal.completed.inj same').symm
            · -- The turn is there, as it has an id.
              cases named : params.get "turn" with
              | none =>
                  rw [named] at turn
                  cases turn
              | some value =>
                  rw [named, Option.getD_some] at turn status error
                  refine ⟨params, value, by rw [same]; rfl, thread, named, turn, ?_, ?_⟩
                  · cases state : value.getStr "status" with
                    | none =>
                        rw [state] at status
                        exact absurd status (by decide)
                    | some state =>
                        rw [state, Option.getD_some] at status
                        rw [status]
                  · intro found here
                    rw [here] at error
                    by_contra shown
                    simp [Option.filter, shown] at error
        · split
          · exact .uncompleted own other (by rintro _ ⟨⟩)
          · exact .uncompleted own other (by rintro _ ⟨⟩)
  · rw [if_pos turn]
    exact .other none

/-- An item of the turn is passed over, or is tool activity or an agent message. -/
theorem observeItem_observes {collector : ProbeCollector} {method : String}
    {params : Option Value} {generation : Nat}
    (same : generation = collector.runtimeGeneration)
    (thread : (params.getD .null).getStr "threadId" = some collector.threadId)
    (started : method = "item/started" ∨ method = "item/completed")
    : Observes collector ⟨generation, .notification method params⟩
        (collector.observeItem (method = "item/completed") (params.getD .null)) := by
  rw [observeItem]
  by_cases turn : (params.getD .null).getStr "turnId" = some collector.turnId
  · have item : collector.key.itemOf ⟨generation, .notification method params⟩
        = some (decide (method = "item/completed"), ((params.getD .null).get "item").getD .null) :=
      if_pos ⟨same, thread, turn, started⟩
    generalize ((params.getD .null).get "item").getD .null = found at item ⊢
    have tool : collector.key.isTool ⟨generation, .notification method params⟩
        = isToolActivity ((found.getStr "type").getD "") := by
      rw [TurnKey.isTool, item, Option.any_some]
    rw [if_neg (not_not.mpr turn)]
    by_cases active : isToolActivity ((found.getStr "type").getD "") = true
    · rw [if_pos active]
      refine .tool ?_ (tool.trans active)
      rw [TurnKey.messageOf, item, Option.bind_some, if_neg]
      rintro ⟨-, message⟩
      rw [message] at active
      exact absurd active (by decide)
    · have harmless := tool.trans (Bool.eq_false_iff.mpr active)
      rw [if_neg active]
      by_cases message : method = "item/completed" ∧ (found.getStr "type").getD "" = "agentMessage"
      · have kind : found.getStr "type" = some "agentMessage" := by
          cases named : found.getStr "type" with
          | none =>
              rw [named] at message
              exact absurd message.2 (by decide)
          | some kind =>
              rw [named] at message
              exact congrArg some message.2
        have completed : collector.key.messageOf ⟨generation, .notification method params⟩
            = ((found.getStr "id").filter (· ≠ "")).map fun id => (id, found.getStr "text") := by
          rw [TurnKey.messageOf, item, Option.bind_some, if_pos ⟨by simpa using message.1, kind⟩]
        rw [if_pos ⟨by simpa using message.1, message.2⟩]
        have own : ¬collector.key.Foreign ⟨generation, .notification method params⟩ := by
          refine not_foreign same thread ?_
          rw [TurnKey.turnOf, if_neg (by rw [message.1]; decide)]
          exact turn
        cases id : (found.getStr "id").filter (· ≠ "") with
        | none => exact .uncompleted own (by rw [completed, id]; rfl) (by rintro _ ⟨⟩)
        | some id' =>
            rw [id, Option.map_some] at completed
            exact .message completed harmless
      · rw [if_neg (by simpa using message)]
        refine .passed ?_ harmless
        rw [TurnKey.messageOf, item, Option.bind_some, if_neg]
        rintro ⟨completes, kind⟩
        apply message
        rw [kind]
        exact ⟨by simpa using completes, rfl⟩
  · rw [if_pos turn]
    refine .other ?_
    exact if_neg fun own => turn own.2.2.1

/-- An event is observed in one of the ways named, by cases on what it says. -/
theorem observe_observes {collector : ProbeCollector} (opened : collector.terminal = none)
    (event : RuntimeEvent) : Observes collector event (collector.observe event) := by
  obtain ⟨generation, kind⟩ := event
  by_cases same : generation = collector.runtimeGeneration
  · rw [observe, if_neg (by simp [opened, same])]
    cases kind with
    | diagnostic text => exact .other rfl
    | notification method params =>
        dsimp only
        by_cases thread : (params.getD .null).getStr "threadId" = some collector.threadId
        · rw [if_neg (not_not.mpr thread)]
          by_cases item : method = "item/started" ∨ method = "item/completed"
          · rw [if_pos item]
            exact observeItem_observes same thread item
          · have none : collector.key.itemOf ⟨generation, .notification method params⟩ = none := by
              simp only [TurnKey.itemOf]
              exact if_neg fun own => item own.2.2.2
            rw [if_neg item]
            split
            · rename_i ended
              cases params with
              | none => cases thread
              | some params => exact observeTurn_observes same thread ended none
            · exact .other none
        · rw [if_pos thread]
          refine .other ?_
          simp only [TurnKey.itemOf]
          exact if_neg fun own => thread own.2.1
  · rw [observe, if_pos (.inr same), opened]
    refine .other ?_
    unfold TurnKey.itemOf
    split
    · rfl
    · exact if_neg fun own => same own.1

theorem itemOf_foreign {key : TurnKey} {event : RuntimeEvent} (foreign : key.Foreign event)
    : key.itemOf event = none := by
  obtain ⟨generation, kind⟩ := event
  cases kind with
  | diagnostic text => rfl
  | notification method params =>
      refine if_neg ?_
      rintro ⟨same, thread, turn, item⟩
      rcases foreign with other | ⟨method', params', kind, other | other⟩
      · exact other same
      · cases kind
        exact other thread
      · cases kind
        apply other
        rw [TurnKey.turnOf, if_neg]
        · exact turn
        · rcases item with rfl | rfl <;> decide

theorem observe_foreign {collector : ProbeCollector} {event : RuntimeEvent}
    (foreign : collector.key.Foreign event) : (collector.observe event).2 = collector := by
  have none := itemOf_foreign foreign
  cases settled : collector.terminal with
  | some terminal => rw [observe_settled settled]
  | none =>
      have seen := observe_observes settled event
      generalize collector.observe event = outcome at seen ⊢
      cases seen with
      | passed other harmless => rfl
      | tool other active =>
          rw [TurnKey.isTool, none] at active
          cases active
      | message message harmless =>
          rw [TurnKey.messageOf, none] at message
          cases message
      | settled own other sound => exact absurd foreign own

theorem observe_message {collector : ProbeCollector} (opened : collector.terminal = none)
    {event : RuntimeEvent} {id : String} {text : Option String}
    (message : collector.key.messageOf event = some (id, text))
    : collector.observe event = (none, collector.collect id text) := by
  have seen := observe_observes opened event
  generalize collector.observe event = outcome at seen ⊢
  cases seen with
  | passed other harmless => cases other.symm.trans message
  | tool other active => cases other.symm.trans message
  | message found harmless =>
      obtain ⟨rfl, rfl⟩ := Prod.mk.inj (Option.some.inj (found.symm.trans message))
      rfl
  | settled own other sound => cases other.symm.trans message

/-- The end of a turn without an error returns what was collected, if it is not blank. -/
theorem observe_completes {collector : ProbeCollector} (opened : collector.terminal = none)
    {event : RuntimeEvent} (completes : collector.key.Completes event)
    (harmless : (collector.unsafeToolActivity && collector.failOnToolActivity) = false)
    (shown : trim collector.text ≠ [])
    : (collector.observe event).1 = some (.completed collector.text) := by
  obtain ⟨params, turn, rfl, thread, found, id, status, error⟩ := completes
  have clear : (turn.get "error").filter (fun error => !error.isNull) = none := by
    cases here : turn.get "error" with
    | none => rfl
    | some error' =>
        rw [Option.filter_some, error error' here]
        rfl
  change _ = some collector.threadId at thread
  change _ = some collector.turnId at id
  rw [observe, if_neg (by simp [opened, key])]
  dsimp only
  rw [Option.getD_some, if_neg (not_not.mpr thread), if_neg (by decide), if_pos (.inl rfl),
    observeTurn, found, Option.getD_some, if_neg (not_not.mpr id), harmless,
    if_neg Bool.false_ne_true, status, Option.getD_some, if_neg (by decide), clear,
    if_pos ⟨rfl, rfl, rfl⟩, if_neg shown]
  rfl

theorem observe_terminal {collector : ProbeCollector} {event : RuntimeEvent}
    {terminal : ProbeTerminal} (returned : (collector.observe event).1 = some terminal)
    : (collector.observe event).2.terminal = some terminal := by
  cases settled : collector.terminal with
  | some earlier =>
      rw [observe_settled settled] at returned ⊢
      exact settled.trans returned
  | none =>
      have seen := observe_observes settled event
      generalize collector.observe event = outcome at seen returned ⊢
      cases seen with
      | passed other harmless => cases returned
      | tool other active => cases returned
      | message message harmless => cases returned
      | settled own other sound => exact returned

-- Bounded texts

theorem appendBounded_eq (collector : ProbeCollector) (value : Text)
    : collector.appendBounded value
      = { collector with
          text :=
            collector.text ++ fitting (collector.maxTextBytes - collector.textBytes) value
          textBytes :=
            collector.textBytes
            + utf8Len (fitting (collector.maxTextBytes - collector.textBytes) value)
          overflowed :=
            collector.overflowed
            || decide (fitting (collector.maxTextBytes - collector.textBytes) value ≠ value) } := by
  obtain ⟨rest, whole, size, inside, -⟩ :=
    fitting_split (collector.maxTextBytes - collector.textBytes) value
  rw [appendBounded]
  split
  · rename_i full
    rw [full] at whole inside ⊢
    have none : fitting 0 value = [] := (utf8Len_eq_zero_iff _).mp (Nat.le_zero.mp inside)
    rw [none, List.append_nil, utf8Len_nil, Nat.add_zero]
    cases value <;> rfl
  · have cut : (decide (floorBoundary value
          (min (utf8Len value) (collector.maxTextBytes - collector.textBytes)) < utf8Len value))
        = decide (fitting (collector.maxTextBytes - collector.textBytes) value ≠ value) := by
      rw [← size]
      apply decide_eq_decide.mpr
      constructor
      · intro shorter same
        rw [same] at shorter
        exact Nat.lt_irrefl _ shorter
      · intro differ
        by_contra long
        have total := congrArg utf8Len whole
        rw [utf8Len_append] at total
        obtain rfl := (utf8Len_eq_zero_iff rest).mp (by omega)
        rw [List.append_nil] at whole
        exact differ whole.symm
    dsimp only
    rw [cut, size]
    rfl

-- Runs

def after (collector : ProbeCollector) (events : List RuntimeEvent) : ProbeCollector :=
  events.foldl (fun collector event => (collector.observe event).2) collector

def returns (collector : ProbeCollector) : List RuntimeEvent → List (Option ProbeTerminal)
  | [] => []
  | event :: rest => (collector.observe event).1 :: returns (collector.observe event).2 rest

theorem after_concat (collector : ProbeCollector) (past : List RuntimeEvent)
    (event : RuntimeEvent)
    : collector.after (past ++ [event]) = ((collector.after past).observe event).2 := by
  rw [after, List.foldl_append]
  rfl

/-- The turn of a collector stays the same. -/
theorem observe_key (collector : ProbeCollector) (event : RuntimeEvent)
    : (collector.observe event).2.key = collector.key := by
  cases settled : collector.terminal with
  | some terminal => rw [observe_settled settled]
  | none =>
      have seen := observe_observes settled event
      generalize collector.observe event = outcome at seen ⊢
      cases seen with
      | passed other harmless => rfl
      | tool other active => rfl
      | @message id text message harmless =>
          rw [collect]
          split
          · rfl
          · cases text with
            | none => rfl
            | some text =>
                dsimp only
                rw [appendBounded_eq]
                rfl
      | settled own other sound => rfl

/-- Leaving out events of other turns changes nothing of what is returned for the rest, by
induction on the events.
-/
theorem returns_filter (keeps : RuntimeEvent → Bool) (events : List RuntimeEvent)
    (collector : ProbeCollector)
    (foreign : ∀ event ∈ events, keeps event = false → collector.key.Foreign event)
    : collector.returns (events.filter keeps)
      = ((events.zip (collector.returns events)).filter fun entry => keeps entry.1).map
        Prod.snd := by
  induction events generalizing collector with
  | nil => rfl
  | cons event rest ih =>
      have later := ih (collector.observe event).2 fun other member leaves =>
        (observe_key collector event).symm ▸ foreign other (List.mem_cons_of_mem _ member) leaves
      rw [returns, List.zip_cons_cons]
      by_cases kept : keeps event = true
      · rw [List.filter_cons_of_pos kept, List.filter_cons_of_pos (by exact kept), List.map_cons,
          returns, later]
      · have leaves := Bool.eq_false_iff.mpr kept
        rw [List.filter_cons_of_neg kept, List.filter_cons_of_neg (by exact kept), ← later,
          observe_foreign (foreign event List.mem_cons_self leaves)]

theorem returns_settled {collector : ProbeCollector} {terminal : ProbeTerminal}
    (settled : collector.terminal = some terminal) (events : List RuntimeEvent)
    : ∀ returned ∈ collector.returns events, returned = some terminal := by
  induction events with
  | nil =>
      intro returned member
      cases member
  | cons event rest ih =>
      rw [returns, observe_settled settled]
      exact List.forall_mem_cons.mpr ⟨rfl, ih⟩

-- What has been collected

def opened (key : TurnKey) (limit : Nat) (allow : Bool) : ProbeCollector :=
  let collector := withMaxTextBytes key.generation key.thread key.turn limit
  if allow then collector.allowToolActivity else collector

/-- What a collector without a terminal holds after some events. -/
structure Collected (key : TurnKey) (limit : Nat) (allow : Bool) (past : List RuntimeEvent)
    (collector : ProbeCollector) : Prop where
  turn : collector.key = key
  bound : collector.maxTextBytes = limit
  policy : collector.failOnToolActivity = !allow
  unsettled : collector.terminal = none
  ids : ∀ id, id ∈ collector.itemIds ↔ id ∈ (key.messages past).map Prod.fst
  text : collector.text = (gathered limit (key.texts past)).flatten
  bytes : collector.textBytes = utf8Len collector.text
  overflowed : collector.overflowed = decide (gathered limit (key.texts past) ≠ key.texts past)
  tools : collector.unsafeToolActivity = past.any key.isTool

section Collecting

variable {key : TurnKey} {limit : Nat} {allow : Bool} {past : List RuntimeEvent}
  {collector : ProbeCollector} {event : RuntimeEvent}

theorem collected_opened (key : TurnKey) (limit : Nat) (allow : Bool)
    : Collected key limit allow [] (opened key limit allow) := by
  cases allow <;> exact {
    turn := rfl
    bound := rfl
    policy := rfl
    unsettled := rfl
    ids := fun _ => Iff.rfl
    text := rfl
    bytes := rfl
    overflowed := rfl
    tools := rfl
  }

theorem messages_concat (key : TurnKey) (past : List RuntimeEvent) (event : RuntimeEvent)
    : key.messages (past ++ [event]) = key.addMessage (key.messages past) event := by
  rw [TurnKey.messages, List.foldl_append]
  rfl

theorem Collected.other (collected : Collected key limit allow past collector)
    (other : key.messageOf event = none) {active : Bool} (tool : key.isTool event = active)
    : Collected key limit allow (past ++ [event])
        { collector with unsafeToolActivity := collector.unsafeToolActivity || active } := by
  have same : key.messages (past ++ [event]) = key.messages past := by
    rw [messages_concat, TurnKey.addMessage, other]
  have texts : key.texts (past ++ [event]) = key.texts past := by
    rw [TurnKey.texts, same, TurnKey.texts]
  refine { collected with ids := ?_, text := ?_, overflowed := ?_, tools := ?_ }
  · rw [same]
    exact collected.ids
  · rw [texts]
    exact collected.text
  · rw [texts]
    exact collected.overflowed
  · rw [List.any_append, ← collected.tools, ← tool, List.any_cons, List.any_nil, Bool.or_false]

theorem collect_new {id : String} (fresh : collector.itemIds.contains id = false)
    (text : Option String)
    : collector.collect id text
      = appendBounded { collector with itemIds := id :: collector.itemIds }
        (text.getD "").toList := by
  rw [collect, if_neg (by rw [fresh]; exact Bool.false_ne_true)]
  cases text with
  | some text => rfl
  | none =>
      have whole : fitting (collector.maxTextBytes - collector.textBytes) [] = [] :=
        fitting_of_le (Nat.zero_le _)
      have empty : ((none : Option String).getD "").toList = [] := rfl
      rw [empty, appendBounded_eq]
      dsimp only
      rw [whole, List.append_nil, utf8Len_nil, Nat.add_zero, decide_eq_false (not_not.mpr rfl),
        Bool.or_false]

/-- An agent message adds its text, unless it was found before. -/
theorem Collected.message (collected : Collected key limit allow past collector) {id : String}
    {text : Option String} (message : key.messageOf event = some (id, text))
    (harmless : key.isTool event = false)
    : Collected key limit allow (past ++ [event]) (collector.collect id text) := by
  have known : collector.itemIds.contains id
      = (key.messages past).any fun other => other.1 == id := by
    apply Bool.eq_iff_iff.mpr
    rw [List.contains_iff_mem, collected.ids, List.mem_map, List.any_eq_true]
    simp only [beq_iff_eq]
  have tools : collector.unsafeToolActivity = (past ++ [event]).any key.isTool := by
    rw [List.any_append, ← collected.tools, List.any_cons, List.any_nil, harmless]
    simp
  by_cases found : ((key.messages past).any fun other => other.1 == id) = true
  · have same : key.messages (past ++ [event]) = key.messages past := by
      rw [messages_concat, TurnKey.addMessage, message]
      exact if_pos found
    have texts : key.texts (past ++ [event]) = key.texts past := by
      rw [TurnKey.texts, same, TurnKey.texts]
    rw [collect, if_pos (known.trans found)]
    refine { collected with ids := ?_, text := ?_, overflowed := ?_, tools := tools }
    · rw [same]
      exact collected.ids
    · rw [texts]
      exact collected.text
    · rw [texts]
      exact collected.overflowed
  · have added : key.messages (past ++ [event]) = key.messages past ++ [(id, text)] := by
      rw [messages_concat, TurnKey.addMessage, message]
      exact if_neg found
    have texts : key.texts (past ++ [event]) = key.texts past ++ [(text.getD "").toList] := by
      rw [TurnKey.texts, added, List.map_append]
      rfl
    rw [collect_new (known.trans (Bool.eq_false_iff.mpr found)), appendBounded_eq]
    dsimp only
    rw [collected.bytes, collected.text, collected.bound, collected.overflowed]
    have gathers := gathered_concat limit (key.texts past) (text.getD "").toList
    rw [← texts] at gathers
    refine {
      turn := collected.turn
      bound := rfl
      policy := collected.policy
      unsettled := collected.unsettled
      ids := ?_
      text := ?_
      bytes := ?_
      overflowed := ?_
      tools := tools
    }
    · intro other
      rw [added, List.map_append, List.mem_append, List.mem_cons, collected.ids, or_comm]
      simp
    · rw [gathers, List.flatten_append, List.flatten_singleton]
    · rw [utf8Len_append]
    · rw [gathers, texts, ← Bool.decide_or]
      apply decide_eq_decide.mpr
      rw [← not_and_or, not_iff_not]
      constructor
      · rintro ⟨same, last⟩
        rw [last, same]
      · intro same
        obtain ⟨front, last⟩ := List.append_inj' same rfl
        exact ⟨front, (List.cons.inj last).1⟩

theorem Collected.step (collected : Collected key limit allow past collector)
    (event : RuntimeEvent)
    : ((collector.observe event).1 = none
        ∧ Collected key limit allow (past ++ [event]) (collector.observe event).2)
      ∨ ∃ terminal,
        (collector.observe event).1 = some terminal
        ∧ (collector.observe event).2.overflowed = collector.overflowed
        ∧ ∀ text, terminal = .completed text →
          text = collector.text
          ∧ key.Completes event
          ∧ (allow = false → collector.unsafeToolActivity = false) := by
  obtain rfl := collected.turn
  have seen := observe_observes collected.unsettled event
  generalize collector.observe event = outcome at seen ⊢
  cases seen with
  | passed other harmless =>
      have passed := collected.other other harmless
      rw [Bool.or_false] at passed
      exact .inl ⟨rfl, passed⟩
  | tool other active =>
      have active := collected.other other active
      rw [Bool.or_true] at active
      exact .inl ⟨rfl, active⟩
  | message message harmless => exact .inl ⟨rfl, collected.message message harmless⟩
  | @settled terminal cause own other sound =>
      refine .inr ⟨terminal, rfl, rfl, fun text same => ?_⟩
      obtain ⟨content, completes, tools⟩ := sound text same
      refine ⟨content, completes, fun strict => ?_⟩
      rw [collected.policy, strict] at tools
      simpa using tools

/-- A run collects all events, or those up to the one that settles it, by induction on the events
from the last one.
-/
theorem after_collected (key : TurnKey) (limit : Nat) (allow : Bool) (events : List RuntimeEvent)
    : Collected key limit allow events ((opened key limit allow).after events)
      ∨ ∃ past event later terminal,
        events = past ++ event :: later
        ∧ Collected key limit allow past ((opened key limit allow).after past)
        ∧ (((opened key limit allow).after past).observe event).1 = some terminal
        ∧ (opened key limit allow).after events
          = (((opened key limit allow).after past).observe event).2 := by
  induction events using List.reverseRecOn with
  | nil => exact .inl (collected_opened key limit allow)
  | append_singleton events event ih =>
      rw [after_concat]
      rcases ih with collected | ⟨past, first, later, terminal, split, collected, settles, final⟩
      · rcases collected.step event with ⟨-, collects⟩ | ⟨terminal, settles, -⟩
        · exact .inl collects
        · exact .inr ⟨events, event, [], terminal, rfl, collected, settles, rfl⟩
      · refine .inr ⟨past, first, later ++ [event], terminal, ?_, collected, settles, ?_⟩
        · rw [split, List.append_assoc, List.cons_append]
        · rw [final, observe_settled (observe_terminal settles)]

/-- What is returned as completed: at the end of the turn, the messages cut to the limit. -/
theorem Collected.completes (collected : Collected key limit allow past collector) {text : Text}
    (settles : (collector.observe event).1 = some (.completed text))
    : key.Completes event
      ∧ utf8Len text ≤ limit
      ∧ (text <+: (key.texts past).flatten ↔ Gapless limit (key.texts past))
      ∧ (text = (key.texts past).flatten ↔ (collector.observe event).2.textOverflowed = false)
      ∧ (allow = false → ∀ other ∈ past, key.isTool other = false) := by
  rcases collected.step event with ⟨passed, -⟩ | ⟨terminal, settles', overflowed, sound⟩
  · cases passed.symm.trans settles
  obtain rfl := Option.some.inj (settles'.symm.trans settles)
  obtain ⟨same, completes, tools⟩ := sound text rfl
  rw [collected.text] at same
  rw [textOverflowed, overflowed, collected.overflowed, same]
  refine ⟨completes, gathered_flatten_le limit _, gathered_isPrefix_iff, ?_, ?_⟩
  · rw [gathered_flatten_eq_iff, decide_eq_false_iff_not, not_not]
  · intro strict other member
    have none := tools strict
    rw [collected.tools, List.any_eq_false] at none
    exact Bool.eq_false_iff.mpr (none other member)

end Collecting

/-- Whatever events a collector observes: those of other turns do not change what is returned for
the rest, and a terminal is returned from then on. A turn is returned as completed only at or
after its end without an error, with the agent messages before it cut to the limit. They are a
beginning of all of them exactly when the limit leaves no gap.
-/
theorem observe_run (collector : ProbeCollector) (events : List RuntimeEvent)
    : (∀ keeps : RuntimeEvent → Bool,
        (∀ event ∈ events, keeps event = false → collector.key.Foreign event)
        → collector.returns (events.filter keeps)
          = ((events.zip (collector.returns events)).filter fun entry => keeps entry.1).map
            Prod.snd)
      ∧ (∀ past event later terminal,
        events = past ++ event :: later
        → ((collector.after past).observe event).1 = some terminal
        → ∀ returned ∈ (collector.after (past ++ [event])).returns later,
            returned = some terminal)
      ∧ ∀ key limit allow past event later text,
          collector = opened key limit allow
          → events = past ++ event :: later
          → ((collector.after past).observe event).1 = some (.completed text)
          → ∃ earlier done rest,
              past ++ [event] = earlier ++ done :: rest
              ∧ key.Completes done
              ∧ utf8Len text ≤ limit
              ∧ (text <+: (key.texts earlier).flatten ↔ Gapless limit (key.texts earlier))
              ∧ (text = (key.texts earlier).flatten
                ↔ (collector.after (past ++ [event])).textOverflowed = false)
              ∧ (allow = false → ∀ other ∈ earlier, key.isTool other = false) := by
  refine ⟨fun keeps => returns_filter keeps events collector, ?_, ?_⟩
  · intro past event later terminal _ settles
    rw [after_concat]
    exact returns_settled (observe_terminal settles) later
  · rintro key limit allow past event _ text rfl _ completes
    rcases after_collected key limit allow past with
      collected | ⟨earlier, done, later, terminal, split, collected, settles, final⟩
    · refine ⟨past, event, [], rfl, ?_⟩
      rw [after_concat]
      exact collected.completes completes
    · refine ⟨earlier, done, later ++ [event], ?_, ?_⟩
      · rw [split, List.append_assoc, List.cons_append]
      · rw [final, observe_settled (observe_terminal settles)] at completes
        obtain rfl := Option.some.inj completes
        rw [after_concat, final, observe_settled (observe_terminal settles)]
        exact collected.completes settles

-- A gap

/-- A finished agent message of the turn `u` of the thread `t`. -/
def messageEvent (id : String) (text : Text) : RuntimeEvent where
  generation := 7
  kind :=
    .notification "item/completed"
      (some
        (.object
          [("threadId", .string "t"),
            ("turnId", .string "u"),
            ("item",
              .object
                [("id", .string id),
                  ("type", .string "agentMessage"),
                  ("text", .string (String.ofList text))])]))

/-- The turn `u` of the thread `t` ends without an error. -/
def completedEvent : RuntimeEvent where
  generation := 7
  kind :=
    .notification "turn/completed"
      (some
        (.object
          [("threadId", .string "t"),
            ("turn",
              .object
                [("id", .string "u"), ("status", .string "completed"), ("error", .null)])]))

theorem messageOf_messageEvent {id : String} (named : id ≠ "") (text : Text)
    : TurnKey.messageOf ⟨7, "t", "u"⟩ (messageEvent id text)
      = some (id, some (String.ofList text)) := by
  have kept : (some id).filter (· ≠ "") = some id := by simp [named]
  change ((some id).filter (· ≠ "")).map _ = _
  rw [kept]
  rfl

theorem isTool_messageEvent (id : String) (text : Text)
    : TurnKey.isTool ⟨7, "t", "u"⟩ (messageEvent id text) = false := by
  have item : TurnKey.itemOf ⟨7, "t", "u"⟩ (messageEvent id text)
      = some
        (true,
          .object
            [("id", .string id),
              ("type", .string "agentMessage"),
              ("text", .string (String.ofList text))]) := rfl
  rw [TurnKey.isTool, item, Option.any_some]
  change isToolActivity "agentMessage" = false
  decide

theorem completes_completedEvent : TurnKey.Completes ⟨7, "t", "u"⟩ completedEvent := by
  refine ⟨_, _, rfl, rfl, rfl, rfl, rfl, ?_⟩
  intro error same
  obtain rfl := Option.some.inj same
  rfl

theorem texts_two (first second : Text)
    : TurnKey.texts ⟨7, "t", "u"⟩ [messageEvent "1" first, messageEvent "2" second]
      = [first, second] := by
  simp [TurnKey.texts, TurnKey.messages, TurnKey.addMessage, messageOf_messageEvent]

/-- A turn of two messages returns what the limit leaves of them, if that is not blank. -/
theorem observe_two (limit : Nat) (first second : Text)
    (shown : trim (gathered limit [first, second]).flatten ≠ [])
    : (((opened ⟨7, "t", "u"⟩ limit false).after
          [messageEvent "1" first, messageEvent "2" second]).observe completedEvent).1
      = some (.completed (gathered limit [first, second]).flatten) := by
  have start := collected_opened ⟨7, "t", "u"⟩ limit false
  have message := messageOf_messageEvent (show "1" ≠ "" by decide) first
  have message' := messageOf_messageEvent (show "2" ≠ "" by decide) second
  have one := start.message message (isTool_messageEvent _ _)
  have two := one.message message' (isTool_messageEvent _ _)
  have reached : (opened ⟨7, "t", "u"⟩ limit false).after
        [messageEvent "1" first, messageEvent "2" second]
      = ((opened ⟨7, "t", "u"⟩ limit false).collect "1" (some (String.ofList first))).collect "2"
        (some (String.ofList second)) := by
    have first' := observe_message start.unsettled (start.turn ▸ message)
    have second' := observe_message one.unsettled (one.turn ▸ message')
    rw [after, List.foldl_cons, List.foldl_cons, List.foldl_nil, first', second']
  rw [reached]
  have text := two.text
  rw [List.nil_append, List.singleton_append, texts_two] at text
  rw [← text] at shown ⊢
  refine observe_completes two.unsettled ?_ ?_ shown
  · rw [two.turn]
    exact completes_completedEvent
  rw [two.tools]
  simp [isTool_messageEvent]

/-- Two messages that fit are returned at the end of their turn, and so after a third. -/
theorem observe_run_two
    : (∀ returned ∈ ((opened ⟨7, "t", "u"⟩ 8 false).after
            ([messageEvent "1" ['a'], messageEvent "2" ['b']] ++ [completedEvent])).returns
          [messageEvent "3" ['c']],
        returned = some (.completed ['a', 'b']))
      ∧ ∃ earlier done rest,
        [messageEvent "1" ['a'], messageEvent "2" ['b']] ++ [completedEvent]
          = earlier ++ done :: rest
        ∧ TurnKey.Completes ⟨7, "t", "u"⟩ done
        ∧ utf8Len ['a', 'b'] ≤ 8
        ∧ (['a', 'b'] <+: (TurnKey.texts ⟨7, "t", "u"⟩ earlier).flatten
          ↔ Gapless 8 (TurnKey.texts ⟨7, "t", "u"⟩ earlier))
        ∧ (['a', 'b'] = (TurnKey.texts ⟨7, "t", "u"⟩ earlier).flatten
          ↔ ((opened ⟨7, "t", "u"⟩ 8 false).after
              ([messageEvent "1" ['a'], messageEvent "2" ['b']] ++ [completedEvent])).textOverflowed
            = false)
        ∧ ∀ other ∈ earlier, TurnKey.isTool ⟨7, "t", "u"⟩ other = false := by
  have gathers : gathered 8 [['a'], ['b']] = [['a'], ['b']] := by
    rw [gathered, fitting_of_le (by decide), gathered, fitting_of_le (by decide), gathered]
  have returned := observe_two 8 ['a'] ['b']
  rw [gathers] at returned
  have settles := returned (trim_ne_nil (by decide))
  obtain ⟨-, stable, completes⟩ := observe_run (opened ⟨7, "t", "u"⟩ 8 false)
    ([messageEvent "1" ['a'], messageEvent "2" ['b']] ++ completedEvent :: [messageEvent "3" ['c']])
  obtain ⟨earlier, done, rest, split, ends, fits, begins, whole, tools⟩ :=
    completes _ _ _ _ _ _ _ rfl rfl settles
  exact ⟨stable _ _ _ _ rfl settles, earlier, done, rest, split, ends, fits, begins, whole,
    tools rfl⟩

/-- The messages fill the limit up to a byte, which a character of three bytes does not fit in.
The next message does, and is returned as if it followed.
-/
theorem observe_gap
    : ¬∀ past event text,
        (((new 7 "t" "u").after past).observe event).1 = some (.completed text)
        → text <+: (TurnKey.texts ⟨7, "t", "u"⟩ past).flatten := by
  intro sound
  have size : ∀ count, utf8Len (List.replicate count 'a') = count := by
    intro count
    induction count with
    | zero => rfl
    | succ count ih =>
        rw [List.replicate_succ, utf8Len_cons, ih]
        exact Nat.add_comm 1 count
  obtain ⟨filling, filled⟩ : ∃ filling : Text, utf8Len ('a' :: filling) = 8191 :=
    ⟨List.replicate 8190 'a', by rw [utf8Len_cons, size]; rfl⟩
  have cut : fitting 8192 ('a' :: filling ++ ['あ']) = 'a' :: filling := by
    refine fitting_cut ?_ ?_
    · rw [filled]
      decide
    · rw [filled]
      decide
  have gathers : gathered 8192 ['a' :: filling ++ ['あ'], ['b']] = ['a' :: filling, ['b']] := by
    rw [gathered, cut, filled, gathered, fitting_of_le (by decide), gathered]
  have returned := observe_two 8192 ('a' :: filling ++ ['あ']) ['b']
  rw [gathers] at returned
  have begins := sound _ _ _ (returned (trim_ne_nil (by decide)))
  rw [texts_two] at begins
  simp at begins

end ProbeCollector

end Hane.Ai
