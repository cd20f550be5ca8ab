import Mathlib.Tactic.Common

/-! Programs that act on the outside only through calls. Every call may be answered in several
ways, a failure included, and the program may stop for good before, after or inside any call.
-/

namespace Hane.Foundations

/-- A computation that returns a value, or makes a call and goes on with its answer. -/
inductive Program {Call : Type} (Answer : Call → Type) (α : Type) where
  | done (value : α)
  | call (request : Call) (next : Answer request → Program Answer α)

/-- What the outside does: a call moves it to a new state with an answer, or is torn, leaving
a state in which nobody is there to read an answer.
-/
structure Outside (State : Type) {Call : Type} (Answer : Call → Type) where
  answers : State → (request : Call) → Answer request → State → Prop
  tears : State → Call → State → Prop

/-- How a run ends: with a value, or stopped before the program was done. -/
inductive Ending (α : Type) where
  | finished (value : α)
  | stopped
  deriving DecidableEq, Repr

namespace Program

variable {State Call α β ε : Type} {Answer : Call → Type}

def bind (program : Program Answer α) (next : α → Program Answer β) : Program Answer β :=
  match program with
  | .done value => next value
  | .call request rest => .call request fun answer => (rest answer).bind next

instance : Monad (Program Answer) where
  pure := .done
  bind := bind

def request (wanted : Call) : Program Answer (Answer wanted) := .call wanted .done

/-- A call of an outside whose every call may fail. -/
def attempt {Result : Call → Type} (wanted : Call)
    : ExceptT ε (Program fun request => Except ε (Result request)) (Result wanted) :=
  .mk (request wanted)

/-- An outcome that needs no call. -/
def settled (outcome : Except ε α) : ExceptT ε (Program Answer) α := .mk (.done outcome)

/-- The runs of a program, stopped ones included. -/
inductive Runs (outside : Outside State Answer)
    : Program Answer α → State → Ending α → State → Prop where
  | finish (value : α) (state : State) : Runs outside (.done value) state (.finished value) state
  | stop (program : Program Answer α) (state : State) : Runs outside program state .stopped state
  | tear {state torn : State} {request : Call} {next : Answer request → Program Answer α}
      (tears : outside.tears state request torn)
      : Runs outside (.call request next) state .stopped torn
  | step {state middle final : State} {request : Call} {answer : Answer request}
      {next : Answer request → Program Answer α} {ending : Ending α}
      (answers : outside.answers state request answer middle)
      (rest : Runs outside (next answer) middle ending final)
      : Runs outside (.call request next) state ending final

/-- A finished first half and any run of the second make a run of both, by induction over the
first.
-/
theorem Runs.bind {outside : Outside State Answer} {program : Program Answer α}
    {next : α → Program Answer β} {state middle final : State} {value : α} {ending : Ending β}
    (first : Runs outside program state (.finished value) middle)
    (second : Runs outside (next value) middle ending final)
    : Runs outside (program >>= next) state ending final := by
  generalize reached : Ending.finished value = whole at first
  induction first with
  | finish =>
      cases reached
      exact second
  | stop => cases reached
  | tear => cases reached
  | step answers _ ih => exact .step answers (ih second reached)

theorem Runs.attempt {outside : Outside State Answer} {program : ExceptT ε (Program Answer) α}
    {next : α → ExceptT ε (Program Answer) β} {state middle final : State} {value : α}
    {ending : Ending (Except ε β)}
    (first : Runs outside program.run state (.finished (.ok value)) middle)
    (second : Runs outside (next value).run middle ending final)
    : Runs outside (program >>= next).run state ending final :=
  Runs.bind first second

theorem Runs.ite {outside : Outside State Answer} {condition : Prop} [Decidable condition]
    {first second : ExceptT ε (Program Answer) α} {state final : State}
    {ending : Ending (Except ε α)} (decided : condition)
    (runs : Runs outside first.run state ending final)
    : Runs outside (if condition then first else second).run state ending final := by
  rwa [if_pos decided]

/-- A program ensures a postcondition and keeps an invariant at every point where it may be
stopped, whatever the outside answers.
-/
def Ensures (outside : Outside State Answer) (kept : State → Prop) (post : α → State → Prop)
    : Program Answer α → State → Prop
  | .done value, state => kept state ∧ post value state
  | .call request next, state =>
      kept state
      ∧ (∀ torn, outside.tears state request torn → kept torn)
      ∧ ∀ answer final, outside.answers state request answer final
          → Ensures outside kept post (next answer) final

variable {outside : Outside State Answer} {kept : State → Prop}

/-- The invariant holds before the first call, by cases on the program. -/
theorem Ensures.start {post : α → State → Prop} {program : Program Answer α} {state : State}
    (ensures : Ensures outside kept post program state)
    : kept state := by
  cases program with
  | done value => exact ensures.1
  | call request next => exact ensures.1

theorem Ensures.anything {closed : State → Prop}
    (answers : ∀ state request answer final, closed state
      → outside.answers state request answer final → closed final)
    (tears : ∀ state request final, closed state → outside.tears state request final
      → closed final)
    (keeps : ∀ state, closed state → kept state) (program : Program Answer α) {state : State}
    (holds : closed state)
    : Ensures outside kept (fun _ => closed) program state := by
  induction program generalizing state with
  | done value => exact ⟨keeps state holds, holds⟩
  | call request next ih =>
      refine ⟨keeps state holds, ?_, ?_⟩
      · exact fun torn torn' => keeps torn (tears state request torn holds torn')
      · exact fun answer final moved => ih answer (answers state request answer final holds moved)

/-- What a program ensures holds of each of its runs, by induction over the run. -/
theorem Ensures.sound {post : α → State → Prop} {program : Program Answer α}
    {state final : State} {ending : Ending α}
    (ensures : Ensures outside kept post program state)
    (runs : Runs outside program state ending final)
    : kept final ∧ ∀ value, ending = .finished value → post value final := by
  induction runs with
  | finish value state =>
      refine ⟨ensures.1, ?_⟩
      rintro result same
      cases same
      exact ensures.2
  | stop program state => exact ⟨ensures.start, fun _ same => nomatch same⟩
  | tear tears => exact ⟨ensures.2.1 _ tears, fun _ same => nomatch same⟩
  | step answers _ ih => exact ih (ensures.2.2 _ _ answers)

/-- A weaker postcondition is ensured too, by induction over the program. -/
theorem Ensures.mono {post weaker : α → State → Prop} {program : Program Answer α}
    {state : State} (ensures : Ensures outside kept post program state)
    (implies : ∀ value final, kept final → post value final → weaker value final)
    : Ensures outside kept weaker program state := by
  induction program generalizing state with
  | done value => exact ⟨ensures.1, implies value state ensures.1 ensures.2⟩
  | call request next ih =>
      obtain ⟨start, torn, rest⟩ := ensures
      exact ⟨start, torn, fun answer final answers => ih answer (rest answer final answers)⟩

/-- A weaker invariant is kept too, by induction over the program. -/
theorem Ensures.weaken {weaker : State → Prop} {post : α → State → Prop}
    {program : Program Answer α} {state : State}
    (ensures : Ensures outside kept post program state)
    (implies : ∀ state, kept state → weaker state)
    : Ensures outside weaker post program state := by
  induction program generalizing state with
  | done value => exact ⟨implies state ensures.1, ensures.2⟩
  | call request next ih =>
      obtain ⟨start, torn, rest⟩ := ensures
      exact ⟨implies state start, fun final tears => implies final (torn final tears),
        fun answer final answers => ih answer (rest answer final answers)⟩

/-- Sequencing: the second program starts wherever the first may finish. -/
theorem Ensures.bind {middle : α → State → Prop} {post : β → State → Prop}
    {program : Program Answer α} {next : α → Program Answer β} {state : State}
    (first : Ensures outside kept middle program state)
    (second : ∀ value final, kept final → middle value final
      → Ensures outside kept post (next value) final)
    : Ensures outside kept post (program >>= next) state := by
  induction program generalizing state with
  | done value => exact second value state first.1 first.2
  | call request rest ih =>
      obtain ⟨start, torn, onward⟩ := first
      exact ⟨start, torn, fun answer final answers => ih answer (onward answer final answers)⟩

theorem Ensures.map {middle : α → State → Prop} {post : β → State → Prop} {f : α → β}
    {program : Program Answer α} {state : State}
    (first : Ensures outside kept middle program state)
    (looks : ∀ value final, kept final → middle value final → post (f value) final)
    : Ensures outside kept post (f <$> program) state :=
  first.bind fun value final holds reached => ⟨holds, looks value final holds reached⟩

/-- One condition on success and another on failure. -/
def byOutcome (fine : α → State → Prop) (failed : ε → State → Prop)
    : Except ε α → State → Prop
  | .ok value => fine value
  | .error problem => failed problem

/-- A fallible program ensures one thing where it succeeds and another where it fails. -/
def Performs (outside : Outside State Answer) (kept : State → Prop) (fine : α → State → Prop)
    (failed : ε → State → Prop) (program : ExceptT ε (Program Answer) α) (state : State) : Prop :=
  Ensures outside kept (byOutcome fine failed) program.run state

section Performs

variable {fine : α → State → Prop} {failed : ε → State → Prop}

theorem Performs.sound {program : ExceptT ε (Program Answer) α} {state final : State}
    {ending : Ending (Except ε α)}
    (performs : Performs outside kept fine failed program state)
    (runs : Runs outside program.run state ending final)
    : kept final ∧ ∀ value, ending = .finished (.ok value) → fine value final := by
  obtain ⟨holds, reached⟩ := Ensures.sound performs runs
  exact ⟨holds, fun value same => reached (.ok value) same⟩

theorem Performs.pure {value : α} {state : State} (holds : kept state)
    (reached : fine value state)
    : Performs outside kept fine failed (Pure.pure value : ExceptT ε (Program Answer) α) state :=
  ⟨holds, reached⟩

/-- An outcome that needs no call, by cases on it. -/
theorem Performs.settled {outcome : Except ε α} {state : State} (holds : kept state)
    (succeeds : ∀ value, outcome = .ok value → fine value state)
    (fails : ∀ problem, outcome = .error problem → failed problem state)
    : Performs outside kept fine failed (Program.settled outcome) state := by
  cases outcome with
  | ok value => exact ⟨holds, succeeds value rfl⟩
  | error problem => exact ⟨holds, fails problem rfl⟩

theorem Performs.mono {weaker : α → State → Prop} {failing : ε → State → Prop}
    {program : ExceptT ε (Program Answer) α} {state : State}
    (performs : Performs outside kept fine failed program state)
    (succeeds : ∀ value final, kept final → fine value final → weaker value final)
    (fails : ∀ problem final, kept final → failed problem final → failing problem final)
    : Performs outside kept weaker failing program state := by
  refine Ensures.mono performs ?_
  intro outcome final holds reached
  cases outcome with
  | ok value => exact succeeds value final holds reached
  | error problem => exact fails problem final holds reached

theorem Performs.bind (middle : α → State → Prop) {last : β → State → Prop}
    {program : ExceptT ε (Program Answer) α} {next : α → ExceptT ε (Program Answer) β}
    {state : State} (first : Performs outside kept middle failed program state)
    (second : ∀ value final, kept final → middle value final
      → Performs outside kept last failed (next value) final)
    : Performs outside kept last failed (program >>= next) state := by
  have rest : ∀ outcome final, kept final → byOutcome middle failed outcome final
      → Ensures outside kept (byOutcome last failed) (ExceptT.bindCont next outcome) final := by
    intro outcome final holds reached
    cases outcome with
    | ok value => exact second value final holds reached
    | error problem => exact ⟨holds, reached⟩
  exact Ensures.bind first rest

/-- A failure passed on as another one. -/
theorem Performs.adapt {ε' : Type} {f : ε → ε'} {failing : ε' → State → Prop}
    {program : ExceptT ε (Program Answer) α} {state : State}
    (performs : Performs outside kept fine (fun problem => failing (f problem)) program state)
    : Performs outside kept fine failing (ExceptT.adapt f program) state := by
  apply Ensures.map performs
  intro outcome final _ reached
  cases outcome with
  | ok value => exact reached
  | error problem => exact reached

theorem Performs.ite {condition : Prop} [Decidable condition]
    {first second : ExceptT ε (Program Answer) α} {state : State}
    (holds : condition → Performs outside kept fine failed first state)
    (fails : ¬condition → Performs outside kept fine failed second state)
    : Performs outside kept fine failed (if condition then first else second) state := by
  by_cases decided : condition
  · simpa [decided] using holds decided
  · simpa [decided] using fails decided

/-- One call, by cases on what it is answered and on how it is torn. -/
theorem Performs.call {Result : Call → Type} {request : Call}
    {outside : Outside State fun request => Except ε (Result request)}
    {fine : Result request → State → Prop} {failed : ε → State → Prop} {state : State}
    (holds : kept state) (torn : ∀ final, outside.tears state request final → kept final)
    (answered : ∀ answer final, outside.answers state request answer final
      → kept final ∧ byOutcome fine failed answer final)
    : Performs outside kept fine failed (attempt request) state :=
  ⟨holds, torn, fun answer final answers => answered answer final answers⟩

end Performs

def Makes (kind : Call → Prop) : Program Answer α → Prop
  | .done _ => True
  | .call request next => kind request ∧ ∀ answer, Makes kind (next answer)

theorem Makes.request {kind : Call → Prop} {wanted : Call} (allowed : kind wanted)
    : Makes kind (request wanted : Program Answer (Answer wanted)) :=
  ⟨allowed, fun _ => trivial⟩

/-- A sequence makes the calls of its parts, by induction over the first. -/
theorem Makes.bind {kind : Call → Prop} {program : Program Answer α}
    {next : α → Program Answer β} (first : Makes kind program)
    (second : ∀ value, Makes kind (next value))
    : Makes kind (program >>= next) := by
  induction program with
  | done value => exact second value
  | call request rest ih => exact ⟨first.1, fun answer => ih answer (first.2 answer)⟩

theorem Makes.settled {kind : Call → Prop} (outcome : Except ε α)
    : Makes kind (Program.settled outcome : ExceptT ε (Program Answer) α).run :=
  trivial

theorem Makes.attempt {kind : Call → Prop} {program : ExceptT ε (Program Answer) α}
    {next : α → ExceptT ε (Program Answer) β} (first : Makes kind program.run)
    (second : ∀ value, Makes kind (next value).run)
    : Makes kind (program >>= next).run := by
  refine first.bind fun outcome => ?_
  cases outcome with
  | ok value => exact second value
  | error problem => trivial

/-- What every call of the kind preserves holds throughout, by induction over the program. -/
theorem Makes.ensures {kind : Call → Prop} {program : Program Answer α} {state : State}
    (makes : Makes kind program)
    (answers : ∀ state request answer final, kind request → kept state
      → outside.answers state request answer final → kept final)
    (tears : ∀ state request final, kind request → kept state → outside.tears state request final
      → kept final)
    (holds : kept state)
    : Ensures outside kept (fun _ => kept) program state := by
  induction program generalizing state with
  | done value => exact ⟨holds, holds⟩
  | call request next ih =>
      refine ⟨holds, fun torn torn' => tears state request torn makes.1 holds torn', ?_⟩
      intro answer final moved
      exact ih answer (makes.2 answer) (answers state request answer final makes.1 holds moved)

def run (handler : State → (request : Call) → Answer request × State)
    : Program Answer α → State → α × State
  | .done value, state => (value, state)
  | .call request next, state =>
      run handler (next (handler state request).1) (handler state request).2

/-- Running a sequence runs its parts in turn, by induction over the first. -/
theorem run_bind (handler : State → (request : Call) → Answer request × State)
    (program : Program Answer α) (next : α → Program Answer β) (state : State)
    : (program >>= next).run handler state
        = (next (program.run handler state).1).run handler (program.run handler state).2 := by
  induction program generalizing state with
  | done value => rfl
  | call request rest ih => exact ih _ _

theorem run_request_bind {handler : State → (request : Call) → Answer request × State}
    {wanted : Call} {next : Answer wanted → Program Answer α} {state after : State}
    {answer : Answer wanted} (answered : handler state wanted = (answer, after))
    : (request wanted >>= next).run handler state = (next answer).run handler after := by
  rw [run_bind, request, run, answered]
  rfl

theorem run_attempt_ok {handler : State → (request : Call) → Answer request × State}
    {program : ExceptT ε (Program Answer) α} {next : α → ExceptT ε (Program Answer) β}
    {state middle : State} {value : α}
    (first : Program.run handler (ExceptT.run program) state = (.ok value, middle))
    : Program.run handler (ExceptT.run (program >>= next)) state
        = Program.run handler (ExceptT.run (next value)) middle := by
  rw [show ExceptT.run (program >>= next) = ExceptT.run program >>= ExceptT.bindCont next from rfl,
    run_bind, first]
  rfl

theorem run_attempt_error {handler : State → (request : Call) → Answer request × State}
    {program : ExceptT ε (Program Answer) α} {next : α → ExceptT ε (Program Answer) β}
    {state middle : State} {problem : ε}
    (first : Program.run handler (ExceptT.run program) state = (.error problem, middle))
    : Program.run handler (ExceptT.run (program >>= next)) state = (.error problem, middle) := by
  rw [show ExceptT.run (program >>= next) = ExceptT.run program >>= ExceptT.bindCont next from rfl,
    run_bind, first]
  rfl

/-- Running by a rule the outside allows is one of the runs, by induction over the program. -/
theorem runs_run {handler : State → (request : Call) → Answer request × State}
    (allowed : ∀ state request,
      outside.answers state request (handler state request).1 (handler state request).2)
    (program : Program Answer α) (state : State)
    : Runs outside program state (.finished (program.run handler state).1)
        (program.run handler state).2 := by
  induction program generalizing state with
  | done value => exact .finish value state
  | call request next ih => exact .step (allowed state request) (ih _ _)

/-- Answers calls from the state by a rule, and stops at the first it gives no answer for. -/
def runUntil (handler : State → (request : Call) → Option (Answer request × State))
    : Program Answer α → State → Ending α × State
  | .done value, state => (.finished value, state)
  | .call request next, state =>
      match handler state request with
      | none => (.stopped, state)
      | some (answer, final) => runUntil handler (next answer) final

/-- Running by a rule that gives only allowed answers is one of the runs, by induction over the
program.
-/
theorem runs_runUntil {handler : State → (request : Call) → Option (Answer request × State)}
    (allowed : ∀ state request answer final, handler state request = some (answer, final)
      → outside.answers state request answer final)
    (program : Program Answer α) (state : State)
    : Runs outside program state (program.runUntil handler state).1
        (program.runUntil handler state).2 := by
  induction program generalizing state with
  | done value => exact .finish value state
  | call request next ih =>
      rw [runUntil]
      cases answered : handler state request with
      | none => exact .stop _ state
      | some reply => exact .step (allowed state request reply.1 reply.2 answered) (ih _ _)

end Program

end Hane.Foundations
