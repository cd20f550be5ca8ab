import Mathlib.Tactic.Common

/-! Computations over a mutable state that may stop with an error. An error keeps whatever
the computation had already written, as a method on a mutable receiver does.
-/

namespace Hane.Foundations

/-- A fallible sequence succeeds exactly when both halves do. -/
theorem except_bind_ok_iff {ε α β : Type} (program : Except ε α) (next : α → Except ε β)
    (result : β)
    : (program >>= next) = .ok result ↔ ∃ value, program = .ok value ∧ next value = .ok result := by
  cases program with
  | error problem => simp [Bind.bind, Except.bind]
  | ok value => simp [Bind.bind, Except.bind]

theorem except_guard_ok_iff {ε α β : Type} (condition : Prop) [Decidable condition] (problem : ε)
    (next : α → Except ε β) (rest : Except ε β) (result : β)
    : (if condition then throw problem >>= next else rest) = .ok result
      ↔ ¬condition ∧ rest = .ok result := by
  split
  · rename_i holds
    simp [holds, throw, throwThe, MonadExceptOf.throw, Bind.bind, Except.bind]
  · rename_i fails
    simp [fails]

theorem except_check_ok_iff {ε : Type} (condition : Prop) [Decidable condition] (problem : ε)
    (result : Unit)
    : ((if condition then throw problem else pure ()) : Except ε Unit) = .ok result
      ↔ ¬condition := by
  split
  · rename_i holds
    simp [holds, throw, throwThe, MonadExceptOf.throw]
  · rename_i fails
    simp [fails, pure, Except.pure]

theorem except_mapError_ok_iff {ε ζ α : Type} (rename : ε → ζ) (program : Except ε α) (result : α)
    : program.mapError rename = .ok result ↔ program = .ok result := by
  cases program <;> simp [Except.mapError]

theorem except_ok_of_isOk {ε α : Type} {program : Except ε α} (succeeds : program.isOk = true)
    : ∃ result, program = .ok result := by
  cases program with
  | error problem => cases succeeds
  | ok result => exact ⟨result, rfl⟩

/-- A fallible computation succeeds, with a result that satisfies the postcondition. -/
def Succeeds {ε α : Type} (post : α → Prop) (program : Except ε α) : Prop :=
  ∃ result, program = .ok result ∧ post result

section Succeeds

variable {ε α β : Type} {post : α → Prop} {next : β → Prop}

theorem Succeeds.pure {value : α} (holds : post value)
    : Succeeds post (pure value : Except ε α) :=
  ⟨value, rfl, holds⟩

theorem Succeeds.mono {weaker : α → Prop} {program : Except ε α} (succeeds : Succeeds post program)
    (implies : ∀ value, post value → weaker value)
    : Succeeds weaker program := by
  obtain ⟨value, same, holds⟩ := succeeds
  exact ⟨value, same, implies value holds⟩

theorem Succeeds.bind {program : Except ε α} {rest : α → Except ε β}
    (first : Succeeds post program) (second : ∀ value, post value → Succeeds next (rest value))
    : Succeeds next (program >>= rest) := by
  obtain ⟨value, rfl, holds⟩ := first
  exact second value holds

end Succeeds

/-- Runs from a state to a result and the state left behind, also on an error. -/
def Stateful (σ ε α : Type) := σ → Except ε α × σ

namespace Stateful

variable {σ ε α β : Type}

instance : Monad (Stateful σ ε) where
  pure value := fun state => (.ok value, state)
  bind program next := fun state =>
    match program state with
    | (.ok value, state) => next value state
    | (.error problem, state) => (.error problem, state)

def read : Stateful σ ε σ := fun state => (.ok state, state)

def modify (update : σ → σ) : Stateful σ ε Unit := fun state => (.ok (), update state)

/-- A fallible query of the state that writes nothing. -/
def query (ask : σ → Except ε α) : Stateful σ ε α := fun state => (ask state, state)

def fail (problem : ε) : Stateful σ ε α := fun state => (.error problem, state)

@[simp] theorem pure_run (value : α) (state : σ)
    : (pure value : Stateful σ ε α) state = (.ok value, state) := rfl

@[simp] theorem read_run (state : σ) : (read : Stateful σ ε σ) state = (.ok state, state) := rfl

@[simp] theorem modify_run (update : σ → σ) (state : σ)
    : (modify update : Stateful σ ε Unit) state = (.ok (), update state) := rfl

@[simp] theorem query_run (ask : σ → Except ε α) (state : σ)
    : query ask state = (ask state, state) := rfl

theorem bind_run (program : Stateful σ ε α) (next : α → Stateful σ ε β) (state : σ)
    : (program >>= next) state
      = match program state with
        | (.ok value, state) => next value state
        | (.error problem, state) => (.error problem, state) := rfl

@[simp] theorem read_bind (next : σ → Stateful σ ε β) (state : σ)
    : (read >>= next) state = next state state := rfl

@[simp] theorem modify_bind (update : σ → σ) (next : Unit → Stateful σ ε β) (state : σ)
    : (modify update >>= next) state = next () (update state) := rfl

/-- A successful sequence splits into two successful halves. -/
theorem bind_ok {program : Stateful σ ε α} {next : α → Stateful σ ε β} {state final : σ}
    {result : β} (ran : (program >>= next) state = (.ok result, final))
    : ∃ value middle,
        program state = (.ok value, middle) ∧ next value middle = (.ok result, final) := by
  rw [bind_run] at ran
  rcases outcome : program state with ⟨value | value, middle⟩
  · rw [outcome] at ran
    cases ran
  · rw [outcome] at ran
    exact ⟨value, middle, rfl, ran⟩

theorem query_ok {ask : σ → Except ε α} {state final : σ} {result : α}
    (ran : query ask state = (.ok result, final))
    : ask state = .ok result ∧ final = state := by
  obtain ⟨asked, same⟩ := Prod.mk.inj ran
  exact ⟨asked, same.symm⟩

theorem ok_of_isOk {program : Stateful σ ε α} {state : σ}
    (succeeds : (program state).1.isOk = true)
    : ∃ result, program state = (.ok result, (program state).2) := by
  rcases outcome : program state with ⟨problem | result, final⟩
  · rw [outcome] at succeeds
    cases succeeds
  · exact ⟨result, rfl⟩

/-- A program moves the state only along a relation, whether it succeeds or stops. -/
def Within (relation : σ → σ → Prop) (program : Stateful σ ε α) : Prop :=
  ∀ state, relation state (program state).2

section Within

variable {relation : σ → σ → Prop}

theorem Within.apply {program : Stateful σ ε α} (within : Within relation program)
    {state final : σ} {outcome : Except ε α} (ran : program state = (outcome, final))
    : relation state final := by
  have moved := within state
  rwa [ran] at moved

theorem Within.mono {weaker : σ → σ → Prop} {program : Stateful σ ε α}
    (within : Within relation program)
    (implies : ∀ state final, relation state final → weaker state final)
    : Within weaker program :=
  fun state => implies _ _ (within state)

theorem Within.pure [Std.Refl relation] (value : α)
    : Within relation (Pure.pure value : Stateful σ ε α) :=
  fun state => Std.Refl.refl state

theorem Within.read [Std.Refl relation] : Within relation (read : Stateful σ ε σ) :=
  fun state => Std.Refl.refl state

theorem Within.query [Std.Refl relation] (ask : σ → Except ε α)
    : Within relation (query ask) :=
  fun state => Std.Refl.refl state

theorem Within.fail [Std.Refl relation] (problem : ε)
    : Within relation (fail problem : Stateful σ ε α) :=
  fun state => Std.Refl.refl state

theorem Within.modify {update : σ → σ} (moves : ∀ state, relation state (update state))
    : Within relation (modify update : Stateful σ ε Unit) := moves

/-- Sequencing stays within a transitive relation; an early stop is covered by the first
half alone.
-/
theorem Within.bind [IsTrans σ relation] {program : Stateful σ ε α}
    {next : α → Stateful σ ε β} (first : Within relation program)
    (second : ∀ value, Within relation (next value))
    : Within relation (program >>= next) := by
  intro state
  have moved := first state
  rw [bind_run]
  rcases outcome : program state with ⟨value | value, middle⟩
  · rw [outcome] at moved
    exact moved
  · rw [outcome] at moved
    exact IsTrans.trans _ _ _ moved (second value middle)

end Within

/-- A program succeeds, with a result and a state that satisfy the postcondition. -/
def Achieves (post : α → σ → Prop) (program : Stateful σ ε α) (state : σ) : Prop :=
  ∃ result final, program state = (.ok result, final) ∧ post result final

section Achieves

variable {post : α → σ → Prop} {state : σ}

theorem Achieves.pure {value : α} (holds : post value state)
    : Achieves post (Pure.pure value : Stateful σ ε α) state :=
  ⟨value, state, rfl, holds⟩

theorem Achieves.query {ask : σ → Except ε α} (succeeds : Succeeds (post · state) (ask state))
    : Achieves post (Stateful.query ask) state := by
  obtain ⟨value, asked, holds⟩ := succeeds
  exact ⟨value, state, congrArg (·, state) asked, holds⟩

theorem Achieves.bind {next : β → σ → Prop} {program : Stateful σ ε α}
    {rest : α → Stateful σ ε β} (first : Achieves post program state)
    (second : ∀ value middle, post value middle → Achieves next (rest value) middle)
    : Achieves next (program >>= rest) state := by
  obtain ⟨value, middle, ran, holds⟩ := first
  obtain ⟨result, final, ran', holds'⟩ := second value middle holds
  refine ⟨result, final, ?_, holds'⟩
  rw [bind_run, ran]
  exact ran'

end Achieves

end Stateful

end Hane.Foundations
