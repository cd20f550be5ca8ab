import Hane.Foundations.Programs
import Mathlib.Logic.Relation

/-! Any number of programs over one shared outside, their calls interleaved in any order. Each
program is verified alone, against what it relies on the others for; the pool theorem composes
these results.
-/

namespace Hane.Foundations

/-- A labelled program in progress; a killed one never makes another call. -/
structure Thread (Label : Type) {Call : Type} (Answer : Call → Type) (α : Type) where
  label : Label
  program : Option (Program Answer α)

/-- What the outside does for the thread of a given number. A thread may be killed between any
two calls.
-/
structure SharedOutside (State : Type) {Call : Type} (Answer : Call → Type) where
  answers : Nat → State → (request : Call) → Answer request → State → Prop
  kills : Nat → State → State → Prop

namespace Pool

variable {State Label Call α : Type} {Answer : Call → Type}

/-- One step of a pool: a program starts, makes its next call, or is killed before one. -/
inductive Step (shared : SharedOutside State Answer)
    (starts : State → Label → Program Answer α → Prop)
    : List (Thread Label Answer α) × State → List (Thread Label Answer α) × State → Prop where
  | start {threads : List (Thread Label Answer α)} {state : State} {label : Label}
      {program : Program Answer α} (begins : starts state label program)
      : Step shared starts (threads, state) (threads ++ [⟨label, some program⟩], state)
  | advance {threads : List (Thread Label Answer α)} {state final : State} {number : Nat}
      {label : Label} {request : Call} {answer : Answer request}
      {next : Answer request → Program Answer α}
      (found : threads[number]? = some ⟨label, some (.call request next)⟩)
      (answers : shared.answers number state request answer final)
      : Step shared starts (threads, state)
          (threads.set number ⟨label, some (next answer)⟩, final)
  | kill {threads : List (Thread Label Answer α)} {state final : State} {number : Nat}
      {label : Label} {request : Call} {next : Answer request → Program Answer α}
      (found : threads[number]? = some ⟨label, some (.call request next)⟩)
      (kills : shared.kills number state final)
      : Step shared starts (threads, state) (threads.set number ⟨label, none⟩, final)

/-- One thread alone: as long as the others stay within what it relies on, each of its own
steps is one it guarantees, and its result meets the postcondition from then on.
-/
def Complies (shared : SharedOutside State Answer) (number : Nat)
    (rely guarantee : State → State → Prop) (post : α → State → Prop)
    : Program Answer α → State → Prop
  | .done value, state => ∀ later, rely state later → post value later
  | .call request next, state => ∀ later, rely state later →
      (∀ final, shared.kills number later final → guarantee later final)
      ∧ ∀ answer final, shared.answers number later request answer final
          → guarantee later final
            ∧ Complies shared number rely guarantee post (next answer) final

section Composition

variable {shared : SharedOutside State Answer} {rely guarantee : Nat → State → State → Prop}
variable {starts : State → Label → Program Answer α → Prop} {post : Label → α → State → Prop}

theorem Complies.stable {number : Nat} [IsTrans State (rely number)] {label : Label}
    {program : Program Answer α} {state later : State}
    (complies : Complies shared number (rely number) (guarantee number) (post label) program
      state)
    (moved : rely number state later)
    : Complies shared number (rely number) (guarantee number) (post label) program later := by
  cases program with
  | done value => exact fun final onward => complies final (IsTrans.trans _ _ _ moved onward)
  | call request next =>
      exact fun final onward => complies final (IsTrans.trans _ _ _ moved onward)

/-- A weaker postcondition is complied with too, by cases on each call's answers. -/
theorem Complies.mono {number : Nat} {rely guarantee : State → State → Prop}
    {post weaker : α → State → Prop} {program : Program Answer α} {state : State}
    (complies : Complies shared number rely guarantee post program state)
    (implies : ∀ value later, post value later → weaker value later)
    : Complies shared number rely guarantee weaker program state := by
  induction program generalizing state with
  | done value => exact fun later relied => implies value later (complies later relied)
  | call request next ih =>
      intro later relied
      obtain ⟨kills, onward⟩ := complies later relied
      refine ⟨kills, ?_⟩
      intro answer final answers
      obtain ⟨moved, rest⟩ := onward answer final answers
      exact ⟨moved, ih answer rest⟩

/-- Every live thread of the pool complies from the present state on. -/
def AllComply (shared : SharedOutside State Answer) (rely guarantee : Nat → State → State → Prop)
    (post : Label → α → State → Prop) (pool : List (Thread Label Answer α) × State) : Prop :=
  ∀ (number : Nat) (label : Label) (program : Program Answer α),
    pool.1[number]? = some ⟨label, some program⟩
    → Complies shared number (rely number) (guarantee number) (post label) program pool.2

variable (composes : ∀ number other, number ≠ other → ∀ state final,
  guarantee number state final → rely other state final)
variable [∀ number, IsTrans State (rely number)]

include composes in
theorem AllComply.replace {threads : List (Thread Label Answer α)} {state final : State}
    {number : Nat} {thread : Thread Label Answer α}
    (all : AllComply shared rely guarantee post (threads, state))
    (moved : guarantee number state final)
    (own : ∀ program, thread.program = some program
      → Complies shared number (rely number) (guarantee number) (post thread.label) program
          final)
    : AllComply shared rely guarantee post (threads.set number thread, final) := by
  intro other label program found
  by_cases same : number = other
  · subst same
    have there : thread = ⟨label, some program⟩ := by
      obtain ⟨within, same⟩ := List.getElem?_eq_some_iff.mp found
      rwa [List.getElem_set_self] at same
    subst there
    exact own program rfl
  · have kept : threads[other]? = some ⟨label, some program⟩ := by
      rwa [List.getElem?_set_ne same] at found
    exact (all other label program kept).stable (composes number other same _ _ moved)

variable [∀ number, Std.Refl (rely number)]

include composes in
/-- One step of the pool keeps all threads complying and is a step some thread guarantees,
or leaves the state as it was; by cases on the step.
-/
theorem AllComply.step {pool after : List (Thread Label Answer α) × State}
    (begins : ∀ number state label program, starts state label program
      → Complies shared number (rely number) (guarantee number) (post label) program state)
    (all : AllComply shared rely guarantee post pool)
    (step : Step shared starts pool after)
    : AllComply shared rely guarantee post after
      ∧ (after.2 = pool.2 ∨ ∃ number, guarantee number pool.2 after.2) := by
  cases step with
  | @start threads state label program started =>
      refine ⟨?_, .inl rfl⟩
      intro number other running found
      rcases Nat.lt_or_ge number threads.length with old | fresh
      · rw [List.getElem?_append_left old] at found
        exact all number other running found
      · rw [List.getElem?_append_right fresh] at found
        obtain ⟨_, same⟩ := List.getElem?_eq_some_iff.mp found
        simp only [List.getElem_singleton, Thread.mk.injEq, Option.some.injEq] at same
        obtain ⟨rfl, rfl⟩ := same
        exact begins number state label program started
  | @advance threads state final number label request answer next found answers =>
      obtain ⟨_, onward⟩ := all number label _ found state (Std.Refl.refl state)
      obtain ⟨moved, rest⟩ := onward answer final answers
      refine ⟨all.replace composes moved ?_, .inr ⟨number, moved⟩⟩
      rintro program same
      cases same
      exact rest
  | @kill threads state final number label request next found kills =>
      obtain ⟨killed, _⟩ := all number label _ found state (Std.Refl.refl state)
      have moved := killed final kills
      refine ⟨all.replace composes moved ?_, .inr ⟨number, moved⟩⟩
      rintro program same
      cases same

include composes in
/-- Every run of a pool whose programs comply keeps them complying and moves the state only
by guaranteed steps, by induction over the run.
-/
theorem AllComply.run {pool final : List (Thread Label Answer α) × State}
    (begins : ∀ number state label program, starts state label program
      → Complies shared number (rely number) (guarantee number) (post label) program state)
    (all : AllComply shared rely guarantee post pool)
    (steps : Relation.ReflTransGen (Step shared starts) pool final)
    : AllComply shared rely guarantee post final
      ∧ Relation.ReflTransGen (fun state after => ∃ number, guarantee number state after)
          pool.2 final.2 := by
  induction steps with
  | refl => exact ⟨all, .refl⟩
  | tail _ step ih =>
      obtain ⟨complying, moved⟩ := ih
      obtain ⟨after, same | guaranteed⟩ := complying.step composes begins step
      · exact ⟨after, same ▸ moved⟩
      · exact ⟨after, moved.tail guaranteed⟩

omit [∀ number, IsTrans State (rely number)] in
theorem AllComply.finished {pool : List (Thread Label Answer α) × State} {number : Nat}
    {label : Label} {value : α} (all : AllComply shared rely guarantee post pool)
    (found : pool.1[number]? = some ⟨label, some (.done value)⟩)
    : post label value pool.2 :=
  all number label (.done value) found pool.2 (Std.Refl.refl pool.2)

end Composition

end Pool

end Hane.Foundations
