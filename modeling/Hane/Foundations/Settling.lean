import Mathlib.Order.Basic
import Mathlib.Order.Lattice
import Mathlib.Tactic.Common

/-! Repeating a monotone step until it changes nothing, within a bounded number of rounds. -/

namespace Hane.Foundations

variable {α : Type*}

/-- Fewer items pass a stricter test that one of them fails, by induction on the items. -/
theorem countP_lt_countP {items : List α} {p q : α → Bool}
    (weaker : ∀ item, p item = true → q item = true) {item : α} (member : item ∈ items)
    (fails : p item = false) (passes : q item = true)
    : items.countP p < items.countP q := by
  induction items with
  | nil => exact absurd member List.not_mem_nil
  | cons first rest ih =>
      have tail : rest.countP p ≤ rest.countP q :=
        List.countP_mono_left fun item _ => weaker item
      rw [List.countP_cons, List.countP_cons]
      rcases List.mem_cons.mp member with rfl | later
      · rw [if_neg (by simp [fails]), if_pos passes]
        omega
      · have shorter := ih later
        by_cases kept : p first = true
        · rw [if_pos kept, if_pos (weaker first kept)]
          omega
        · rw [if_neg kept]
          omega

/-- Repeats a step until it gives back what it got, or the rounds are used up. -/
def settle [DecidableEq α] (step : α → Option α) : Nat → α → Option α
  | 0, current => some current
  | rounds + 1, current => do
      let next ← step current
      if next = current then some current else settle step rounds next

section Settle

variable [DecidableEq α] {step : α → Option α}

theorem settle_of_fixed {current : α} (fixed : step current = some current) (rounds : Nat)
    : settle step rounds current = some current := by
  cases rounds with
  | zero => rfl
  | succ rounds => simp [settle, fixed]

theorem settle_succ {current next : α} (stepped : step current = some next) (rounds : Nat)
    : settle step (rounds + 1) current = settle step rounds next := by
  simp only [settle, stepped, Option.bind_eq_bind, Option.bind_some]
  split
  · rename_i same
    subst same
    exact (settle_of_fixed stepped rounds).symm
  · rfl

/-- A further round changes nothing once the step settled, by induction on the rounds. -/
theorem settle_more {rounds : Nat} {current final : α}
    (settled : settle step rounds current = some final) (fixed : step final = some final)
    : settle step (rounds + 1) current = some final := by
  induction rounds generalizing current with
  | zero =>
      obtain rfl := Option.some.inj settled
      exact settle_of_fixed fixed 1
  | succ rounds ih =>
      obtain ⟨next, stepped, _⟩ := Option.bind_eq_some_iff.mp settled
      rw [settle_succ stepped] at settled ⊢
      exact ih settled

/-- A walk in one direction settles within as many rounds as there are stops ahead, by
induction on the rounds.
-/
theorem settle_toward {inside : α → Prop} {stops : List α} (ahead : α → α → Bool)
    (irreflexive : ∀ item, ahead item item = false)
    (transitive :
      ∀ first middle last, ahead last middle = true → ahead middle first = true
        → ahead last first = true)
    (moves :
      ∀ current, inside current
        → ∃ next, step current = some next ∧ inside next ∧ (next = current ∨ next ∈ stops))
    (onward :
      ∀ current next next', inside current → step current = some next
        → ahead next current = true
        → step next = some next'
        → next' = next ∨ ahead next' next = true)
    (rounds : Nat) {current next : α} (within : inside current)
    (stepped : step current = some next) (way : next = current ∨ ahead next current = true)
    (enough : stops.countP (ahead · current) ≤ rounds)
    : ∃ final,
        settle step rounds current = some final ∧ inside final ∧ step final = some final := by
  induction rounds generalizing current next with
  | zero =>
      obtain ⟨found, foundStep, _, stop⟩ := moves current within
      obtain rfl := Option.some.inj (stepped.symm.trans foundStep)
      rcases way with rfl | nearer
      · exact ⟨next, rfl, within, stepped⟩
      · rcases stop with rfl | stop
        · exact ⟨next, rfl, within, stepped⟩
        · have positive : 0 < stops.countP (ahead · current) :=
            List.countP_pos_iff.mpr ⟨next, stop, nearer⟩
          omega
  | succ rounds ih =>
      obtain ⟨found, foundStep, foundInside, stop⟩ := moves current within
      obtain rfl := Option.some.inj (stepped.symm.trans foundStep)
      rw [settle_succ stepped]
      obtain ⟨next', stepped', _⟩ := moves next foundInside
      rcases way with rfl | nearer
      · exact ⟨next, settle_of_fixed stepped rounds, within, stepped⟩
      · rcases stop with rfl | stop
        · exact ⟨next, settle_of_fixed stepped rounds, within, stepped⟩
        · have fewer : stops.countP (ahead · next) < stops.countP (ahead · current) :=
            countP_lt_countP (fun item further => transitive _ _ _ further nearer) stop
              (irreflexive next) nearer
          exact ih foundInside stepped' (onward _ _ _ within stepped nearer stepped') (by omega)

end Settle

section Walk

variable [LinearOrder α] {step : α → Option α}

/-- A step that stays among some values, is monotone there, and leads to the value it got or to
one of finitely many stops.
-/
structure Walk (step : α → Option α) (inside : α → Prop) (stops : List α) : Prop where
  moves :
    ∀ current, inside current
      → ∃ next, step current = some next ∧ inside next ∧ (next = current ∨ next ∈ stops)
  mono :
    ∀ current current' next next', inside current → inside current' → current ≤ current'
      → step current = some next
      → step current' = some next'
      → next ≤ next'

variable {inside : α → Prop} {stops : List α} (walk : Walk step inside stops)

include walk

/-- A walk settles once the rounds are as many as the stops on either side of its start. -/
theorem Walk.settles {current : α} (within : inside current) (rounds : Nat)
    (below : stops.countP (· < current) ≤ rounds) (above : stops.countP (current < ·) ≤ rounds)
    : ∃ final,
        settle step rounds current = some final ∧ inside final ∧ step final = some final := by
  obtain ⟨next, stepped, nextInside, _⟩ := walk.moves current within
  rcases le_total next current with down | up
  · apply settle_toward (fun next current => decide (next < current)) (by simp) ?_ walk.moves ?_
      rounds within stepped ?_ below
    · intro first middle last lower lower'
      simp only [decide_eq_true_eq] at lower lower' ⊢
      exact lower.trans lower'
    · intro current next next' within stepped lower stepped'
      simp only [decide_eq_true_eq] at lower ⊢
      obtain ⟨found, foundStep, inside', _⟩ := walk.moves current within
      obtain rfl := Option.some.inj (stepped.symm.trans foundStep)
      exact (walk.mono _ _ _ _ inside' within lower.le stepped' stepped).eq_or_lt
    · exact down.eq_or_lt.imp id (by simp)
  · apply settle_toward (fun next current => decide (current < next)) (by simp) ?_ walk.moves ?_
      rounds within stepped ?_ above
    · intro first middle last higher higher'
      simp only [decide_eq_true_eq] at higher higher' ⊢
      exact higher'.trans higher
    · intro current next next' within stepped higher stepped'
      simp only [decide_eq_true_eq] at higher ⊢
      obtain ⟨found, foundStep, inside', _⟩ := walk.moves current within
      obtain rfl := Option.some.inj (stepped.symm.trans foundStep)
      exact (walk.mono _ _ _ _ within inside' higher.le stepped stepped').eq_or_lt.imp Eq.symm id
    · exact up.eq_or_lt.imp Eq.symm (by simp)

/-- Settling is monotone, by induction on the rounds. -/
theorem Walk.settle_mono (rounds : Nat) {current current' final final' : α}
    (within : inside current) (within' : inside current') (ordered : current ≤ current')
    (settled : settle step rounds current = some final)
    (settled' : settle step rounds current' = some final')
    : final ≤ final' := by
  induction rounds generalizing current current' with
  | zero =>
      obtain rfl := Option.some.inj settled
      obtain rfl := Option.some.inj settled'
      exact ordered
  | succ rounds ih =>
      obtain ⟨next, stepped, inside, _⟩ := walk.moves current within
      obtain ⟨next', stepped', inside', _⟩ := walk.moves current' within'
      rw [settle_succ stepped] at settled
      rw [settle_succ stepped'] at settled'
      exact ih inside inside' (walk.mono _ _ _ _ within within' ordered stepped stepped') settled
        settled'

end Walk

end Hane.Foundations
