import Hane.Foundations.Stateful
import Mathlib.Algebra.Ring.Nat

/-! Arithmetic on 64-bit words whose overflow is an outcome of its own. -/

namespace Hane.Foundations

/-- How a checked computation may stop: refused with a problem, or at a sum or difference that
does not fit in a word.
-/
inductive Halt (ε : Type) where
  | refused (problem : ε)
  | overflow
  deriving DecidableEq, Repr

abbrev Checked (ε α : Type) := Except (Halt ε) α

section Checked

variable {ε α β : Type}

def addWord (left right : Nat) : Checked ε Nat :=
  if left + right < 2 ^ 64 then .ok (left + right) else .error .overflow

def subWord (left right : Nat) : Checked ε Nat :=
  if right ≤ left then .ok (left - right) else .error .overflow

/-- A computation without such arithmetic. -/
def refusing (program : Except ε α) : Checked ε α := program.mapError .refused

/-- The computation does not stop at an overflow. -/
def Fits (program : Checked ε α) : Prop := program ≠ .error .overflow

@[simp] theorem addWord_ok_iff (left right sum : Nat)
    : (addWord left right : Checked ε Nat) = .ok sum
      ↔ left + right < 2 ^ 64 ∧ left + right = sum := by
  by_cases small : left + right < 2 ^ 64
  · rw [addWord, if_pos small, Except.ok.injEq]
    exact (and_iff_right small).symm
  · rw [addWord, if_neg small]
    exact ⟨(fun wrong => nomatch wrong), fun fits => absurd fits.1 small⟩

@[simp] theorem subWord_ok_iff (left right difference : Nat)
    : (subWord left right : Checked ε Nat) = .ok difference
      ↔ right ≤ left ∧ left - right = difference := by
  by_cases ordered : right ≤ left
  · rw [subWord, if_pos ordered, Except.ok.injEq]
    exact (and_iff_right ordered).symm
  · rw [subWord, if_neg ordered]
    exact ⟨(fun wrong => nomatch wrong), fun fits => absurd fits.1 ordered⟩

@[simp] theorem refusing_ok_iff (program : Except ε α) (value : α)
    : refusing program = .ok value ↔ program = .ok value :=
  except_mapError_ok_iff ..

theorem Fits.ok (value : α) : Fits (.ok value : Checked ε α) := by
  simp [Fits]

theorem Fits.refused (problem : ε) : Fits (.error (.refused problem) : Checked ε α) := by
  simp [Fits]

theorem Fits.refusing (program : Except ε α) : Fits (Foundations.refusing program) := by
  cases program <;> simp [Fits, Foundations.refusing, Except.mapError]

theorem Fits.add {left right : Nat} (small : left + right < 2 ^ 64)
    : Fits (addWord left right : Checked ε Nat) := by
  rw [addWord, if_pos small]
  exact Fits.ok _

theorem Fits.sub {left right : Nat} (ordered : right ≤ left)
    : Fits (subWord left right : Checked ε Nat) := by
  rw [subWord, if_pos ordered]
  exact Fits.ok _

theorem Fits.bind {program : Checked ε α} {next : α → Checked ε β} (first : Fits program)
    (second : ∀ value, program = .ok value → Fits (next value))
    : Fits (program >>= next) := by
  cases outcome : program with
  | error halt =>
      cases halt with
      | refused problem => exact Fits.refused problem
      | overflow => exact absurd outcome first
  | ok value => exact second value outcome

theorem Fits.guard {condition : Prop} [Decidable condition] {problem : ε}
    {next : α → Checked ε β} {rest : Checked ε β} (fits : ¬condition → Fits rest)
    : Fits (if condition then throw (.refused problem) >>= next else rest) := by
  split
  · exact Fits.refused problem
  · rename_i fails
    exact fits fails

end Checked

end Hane.Foundations
