import Mathlib.Tactic.Common

/-! Timelines: a present state between a past of entries that can be taken back and a future
of entries that can be applied again. Entries are related to the states they lead between by
an arbitrary relation.
-/

namespace Hane.Foundations

variable {σ ε α : Type*}

/-- `Spans applies initial past now` says that the entries of `past`, latest first, lead from
`initial` to `now`.
-/
inductive Spans (applies : ε → σ → σ → Prop) : σ → List ε → σ → Prop
  | nil (state : σ) : Spans applies state [] state
  | cons {initial before now : σ} {entry : ε} {past : List ε}
      : Spans applies initial past before
        → applies entry before now
        → Spans applies initial (entry :: past) now

/-- `Continues applies now future final` says that the entries of `future`, next first, lead
from `now` to `final`.
-/
inductive Continues (applies : ε → σ → σ → Prop) : σ → List ε → σ → Prop
  | nil (state : σ) : Continues applies state [] state
  | cons {now after final : σ} {entry : ε} {future : List ε}
      : applies entry now after
        → Continues applies after future final
        → Continues applies now (entry :: future) final

section Timeline

variable {applies : ε → σ → σ → Prop}

/-- A past survives a weaker reading of its entries, by induction on it. -/
theorem Spans.mono {weaker : ε → σ → σ → Prop} {initial now : σ} {past : List ε}
    (implies : ∀ entry before after, applies entry before after → weaker entry before after)
    (spans : Spans applies initial past now)
    : Spans weaker initial past now := by
  induction spans with
  | nil => exact .nil _
  | cons _ applied ih => exact .cons ih (implies _ _ _ applied)

/-- A future survives a weaker reading of its entries, by induction on it. -/
theorem Continues.mono {weaker : ε → σ → σ → Prop} {now final : σ} {future : List ε}
    (implies : ∀ entry before after, applies entry before after → weaker entry before after)
    (continues : Continues applies now future final)
    : Continues weaker now future final := by
  induction continues with
  | nil state => exact .nil state
  | cons applied _ ih => exact .cons (implies _ _ _ applied) ih

theorem Spans.latest {initial now : σ} {entry : ε} {past : List ε}
    (spans : Spans applies initial (entry :: past) now)
    : ∃ before, Spans applies initial past before ∧ applies entry before now := by
  cases spans with
  | cons older applied => exact ⟨_, older, applied⟩

theorem Continues.next {now final : σ} {entry : ε} {future : List ε}
    (continues : Continues applies now (entry :: future) final)
    : ∃ after, applies entry now after ∧ Continues applies after future final := by
  cases continues with
  | cons applied onwards => exact ⟨_, applied, onwards⟩

/-- Entries that lead to the present first and onwards then lead there in a row, by induction
on the first ones.
-/
theorem Continues.append {now middle final : σ} {future later : List ε}
    (first : Continues applies now future middle)
    (second : Continues applies middle later final)
    : Continues applies now (future ++ later) final := by
  induction first with
  | nil state => exact second
  | cons applied _ ih => exact .cons applied (ih second)

theorem Spans.reverse {initial now : σ} {past : List ε}
    (spans : Spans applies initial past now)
    : Continues applies initial past.reverse now := by
  induction spans with
  | nil => exact .nil _
  | cons _ applied ih =>
      rw [List.reverse_cons]
      exact ih.append (.cons applied (.nil _))

end Timeline

/-- `InSteps step start finish count` says that `count` steps in a row lead from `start` to
`finish`.
-/
inductive InSteps (step : α → α → Prop) : α → α → Nat → Prop
  | refl (state : α) : InSteps step state state 0
  | head {start next finish : α} {count : Nat}
      : step start next → InSteps step next finish count → InSteps step start finish (count + 1)

section Presents

variable {applies : ε → σ → σ → Prop} {step : α → α → Prop}
  {presents : α → List ε → σ → List ε → Prop}

/-- A system that can always take the latest entry back arrives at the initial state, by
induction on the past.
-/
theorem Spans.drain
    (back :
      ∀ state entry past now future before,
        presents state (entry :: past) now future
        → applies entry before now
        → ∃ next, step state next ∧ presents next past before (entry :: future))
    {state : α} {initial now : σ} {past future : List ε}
    (spans : Spans applies initial past now) (shown : presents state past now future)
    : ∃ finish,
        InSteps step state finish past.length
        ∧ presents finish [] initial (past.reverse ++ future) := by
  induction spans generalizing state future with
  | nil => exact ⟨state, .refl state, shown⟩
  | @cons before now entry past _ applied ih =>
      obtain ⟨next, moved, shown⟩ := back state entry past now future before shown applied
      obtain ⟨finish, steps, shown⟩ := ih shown
      refine ⟨finish, .head moved steps, ?_⟩
      rw [List.reverse_cons, List.append_assoc]
      exact shown

/-- A system that can always apply the next entry again arrives where the entries lead, by
induction on them.
-/
theorem Continues.drain
    (forth :
      ∀ state past now entry future after,
        presents state past now (entry :: future)
        → applies entry now after
        → ∃ next, step state next ∧ presents next (entry :: past) after future)
    {state : α} {now final : σ} {past entries later : List ε}
    (continues : Continues applies now entries final)
    (shown : presents state past now (entries ++ later))
    : ∃ finish,
        InSteps step state finish entries.length
        ∧ presents finish (entries.reverse ++ past) final later := by
  induction continues generalizing state past with
  | nil now => exact ⟨state, .refl state, shown⟩
  | @cons now after final entry entries applied _ ih =>
      obtain ⟨next, moved, shown⟩ :=
        forth state past now entry (entries ++ later) after shown applied
      obtain ⟨finish, steps, shown⟩ := ih shown
      refine ⟨finish, .head moved steps, ?_⟩
      rw [List.reverse_cons, List.append_assoc]
      exact shown

end Presents

end Hane.Foundations
