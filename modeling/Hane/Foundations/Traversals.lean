import Mathlib.Data.List.Forall2
import Mathlib.Tactic.Common

/-! Fallible steps made on every element of a list: all of them succeed or the whole fails. -/

namespace Hane.Foundations

variable {α β γ σ : Type*}

/-- A traversal succeeds exactly when every element does, by induction on the elements. -/
theorem mapM_eq_some_iff (step : α → Option β) {items : List α} {results : List β}
    : items.mapM step = some results
      ↔ List.Forall₂ (fun item result => step item = some result) items results := by
  induction items generalizing results with
  | nil => cases results <;> simp
  | cons item items ih =>
      simp only [List.mapM_cons, Option.bind_eq_bind, Option.pure_def, Option.bind_eq_some_iff,
        Option.some.injEq]
      constructor
      · rintro ⟨result, first, later, traversed, rfl⟩
        exact .cons first (ih.mp traversed)
      · intro related
        cases related with
        | cons first rest => exact ⟨_, first, _, ih.mpr rest, rfl⟩

/-- Elements related to results that are related to later results, by induction on the
elements.
-/
theorem forall₂_comp {first : α → β → Prop} {second : β → γ → Prop} {items : List α}
    {results : List β} {finals : List γ} (left : List.Forall₂ first items results)
    (right : List.Forall₂ second results finals)
    : List.Forall₂ (fun item final => ∃ result, first item result ∧ second result final) items
        finals := by
  induction left generalizing finals with
  | nil =>
      cases right
      exact .nil
  | cons related _ ih =>
      cases right with
      | cons next rest => exact .cons ⟨_, related, next⟩ (ih rest)

/-- Every result comes from an element, by induction on the elements. -/
theorem exists_of_forall₂ {related : α → β → Prop} {items : List α} {results : List β}
    (pairs : List.Forall₂ related items results)
    : ∀ result ∈ results, ∃ item ∈ items, related item result := by
  induction pairs with
  | nil => exact fun _ member => absurd member List.not_mem_nil
  | cons first _ ih =>
      intro result member
      rcases List.mem_cons.mp member with rfl | later
      · exact ⟨_, List.mem_cons_self, first⟩
      · obtain ⟨item, found, related⟩ := ih result later
        exact ⟨item, List.mem_cons_of_mem _ found, related⟩

/-- Lists put together from parts of equal lengths are equal exactly when the parts are, by
induction on what they are made for.
-/
theorem flatMap_eq_flatMap_iff {first second : α → List β} {items : List α}
    (lengths : ∀ item ∈ items, (first item).length = (second item).length)
    : items.flatMap first = items.flatMap second ↔ ∀ item ∈ items, first item = second item := by
  induction items with
  | nil => simp
  | cons item items ih =>
      have here := lengths item List.mem_cons_self
      have later := ih fun found member => lengths found (List.mem_cons_of_mem _ member)
      simp only [List.flatMap_cons, List.forall_mem_cons, ← later]
      constructor
      · exact fun same => List.append_inj same here
      · rintro ⟨part, rest⟩
        rw [part, rest]

/-- Two traversals in a row are one, by induction on the elements. -/
theorem mapM_bind_mapM (step : α → Option β) (next : β → Option γ) (items : List α)
    : (items.mapM step).bind (List.mapM next) = items.mapM fun item => (step item).bind next := by
  induction items with
  | nil => rfl
  | cons item items ih =>
      simp only [List.mapM_cons, ← ih, Option.bind_eq_bind, Option.pure_def]
      cases step item with
      | none => rfl
      | some result =>
          cases items.mapM step with
          | none => cases found : next result <;> simp [found]
          | some results => simp [List.mapM_cons]

/-- Traversals made in turn follow each element through all of them, by induction on the
traversals.
-/
theorem foldlM_mapM (step : α → σ → Option α) (steps : List σ) (items : List α)
    : steps.foldlM (fun items next => items.mapM (step · next)) items
      = items.mapM fun item => steps.foldlM step item := by
  induction steps generalizing items with
  | nil => exact ((mapM_eq_some_iff _).mpr (List.forall₂_same.mpr fun _ _ => rfl)).symm
  | cons next steps ih =>
      simp only [List.foldlM_cons, Option.bind_eq_bind, ← mapM_bind_mapM]
      exact congrArg _ (funext ih)

end Hane.Foundations
