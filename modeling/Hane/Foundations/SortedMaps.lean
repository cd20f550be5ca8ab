import Mathlib.Data.List.Perm.Basic
import Mathlib.Order.Lattice
import Mathlib.Data.List.Nodup

/-! Maps as lists of pairs in the order of their keys; a later pair of a key replaces the
earlier one.
-/

namespace Hane.Foundations.SortedMaps

variable {κ β : Type} [LT κ] [DecidableLT κ] [DecidableEq κ]

def insert (key : κ) (value : β) : List (κ × β) → List (κ × β)
  | [] => [(key, value)]
  | (other, held) :: rest =>
    if key < other then (key, value) :: (other, held) :: rest
    else if key = other then (key, value) :: rest
    else (other, held) :: insert key value rest

def collect (pairs : List (κ × β)) : List (κ × β) :=
  pairs.foldl (fun held pair => insert pair.1 pair.2 held) []

/-- A fresh key adds its pair, by induction over the map. -/
theorem insert_perm (key : κ) (value : β) (held : List (κ × β))
    (fresh : key ∉ held.map Prod.fst)
    : (insert key value held).Perm ((key, value) :: held) := by
  induction held with
  | nil => exact .rfl
  | cons pair rest ih =>
      obtain ⟨other, kept⟩ := pair
      simp only [List.map_cons, List.mem_cons, not_or] at fresh
      simp only [insert, if_neg fresh.1]
      split
      · exact .rfl
      · exact ((ih fresh.2).cons _).trans (.swap ..)

/-- A pair of the result was inserted or held before, by induction over the map. -/
theorem mem_of_mem_insert {key : κ} {value : β} {held : List (κ × β)} {pair : κ × β}
    (member : pair ∈ insert key value held)
    : pair = (key, value) ∨ pair ∈ held := by
  induction held with
  | nil => exact .inl (List.mem_singleton.mp member)
  | cons other rest ih =>
      rw [insert] at member
      split at member
      · exact List.mem_cons.mp member
      · split at member
        · exact (List.mem_cons.mp member).imp_right (List.mem_cons_of_mem _)
        · rcases List.mem_cons.mp member with rfl | member
          · exact .inr List.mem_cons_self
          · exact (ih member).imp_right (List.mem_cons_of_mem _)

/-- Collecting pairs with distinct keys after those already held keeps all of them. -/
theorem foldl_insert_perm (pairs held : List (κ × β))
    (distinct : ((held ++ pairs).map Prod.fst).Nodup)
    : (pairs.foldl (fun held pair => insert pair.1 pair.2 held) held).Perm (held ++ pairs) := by
  induction pairs generalizing held with
  | nil => simp
  | cons pair rest ih =>
      have rearranged : (held ++ pair :: rest).Perm ((pair :: held) ++ rest) :=
        List.perm_middle
      have unique := (rearranged.map Prod.fst).nodup_iff.mp distinct
      have fresh : pair.1 ∉ held.map Prod.fst := by
        simp only [List.cons_append, List.map_cons, List.map_append, List.nodup_cons,
          List.mem_append, not_or] at unique
        exact unique.1.1
      have added := (insert_perm pair.1 pair.2 held fresh).append_right rest
      have collected := ih (insert pair.1 pair.2 held)
        ((added.map Prod.fst).nodup_iff.mpr unique)
      exact collected.trans (added.trans rearranged.symm)

theorem collect_perm (pairs : List (κ × β)) (distinct : (pairs.map Prod.fst).Nodup)
    : (collect pairs).Perm pairs :=
  foldl_insert_perm pairs [] distinct

theorem lookup_eq_some_iff {κ β : Type} [DecidableEq κ] {pairs : List (κ × β)} {key : κ}
    {value : β} (distinct : (pairs.map Prod.fst).Nodup)
    : pairs.lookup key = some value ↔ (key, value) ∈ pairs := by
  induction pairs with
  | nil => simp
  | cons pair rest ih =>
      obtain ⟨other, held⟩ := pair
      simp only [List.map_cons, List.nodup_cons] at distinct
      rw [List.lookup_cons]
      by_cases same : key = other
      · subst same
        have absent : (key, value) ∉ rest := fun kept =>
          distinct.1 (List.mem_map_of_mem (f := Prod.fst) kept)
        simp [absent, eq_comm]
      · have differ : (key == other) = false := by simpa using same
        simp only [differ, ih distinct.2, List.mem_cons, Prod.mk.injEq, same, false_and,
          false_or]

/-- The keys after inserting, by induction over the map. -/
theorem mem_keys_insert {key other : κ} {value : β} {held : List (κ × β)}
    : other ∈ (insert key value held).map Prod.fst ↔ other = key ∨ other ∈ held.map Prod.fst := by
  induction held with
  | nil => simp [insert]
  | cons pair rest ih =>
      obtain ⟨first, kept⟩ := pair
      rw [insert]
      split
      · simp
      · split
        case isTrue same => simp [same]
        case isFalse =>
          simp only [List.map_cons, List.mem_cons, ih]
          tauto

/-- Inserting keeps the keys of a list in increasing order, by induction over it. -/
theorem insert_sorted {κ β : Type} [LinearOrder κ] (key : κ) (value : β) {held : List (κ × β)}
    (sorted : held.Pairwise fun first second => first.1 < second.1)
    : (insert key value held).Pairwise fun first second => first.1 < second.1 := by
  induction held with
  | nil => exact List.pairwise_singleton _ _
  | cons pair rest ih =>
      obtain ⟨other, kept⟩ := pair
      obtain ⟨least, ordered⟩ := List.pairwise_cons.mp sorted
      rw [insert]
      split
      case isTrue before =>
        refine List.pairwise_cons.mpr ⟨?_, sorted⟩
        intro later member
        rcases List.mem_cons.mp member with rfl | member
        · exact before
        · exact before.trans (least later member)
      case isFalse behind =>
        split
        case isTrue same => exact List.pairwise_cons.mpr ⟨same ▸ least, ordered⟩
        case isFalse differ =>
          refine List.pairwise_cons.mpr ⟨?_, ih ordered⟩
          intro later member
          have after : other < key := lt_of_le_of_ne (not_lt.mp behind) (Ne.symm differ)
          rcases mem_of_mem_insert member with rfl | member
          · exact after
          · exact least later member

end Hane.Foundations.SortedMaps

namespace Hane.Foundations

variable {κ β : Type} [LinearOrder κ]

/-- A map whose pairs are in the order of their keys, each key once. -/
structure SortedMap (κ β : Type) [LinearOrder κ] where
  entries : List (κ × β)
  sorted : entries.Pairwise fun first second => first.1 < second.1

namespace SortedMap

@[ext]
theorem ext {left right : SortedMap κ β} (same : left.entries = right.entries) : left = right := by
  cases left
  cases right
  cases same
  rfl

instance [DecidableEq β] : DecidableEq (SortedMap κ β) := fun left right =>
  decidable_of_iff (left.entries = right.entries) ⟨ext, fun same => same ▸ rfl⟩

def empty : SortedMap κ β := ⟨[], .nil⟩

def insert (map : SortedMap κ β) (key : κ) (value : β) : SortedMap κ β :=
  ⟨SortedMaps.insert key value map.entries, SortedMaps.insert_sorted key value map.sorted⟩

theorem nodup_keys (map : SortedMap κ β) : (map.entries.map Prod.fst).Nodup :=
  List.pairwise_map.mpr (map.sorted.imp fun before => before.ne)

end SortedMap

def SortedMaps.sortedSet (items : List κ) : List κ :=
  (SortedMaps.collect (items.map fun item => (item, ()))).map Prod.fst

/-- The set has the items of the list, by induction over it. -/
theorem SortedMaps.mem_sortedSet {items : List κ} {item : κ}
    : item ∈ sortedSet items ↔ item ∈ items := by
  have folded : ∀ held : List (κ × Unit),
      item ∈ ((items.map fun item => (item, ())).foldl
        (fun held pair => insert pair.1 pair.2 held) held).map Prod.fst
        ↔ item ∈ held.map Prod.fst ∨ item ∈ items := by
    induction items with
    | nil => simp
    | cons first rest ih =>
        intro held
        rw [List.map_cons, List.foldl_cons, ih, mem_keys_insert, List.mem_cons]
        tauto
  simpa [sortedSet, collect] using folded []

end Hane.Foundations
