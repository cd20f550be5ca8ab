import Hane.Markdown.FenceHeight
import Mathlib.Data.List.Forall2

/-! What the derived arrays of the fence index hold: the table of owners lists every row with an
owner once, under its outermost one, and the prefix array counts these rows.
-/

namespace Hane.Markdown.FenceHeight

open Hane.Document
open Hane.Foundations
open Hane.Foundations.Cuts

-- Outermost owners

/-- The outermost owner begins first, and of those that begin with it ends last: by induction over
the owners.
-/
theorem outermostOwner_spec {owners : List SourceRange} {owner : SourceRange}
    (found : outermostOwner owners = some owner)
    : owner ∈ owners
      ∧ ∀ other ∈ owners, owner.start < other.start
        ∨ (owner.start = other.start ∧ other.stop ≤ owner.stop) := by
  induction owners generalizing owner with
  | nil => cases found
  | cons first rest ih =>
      rw [outermostOwner] at found
      cases others : outermostOwner rest with
      | none =>
          rw [others] at found
          cases rest with
          | nil =>
              obtain rfl := Option.some.inj found
              refine ⟨List.mem_cons_self, fun other member => ?_⟩
              obtain rfl := List.mem_singleton.mp member
              exact .inr ⟨rfl, Nat.le_refl _⟩
          | cons second rest =>
              rw [outermostOwner] at others
              revert others
              split
              next => simp
              next => split <;> simp
      | some least =>
          obtain ⟨inside, lowest⟩ := ih others
          rw [others] at found
          simp only at found
          split at found
          next earlier =>
            obtain rfl := Option.some.inj found
            refine ⟨List.mem_cons_of_mem _ inside, fun other member => ?_⟩
            rcases List.mem_cons.mp member with rfl | later
            · omega
            · exact lowest other later
          next later =>
            obtain rfl := Option.some.inj found
            refine ⟨List.mem_cons_self, fun other member => ?_⟩
            rcases List.mem_cons.mp member with rfl | among
            · omega
            · have bound := lowest other among
              omega

theorem outermostOwner_isSome (owners : List SourceRange)
    : (outermostOwner owners).isSome = !owners.isEmpty := by
  cases owners with
  | nil => rfl
  | cons owner rest =>
      rw [outermostOwner]
      split
      next => rfl
      next => split <;> rfl

-- The table of owners

def listed (table : List FenceQuoteOwnerRows) : List (SourceRange × Nat) :=
  table.flatMap fun entry => entry.rows.map fun row => (entry.owner, row)

@[simp] theorem listed_nil : listed [] = [] := rfl

@[simp] theorem listed_cons (entry : FenceQuoteOwnerRows) (rest : List FenceQuoteOwnerRows)
    : listed (entry :: rest) = entry.rows.map (fun row => (entry.owner, row)) ++ listed rest := rfl

/-- One row more is listed, by induction over the table. -/
theorem listed_pushOwnerRow (owner : SourceRange) (index : Nat)
    (table : List FenceQuoteOwnerRows)
    : (listed (pushOwnerRow owner index table)).Perm (listed table ++ [(owner, index)]) := by
  induction table with
  | nil => simp [pushOwnerRow]
  | cons entry rest ih =>
      rw [pushOwnerRow]
      split
      next same =>
        subst same
        simp only [listed_cons, List.map_append, List.map_cons, List.map_nil, List.append_assoc]
        exact List.perm_append_comm.append_left _
      next =>
        simp only [listed_cons, List.append_assoc]
        exact ih.append_left _

/-- The indices of a table ascend under each owner and lie below a bound. -/
def Ascending (bound : Nat) (table : List FenceQuoteOwnerRows) : Prop :=
  ∀ entry ∈ table, entry.rows.Pairwise (· < ·) ∧ ∀ row ∈ entry.rows, row < bound

theorem Ascending.mono {bound further : Nat} {table : List FenceQuoteOwnerRows}
    (ascending : Ascending bound table) (le : bound ≤ further)
    : Ascending further table := fun entry member =>
  ⟨(ascending entry member).1, fun row inside => ((ascending entry member).2 row inside).trans_le le⟩

theorem Ascending.push {bound : Nat} {table : List FenceQuoteOwnerRows}
    (ascending : Ascending bound table) (owner : SourceRange)
    : Ascending (bound + 1) (pushOwnerRow owner bound table) := by
  induction table with
  | nil => simp [pushOwnerRow, Ascending]
  | cons entry rest ih =>
      have here := ascending entry List.mem_cons_self
      have there : Ascending bound rest := fun other member =>
        ascending other (List.mem_cons_of_mem _ member)
      intro changed member
      rw [pushOwnerRow] at member
      split at member
      next same =>
        rcases List.mem_cons.mp member with rfl | later
        · constructor
          · refine List.pairwise_append.mpr ⟨here.1, List.pairwise_singleton _ _, ?_⟩
            intro row inside last final
            obtain rfl := List.mem_singleton.mp final
            exact here.2 row inside
          · intro row inside
            rcases List.mem_append.mp inside with old | new
            · exact Nat.lt_succ_of_lt (here.2 row old)
            · obtain rfl := List.mem_singleton.mp new
              exact Nat.lt_succ_self _
        · exact there.mono (Nat.le_succ _) changed later
      next =>
        rcases List.mem_cons.mp member with rfl | later
        · exact ⟨here.1, fun row inside => Nat.lt_succ_of_lt (here.2 row inside)⟩
        · exact ih there changed later

/-- The rows with an owner, each under its outermost one, from an index on. -/
def ownedFrom (start : Nat) (rows : List QuotedRow) : List (SourceRange × Nat) :=
  (rows.zipIdx start).filterMap fun indexed =>
    (outermostOwner indexed.1.quoteOwners).map (·, indexed.2)

/-- What the rows add to a table, by induction over them. -/
theorem foldl_collectOwner (rows : List QuotedRow) (start : Nat)
    {table : List FenceQuoteOwnerRows} (ascending : Ascending start table)
    : (listed ((rows.zipIdx start).foldl collectOwner table)).Perm
        (listed table ++ ownedFrom start rows)
      ∧ Ascending (start + rows.length) ((rows.zipIdx start).foldl collectOwner table) := by
  induction rows generalizing start table with
  | nil => simpa [ownedFrom] using ascending
  | cons row rest ih =>
      rw [List.zipIdx_cons, List.foldl_cons, collectOwner, ownedFrom, List.zipIdx_cons,
        List.filterMap_cons, ← ownedFrom]
      cases owned : outermostOwner row.quoteOwners with
      | none =>
          obtain ⟨same, bounded⟩ := ih (start + 1) (ascending.mono (Nat.le_succ _))
          refine ⟨by simpa using same, bounded.mono ?_⟩
          rw [List.length_cons]
          omega
      | some owner =>
          obtain ⟨same, bounded⟩ := ih (start + 1) (ascending.push owner)
          refine ⟨?_, bounded.mono ?_⟩
          · refine same.trans ?_
            have pushed := (listed_pushOwnerRow owner start table).append_right
              (ownedFrom (start + 1) rest)
            simpa using pushed
          · rw [List.length_cons]
            omega

theorem rangeFirst_trans (first second third : SourceRange)
    (before : rangeFirst first second = true) (after : rangeFirst second third = true)
    : rangeFirst first third = true := by
  simp only [rangeFirst, Bool.or_eq_true, Bool.and_eq_true, decide_eq_true_eq, beq_iff_eq] at *
  omega

theorem rangeFirst_total (first second : SourceRange)
    : (rangeFirst first second || rangeFirst second first) = true := by
  simp only [rangeFirst, Bool.or_eq_true, Bool.and_eq_true, decide_eq_true_eq, beq_iff_eq]
  omega

theorem ownerRows_spec (rows : List QuotedRow)
    : (listed (ownerRows rows)).Perm (ownedFrom 0 rows)
      ∧ (∀ entry ∈ ownerRows rows, entry.rows.Pairwise (· < ·))
      ∧ (ownerRows rows).Pairwise fun first second =>
          rangeFirst first.owner second.owner = true := by
  have empty : Ascending 0 [] := fun entry member => by cases member
  obtain ⟨same, ascending⟩ := foldl_collectOwner rows 0 empty
  refine ⟨?_, fun entry member => (ascending entry (List.mem_mergeSort.mp member)).1, ?_⟩
  · exact ((List.mergeSort_perm _ _).flatMap_right _).trans same
  · exact List.pairwise_mergeSort
      (fun first second third =>
        rangeFirst_trans first.owner second.owner third.owner)
      (fun first second => rangeFirst_total first.owner second.owner) _

-- Prefix counts and prefix maxima

/-- Whether a quote is around the row. -/
def QuotedRow.quoted (row : QuotedRow) : Bool := !row.quoteOwners.isEmpty

theorem foldl_quoted (rows : List QuotedRow) (count : Nat)
    : rows.foldl (fun count row =>
          if (outermostOwner row.quoteOwners).isSome then count + 1 else count) count
        = count + rows.countP QuotedRow.quoted := by
  induction rows generalizing count with
  | nil => rfl
  | cons row rest ih =>
      rw [List.foldl_cons, ih, List.countP_cons, outermostOwner_isSome, ← QuotedRow.quoted]
      split <;> omega

theorem quotedBefore_getElem? (rows : List QuotedRow) {place : Nat} (inside : place ≤ rows.length)
    : (quotedBefore rows)[place]? = some ((rows.take place).countP QuotedRow.quoted) := by
  rw [quotedBefore, List.getElem?_scanl, if_pos inside, foldl_quoted, Nat.zero_add]

/-- The maximum so far is no less than any end so far, by induction over the entries. -/
theorem maxEnds_above (entries : List FenceQuoteOwnerRows)
    : List.Forall₂ (fun entry maxEnd => entry.owner.stop ≤ maxEnd) entries (maxEnds entries) := by
  have general : ∀ (entries : List FenceQuoteOwnerRows) (least : Nat),
      List.Forall₂ (fun entry maxEnd => entry.owner.stop ≤ maxEnd) entries
        (entries.scanl (fun maxEnd entry => max maxEnd entry.owner.stop) least).tail := by
    intro entries
    induction entries with
    | nil => intro least; simp
    | cons entry rest ih =>
        intro least
        rw [List.scanl_cons, List.tail_cons]
        have step := ih (max least entry.owner.stop)
        cases rest with
        | nil => simp
        | cons second rest =>
            rw [List.scanl_cons, List.tail_cons] at step
            rw [List.scanl_cons]
            exact .cons (Nat.le_max_right _ _) step
  exact general entries 0

-- Rows found through their owners

/-- Whether a disclosure in offsets of the block touches an owner. -/
def ownerTouched (disclosure : SourceRange) (allowOwnerEnd : Bool) (owner : SourceRange) : Bool :=
  if disclosure.isEmpty then
    decide (owner.start ≤ disclosure.start)
    && (decide (disclosure.start < owner.stop)
      || (allowOwnerEnd && owner.stop == disclosure.start))
  else
    decide (owner.start < disclosure.stop) && decide (disclosure.start < owner.stop)

theorem scan_eq {entries : List FenceQuoteOwnerRows} {begun live : FenceQuoteOwnerRows → Bool}
    {past : Nat → Bool} (total : List FenceQuoteOwnerRows → Nat) (divides : Divides begun entries)
    (gone : ∀ entry maxEnd, entry.owner.stop ≤ maxEnd → past maxEnd = true → live entry = false)
    : (do
        let ends ← slice (maxEnds entries) 0 (partitionPoint begun entries)
        let scanned ← slice entries (partitionPoint past ends) (partitionPoint begun entries)
        return total (scanned.filter live))
      = some (total (entries.filter fun entry => live entry && begun entry)) := by
  have bound : partitionPoint begun entries ≤ entries.length :=
    (List.takeWhile_prefix begun).length_le
  have sizes := (maxEnds_above entries).length_eq
  generalize reached : partitionPoint begun entries = stop at *
  generalize cut : (maxEnds entries).take stop = ends
  have whole : slice (maxEnds entries) 0 stop = some ends := by
    rw [slice, if_pos ⟨Nat.zero_le _, by omega⟩, List.drop_zero, cut]
  have shorter : partitionPoint past ends ≤ stop := by
    have size : partitionPoint past ends ≤ ends.length := (List.takeWhile_prefix past).length_le
    rw [← cut, List.length_take, cut] at size
    exact size.trans (Nat.min_le_left _ _)
  have rest : slice entries (partitionPoint past ends) stop
      = some ((entries.take stop).drop (partitionPoint past ends)) := by
    rw [slice, if_pos ⟨shorter, bound⟩]
  -- An entry left out at the start ends no later than a maximum that is past.
  have skipped : ((entries.take stop).take (partitionPoint past ends)).filter live = [] := by
    refine List.filter_eq_nil_iff.mpr fun entry member => ?_
    have front := List.forall₂_take (partitionPoint past ends)
      (List.forall₂_take stop (maxEnds_above entries))
    have held : ends.take (partitionPoint past ends) = ends.takeWhile past :=
      (List.prefix_iff_eq_take.mp (List.takeWhile_prefix past)).symm
    rw [cut, held] at front
    obtain ⟨place, rfl⟩ := List.mem_iff_get.mp member
    have here : place.val < (ends.takeWhile past).length := front.length_eq ▸ place.isLt
    have low := front.get place.isLt here
    rw [gone _ _ low (List.mem_takeWhile_imp (List.get_mem _ ⟨place.val, here⟩))]
    decide
  have kept := congrArg (List.filter live)
    (List.take_append_drop (partitionPoint past ends) (entries.take stop))
  rw [List.filter_append, skipped, List.nil_append] at kept
  simp only [whole, rest, Option.bind_eq_bind, Option.bind_some, Option.pure_def, kept]
  rw [← reached, divides.take_eq, List.filter_filter]

/-- Between two limits lies what is below the second without what is below the first. -/
theorem countP_between (items : List Nat) (start stop : Nat)
    : items.countP (fun item => decide (item < stop))
          - items.countP (fun item => decide (item < start))
        = items.countP fun item => decide (start ≤ item) && decide (item < stop) := by
  have parts : items.countP (fun item => decide (item < stop))
      = items.countP (fun item => decide (item < stop) && decide (item < start))
        + items.countP fun item => decide (start ≤ item) && decide (item < stop) := by
    rw [countP_split _ fun item => decide (item < start)]
    congr 1
    refine List.countP_congr fun item _ => ?_
    simp [and_comm]
  rcases Nat.le_total start stop with ordered | reversed
  · have below : items.countP (fun item => decide (item < stop) && decide (item < start))
        = items.countP fun item => decide (item < start) := by
      refine List.countP_congr fun item _ => ?_
      simp only [Bool.and_eq_true, decide_eq_true_eq]
      omega
    omega
  · have below : items.countP (fun item => decide (item < stop))
        ≤ items.countP fun item => decide (item < start) := by
      refine List.countP_mono_left fun item _ low => ?_
      simp only [decide_eq_true_eq] at low ⊢
      omega
    have none : items.countP (fun item => decide (start ≤ item) && decide (item < stop)) = 0 := by
      refine List.countP_eq_zero.mpr fun item _ => ?_
      simp only [Bool.and_eq_true, decide_eq_true_eq]
      omega
    omega

/-- The widths of the live entries count the listed rows between two indices, by induction over the
entries.
-/
theorem sum_widths {entries : List FenceQuoteOwnerRows} (live : SourceRange → Bool)
    (start stop : Nat) (ascending : ∀ entry ∈ entries, entry.rows.Pairwise (· < ·))
    : ((entries.filter fun entry => live entry.owner).map fun entry =>
          partitionPoint (fun row => decide (row < stop)) entry.rows
            - partitionPoint (fun row => decide (row < start)) entry.rows).sum
        = (listed entries).countP fun pair =>
            live pair.1 && (decide (start ≤ pair.2) && decide (pair.2 < stop)) := by
  induction entries with
  | nil => rfl
  | cons entry rest ih =>
      have sorted := ascending entry List.mem_cons_self
      have divided : ∀ limit : Nat, Divides (fun row => decide (row < limit)) entry.rows :=
        fun limit => sorted.imp fun lower => by simp only [decide_eq_true_eq]; omega
      have width : partitionPoint (fun row => decide (row < stop)) entry.rows
            - partitionPoint (fun row => decide (row < start)) entry.rows
          = entry.rows.countP fun row => decide (start ≤ row) && decide (row < stop) := by
        rw [(divided stop).partitionPoint_eq, (divided start).partitionPoint_eq]
        exact countP_between entry.rows start stop
      rw [listed_cons, List.countP_append,
        ← ih fun other member => ascending other (List.mem_cons_of_mem _ member), List.countP_map]
      cases alive : live entry.owner with
      | true =>
          rw [List.filter_cons_of_pos (by simpa using alive), List.map_cons, List.sum_cons, width]
          simp [Function.comp_def, alive]
      | false =>
          rw [List.filter_cons_of_neg (by simp [alive])]
          simp [Function.comp_def, alive]

theorem activeQuoteRowsIn_eq (block : SourceRange) (rows : List QuotedRow) (start stop : Nat)
    (disclosure : SourceRange) (allowOwnerEnd : Bool)
    : activeQuoteRowsIn (fromAbsoluteRows block rows) start stop disclosure allowOwnerEnd
        = some ((((deduplicated block rows).take stop).drop start).countP fun row =>
            (outermostOwner row.quoteOwners).any (ownerTouched disclosure allowOwnerEnd)) := by
  obtain ⟨same, ascending, sorted⟩ := ownerRows_spec (deduplicated block rows)
  have counted : (listed (ownerRows (deduplicated block rows))).countP (fun pair =>
        ownerTouched disclosure allowOwnerEnd pair.1
        && (decide (start ≤ pair.2) && decide (pair.2 < stop)))
      = (((deduplicated block rows).take stop).drop start).countP fun row =>
          (outermostOwner row.quoteOwners).any (ownerTouched disclosure allowOwnerEnd) := by
    rw [same.countP_eq, ownedFrom, List.countP_filterMap,
      ← Nat.sub_zero stop, ← Nat.sub_zero start, ← countP_zipIdx_between]
    refine List.countP_congr fun indexed _ => ?_
    cases outermostOwner indexed.1.quoteOwners <;> simp
  rw [← counted, ← sum_widths _ _ _ ascending, activeQuoteRowsIn, quoteOwnerRows_built,
    quoteOwnerMaxEnd_built]
  generalize ownerRows (deduplicated block rows) = entries at sorted
  by_cases empty : entries = []
  · subst empty
    rfl
  rw [if_neg empty]
  cases caret : disclosure.isEmpty with
  | true =>
      simp only [if_true]
      rw [scan_eq fun entries => (entries.map fun entry =>
        partitionPoint (fun row => decide (row < stop)) entry.rows
          - partitionPoint (fun row => decide (row < start)) entry.rows).sum]
      · congr 4
        funext entry
        rw [ownerTouched, if_pos caret, Bool.and_comm]
      · refine sorted.imp fun ordered => ?_
        simp only [rangeFirst, Bool.or_eq_true, Bool.and_eq_true, decide_eq_true_eq,
          beq_iff_eq] at ordered ⊢
        omega
      · intro entry maxEnd low behind
        simp only [decide_eq_true_eq, Bool.or_eq_false_iff, Bool.and_eq_false_iff,
          decide_eq_false_iff_not, beq_eq_false_iff_ne] at behind ⊢
        omega
  | false =>
      simp only [Bool.false_eq_true, if_false]
      rw [scan_eq fun entries => (entries.map fun entry =>
        partitionPoint (fun row => decide (row < stop)) entry.rows
          - partitionPoint (fun row => decide (row < start)) entry.rows).sum]
      · congr 4
        funext entry
        rw [ownerTouched, if_neg (by simp [caret]), Bool.and_comm]
      · refine sorted.imp fun ordered => ?_
        simp only [rangeFirst, Bool.or_eq_true, Bool.and_eq_true, decide_eq_true_eq,
          beq_iff_eq] at ordered ⊢
        omega
      · intro entry maxEnd low behind
        simp only [decide_eq_true_eq, decide_eq_false_iff_not] at behind ⊢
        omega

end Hane.Markdown.FenceHeight
