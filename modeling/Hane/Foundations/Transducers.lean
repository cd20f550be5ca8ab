import Mathlib.Data.List.Basic

/-! Transducers: they read items one at a time, write a list and may fail. A reader that hands out
such a list in pieces, of whatever sizes, hands out the same list or fails in the same way.
-/

namespace Hane.Foundations

variable {σ α β ε ρ : Type}

-- Results with something written before them

/-- The result behind what was written already; a failure stays the same. -/
def putBefore (out : List β) (result : Except ε (List β)) : Except ε (List β) :=
  result.map (out ++ ·)

@[simp] theorem putBefore_nil (result : Except ε (List β)) : putBefore [] result = result := by
  cases result <;> rfl

@[simp] theorem putBefore_ok (out more : List β)
    : putBefore out (.ok more : Except ε (List β)) = .ok (out ++ more) := rfl

theorem putBefore_append (left right : List β) (result : Except ε (List β))
    : putBefore (left ++ right) result = putBefore left (putBefore right result) := by
  cases result with
  | error failure => rfl
  | ok more => exact congrArg Except.ok (List.append_assoc left right more)

theorem putBefore_eq_ok_iff {out whole : List β} {result : Except ε (List β)}
    : putBefore out result = .ok whole ↔ ∃ more, result = .ok more ∧ whole = out ++ more := by
  cases result with
  | error failure => exact iff_of_false nofun fun ⟨_, wrong, _⟩ => nomatch wrong
  | ok more =>
      rw [putBefore_ok, Except.ok.injEq]
      constructor
      · exact fun same => ⟨more, rfl, same.symm⟩
      · rintro ⟨_, ⟨⟩, same⟩
        exact same.symm

-- Transducers

structure Transducer (σ α β ε : Type) where
  step : σ → α → Except ε (List β × σ)
  finish : σ → Except ε (List β)

namespace Transducer

/-- All a transducer writes for the items, up to their end. -/
def run (machine : Transducer σ α β ε) : σ → List α → Except ε (List β)
  | state, [] => machine.finish state
  | state, item :: rest =>
      match machine.step state item with
      | .error failure => .error failure
      | .ok (out, next) => putBefore out (machine.run next rest)

/-- What it writes for some of the items, and where it is behind them. -/
def feed (machine : Transducer σ α β ε) : σ → List α → Except ε (List β × σ)
  | state, [] => .ok ([], state)
  | state, item :: rest =>
      match machine.step state item with
      | .error failure => .error failure
      | .ok (out, next) =>
          match machine.feed next rest with
          | .error failure => .error failure
          | .ok (more, last) => .ok (out ++ more, last)

/-- A run over two parts feeds the first and runs over the second, by induction on the first. -/
theorem run_append (machine : Transducer σ α β ε) (state : σ) (first second : List α)
    : machine.run state (first ++ second)
      = match machine.feed state first with
        | .error failure => .error failure
        | .ok (out, next) => putBefore out (machine.run next second) := by
  induction first generalizing state with
  | nil => simp [feed]
  | cons item rest ih =>
      rw [List.cons_append, run, feed]
      cases machine.step state item with
      | error failure => rfl
      | ok stepped =>
          obtain ⟨out, next⟩ := stepped
          simp only [ih]
          cases machine.feed next rest with
          | error failure => rfl
          | ok fed => exact (putBefore_append out fed.1 _).symm

end Transducer

-- Reading in pieces

/-- Reads pieces until one is empty: what they are together, or `none` when `fuel` reads do not
reach the end. The read numbered `count` asks for `sizes count` items.
-/
def drain (read : Nat → ρ → Except ε (List β × ρ)) (sizes : Nat → Nat)
    : Nat → Nat → ρ → Option (Except ε (List β))
  | 0, _, _ => none
  | fuel + 1, count, reader =>
      match read (sizes count) reader with
      | .error failure => some (.error failure)
      | .ok ([], _) => some (.ok [])
      | .ok (out, next) => (drain read sizes fuel (count + 1) next).map (putBefore out)

/-- Each read hands out the front of what is left to read, and an empty piece only at the end. -/
structure ReadsFrom (read : Nat → ρ → Except ε (List β × ρ)) (kept : ρ → Prop)
    (left : ρ → Except ε (List β)) (size : ρ → Nat) : Prop where
  failed : ∀ {reader count failure}, kept reader → 0 < count
    → read count reader = .error failure → left reader = .error failure
  piece : ∀ {reader count out next}, kept reader → 0 < count
    → read count reader = .ok (out, next)
    → kept next ∧ left reader = putBefore out (left next) ∧ out.length + size next ≤ size reader
  ended : ∀ {reader count next}, kept reader → 0 < count
    → read count reader = .ok ([], next) → left next = .ok []

/-- Whatever the sizes are, the pieces are together what was left to read, by induction on the
number of reads that may still be needed.
-/
theorem ReadsFrom.drain {read : Nat → ρ → Except ε (List β × ρ)} {kept : ρ → Prop}
    {left : ρ → Except ε (List β)} {size : ρ → Nat} (reads : ReadsFrom read kept left size)
    {sizes : Nat → Nat} (positive : ∀ count, 0 < sizes count) {fuel : Nat} (count : Nat)
    {reader : ρ} (start : kept reader) (enough : size reader < fuel)
    : drain read sizes fuel count reader = some (left reader) := by
  induction fuel generalizing count reader with
  | zero => omega
  | succ fuel ih =>
      rw [Foundations.drain]
      cases done : read (sizes count) reader with
      | error failure => exact congrArg some (reads.failed start (positive count) done).symm
      | ok result =>
          obtain ⟨out, next⟩ := result
          obtain ⟨kept, same, smaller⟩ := reads.piece start (positive count) done
          cases out with
          | nil =>
              rw [same, reads.ended start (positive count) done]
              rfl
          | cons item more =>
              rw [List.length_cons] at smaller
              simp only [ih (count + 1) kept (by omega), same, Option.map_some]

end Hane.Foundations
