import Hane.Update.Handoff

/-! What the outside does for a handoff: one record file and a store of secrets, whose every call may
fail, with or without its effect.
-/

namespace Hane.Update.StateRoot

open Hane.Foundations

/-- The record file, the secrets by their references, and whether the last removal of the record
failed.
-/
structure HandoffWorld where
  record : Option (List UInt8)
  secrets : String → Option String
  stuck : Bool

namespace HandoffWorld

variable (world : HandoffWorld)

def holding (reference : String) (secret : Option String) : HandoffWorld :=
  { world with secrets := Function.update world.secrets reference secret }

def recording (bytes : List UInt8) : HandoffWorld := { world with record := some bytes }

def removed : HandoffWorld := { world with record := none, stuck := false }

variable {world}

theorem holding_self {reference : String} {secret : Option String}
    : (world.holding reference secret).secrets reference = secret :=
  Function.update_self ..

theorem holding_other {reference other : String} {secret : Option String}
    (differ : other ≠ reference)
    : (world.holding reference secret).secrets other = world.secrets other :=
  Function.update_of_ne differ ..

end HandoffWorld

/-- What one call does. -/
def HandoffEffect (world : HandoffWorld)
    : (call : HandoffCall) → call.Answer → HandoffWorld → Prop
  | .put reference secret, answer, after =>
      after = world.holding reference (some secret) ∨ (answer ≠ .ok () ∧ after = world)
  | .take reference, answer, after =>
      match answer with
      | .ok (some secret) =>
          world.secrets reference = some secret ∧ after = world.holding reference none
      | .ok none => world.secrets reference = none ∧ after = world
      | .error _ => after = world ∨ after = world.holding reference none
  | .delete reference, answer, after =>
      after = world.holding reference none ∨ (answer ≠ .ok () ∧ after = world)
  | .removeFile, answer, after =>
      match answer with
      | .ok () => after = world.removed
      | .error err =>
          if IsNotFound err then world.record = none ∧ after = world.removed
          else after = { world with stuck := true }
  | .durableWrite bytes, answer, after =>
      after = world.recording bytes ∨ (answer ≠ .ok () ∧ after = world)
  | .symlinkMetadata, answer, after | .openFile, answer, after =>
      (∀ err, answer = .error err → IsNotFound err → world.record = none)
        ∧ (answer = .ok () → world.record ≠ none) ∧ after = world
  | .readToEnd limit, answer, after =>
      (∀ data, answer = .ok data → ∃ bytes, world.record = some bytes ∧ data = bytes.take limit)
        ∧ after = world
  | .secureNew, _, after | .verify, _, after => after = world

/-- A crash inside a call that changes something may leave the change behind. -/
def HandoffTears (world : HandoffWorld) : HandoffCall → HandoffWorld → Prop
  | .put reference secret, after => after = world.holding reference (some secret)
  | .take reference, after | .delete reference, after => after = world.holding reference none
  | .removeFile, after => after = world.removed
  | .durableWrite bytes, after => after = world.recording bytes
  | _, _ => False

def handoffOutside : Outside HandoffWorld HandoffCall.Answer where
  answers := HandoffEffect
  tears := HandoffTears

def absent : IoError := ⟨.other "NotFound", "No such file or directory (os error 2)", some 2⟩

/-- The outside when nothing fails. -/
def working (world : HandoffWorld) : (call : HandoffCall) → call.Answer × HandoffWorld
  | .put reference secret => (.ok (), world.holding reference (some secret))
  | .take reference =>
    match world.secrets reference with
    | some secret => (.ok (some secret), world.holding reference none)
    | none => (.ok none, world)
  | .delete reference => (.ok (), world.holding reference none)
  | .removeFile =>
    match world.record with
    | some _ => (.ok (), world.removed)
    | none => (.error absent, world.removed)
  | .durableWrite bytes => (.ok (), world.recording bytes)
  | .symlinkMetadata | .openFile =>
    match world.record with
    | some _ => (.ok (), world)
    | none => (.error absent, world)
  | .readToEnd limit =>
    match world.record with
    | some bytes => (.ok (bytes.take limit), world)
    | none => (.error absent, world)
  | .secureNew | .verify => (.ok (), world)

theorem working_allowed (world : HandoffWorld) (call : HandoffCall)
    : handoffOutside.answers world call (working world call).1 (working world call).2 := by
  have missing : IsNotFound absent := rfl
  cases call with
  | put reference secret => exact .inl rfl
  | take reference =>
      cases held : world.secrets reference with
      | some secret => simp [handoffOutside, HandoffEffect, working, held]
      | none => simp [handoffOutside, HandoffEffect, working, held]
  | delete reference => exact .inl rfl
  | durableWrite bytes => exact .inl rfl
  | secureNew | verify => rfl
  | readToEnd limit =>
      refine ⟨fun data same => ?_, ?_⟩
      · cases recorded : world.record with
        | some bytes =>
            simp only [working, recorded] at same
            cases same
            exact ⟨bytes, rfl, rfl⟩
        | none => simp [working, recorded] at same
      · cases recorded : world.record with
        | some bytes => simp only [working, recorded]
        | none => simp only [working, recorded]
  | removeFile | symlinkMetadata | openFile =>
      cases recorded : world.record with
      | some bytes => simp [handoffOutside, HandoffEffect, working, recorded]
      | none => simp [handoffOutside, HandoffEffect, working, recorded, missing]

end Hane.Update.StateRoot
