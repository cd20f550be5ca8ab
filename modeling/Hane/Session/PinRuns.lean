import Hane.Session.PinTexts

/-! What the pin store keeps over any calls: valid and distinct pins, a file that reads back, and
the lists that the updates give in memory.
-/

namespace Hane.Session

open Hane.Foundations

variable {α : Type} [DecidableEq α] {os : OsRules α}

-- Lists of work folders

/-- No work folder stands twice. -/
def OnceEach (roots : PinRoots α) : Prop := (roots.map Prod.fst).Nodup

theorem listOf_cons (root : List α × List (PinnedEntry α)) (roots : PinRoots α) (key : List α)
    : listOf (root :: roots) key = if root.1 = key then root.2 else listOf roots key := by
  by_cases same : root.1 = key
  · simp [listOf, same]
  · simp [listOf, same]

theorem setList_cons (root : List α × List (PinnedEntry α)) (roots : PinRoots α) (key : List α)
    (entries : List (PinnedEntry α))
    : setList (root :: roots) key entries
        = if root.1 = key then (root.1, entries) :: roots
          else root :: setList roots key entries := by
  by_cases same : root.1 = key
  · simp [setList, same, List.findIdx?_cons]
  · simp only [setList, List.findIdx?_cons, same, decide_false, Bool.false_eq_true, if_false]
    cases roots.findIdx? fun root => decide (root.1 = key) <;> simp

/-- A work folder that is not there has no list, by induction over the work folders. -/
theorem listOf_absent {roots : PinRoots α} {key : List α} (absent : key ∉ roots.map Prod.fst)
    : listOf roots key = [] := by
  induction roots with
  | nil => rfl
  | cons root rest ih =>
      simp only [List.map_cons, List.mem_cons, not_or] at absent
      rw [listOf_cons, if_neg (Ne.symm absent.1), ih absent.2]

/-- A new list is found under its key and nowhere else, by induction over the work folders. -/
theorem listOf_setList (roots : PinRoots α) (key : List α) (entries : List (PinnedEntry α))
    : listOf (setList roots key entries) = Function.update (listOf roots) key entries := by
  funext other
  induction roots with
  | nil =>
      by_cases same : other = key
      · simp [setList, listOf, same]
      · simp [setList, listOf, same, Ne.symm same]
  | cons root rest ih =>
      rw [setList_cons]
      by_cases same : other = key
      · subst other
        rw [Function.update_self] at ih ⊢
        split
        next here => rw [listOf_cons, if_pos here]
        next other => rw [listOf_cons, if_neg other, ih]
      · rw [Function.update_of_ne same] at ih ⊢
        split
        next here => rw [listOf_cons, listOf_cons, if_neg (by rw [here]; exact Ne.symm same),
          if_neg (by rw [here]; exact Ne.symm same)]
        next => rw [listOf_cons, listOf_cons, ih]

/-- The keys after a new list, by induction over the work folders. -/
theorem keys_setList (roots : PinRoots α) (key : List α) (entries : List (PinnedEntry α))
    : (setList roots key entries).map Prod.fst
        = if key ∈ roots.map Prod.fst then roots.map Prod.fst
          else roots.map Prod.fst ++ [key] := by
  induction roots with
  | nil => simp [setList]
  | cons root rest ih =>
      rw [setList_cons]
      by_cases same : root.1 = key
      · simp [same]
      · rw [if_neg same, List.map_cons, ih]
        by_cases member : key ∈ rest.map Prod.fst
        · simp only [List.map_cons, List.mem_cons, member, or_true, if_true]
        · simp only [List.map_cons, List.mem_cons, member, or_false,
            Ne.symm same, if_false, List.cons_append]

theorem OnceEach.setList {roots : PinRoots α} (once : OnceEach roots) (key : List α)
    (entries : List (PinnedEntry α))
    : OnceEach (setList roots key entries) := by
  rw [OnceEach, keys_setList]
  split
  next => exact once
  next fresh =>
    rw [List.nodup_append]
    refine ⟨once, by simp, fun other old new member => ?_⟩
    rw [List.mem_singleton.mp member]
    rintro rfl
    exact fresh old

/-- The members after a new list, by induction over the work folders. -/
theorem mem_setList {roots : PinRoots α} {key : List α} {entries : List (PinnedEntry α)}
    {root : List α × List (PinnedEntry α)} (member : root ∈ setList roots key entries)
    : root ∈ roots ∨ root.2 = entries := by
  induction roots with
  | nil =>
      rw [List.mem_singleton.mp member]
      exact .inr rfl
  | cons head rest ih =>
      rw [setList_cons] at member
      split at member
      next =>
        rcases List.mem_cons.mp member with rfl | old
        · exact .inr rfl
        · exact .inl (List.mem_cons_of_mem head old)
      next =>
        rcases List.mem_cons.mp member with rfl | later
        · exact .inl List.mem_cons_self
        · exact (ih later).imp_left (List.mem_cons_of_mem head)

/-- A list of work folders without the empty lists. -/
def dropEmpty (roots : PinRoots α) : PinRoots α := roots.filter fun root => !root.2.isEmpty

/-- Without the empty lists every work folder has the list it had, by induction over them. -/
theorem listOf_dropEmpty {roots : PinRoots α} (once : OnceEach roots) (key : List α)
    : listOf (dropEmpty roots) key = listOf roots key := by
  induction roots with
  | nil => rfl
  | cons root rest ih =>
      obtain ⟨fresh, others⟩ := List.nodup_cons.mp once
      rw [dropEmpty, List.filter_cons]
      split
      next => rw [listOf_cons, listOf_cons, ← dropEmpty, ih others]
      next empty =>
        rw [← dropEmpty, ih others, listOf_cons]
        split
        next here =>
          rw [← here, listOf_absent fresh]
          simpa using Eq.symm (by simpa using empty : root.2 = [])
        next => rfl

omit [DecidableEq α] in
theorem OnceEach.dropEmpty {roots : PinRoots α} (once : OnceEach roots)
    : OnceEach (dropEmpty roots) :=
  once.sublist (List.filter_sublist.map Prod.fst)

-- Calls on lists in memory

/-- The list of every work folder. -/
abbrev PinLists (α : Type) := List α → List (PinnedEntry α)

/-- A call on lists in memory: the updates are applied whole, or not at all. -/
def rememberCall (os : OsRules α) (lists : PinLists α) (call : PinCall α)
    : Except (PinError α) (List (PinnedEntry α)) × PinLists α :=
  match call.readFault with
  | some reason => (.error (.unreadable reason), lists)
  | none =>
    match applyAll os (lists call.key) call.updates with
    | .error error => (.error error, lists)
    | .ok (false, _) => (.ok (lists call.key), lists)
    | .ok (true, entries) =>
      match call.writeFault with
      | some fault => (.error (.write fault.reason), lists)
      | none => (.ok entries, Function.update lists call.key entries)

def rememberCalls (os : OsRules α) (lists : PinLists α)
    : List (PinCall α) → List (Except (PinError α) (List (PinnedEntry α))) × PinLists α
  | [] => ([], lists)
  | call :: rest =>
    let step := rememberCall os lists call
    let later := rememberCalls os step.2 rest
    (step.1 :: later.1, later.2)

/-- The answers of calls one after the other, and the store behind them. -/
def PinStore.runs (os : OsRules α) (describe : Utf8Error) (store : PinStore)
    : List (PinCall α) → List (Except (PinError α) (PinSnapshot α)) × PinStore
  | [] => ([], store)
  | call :: rest =>
    let step := store.update os describe call
    let later := step.2.runs os describe rest
    (step.1 :: later.1, later.2)

/-- Every folder rename of a run leaves no drive at the start of a pin. -/
def PinStore.RunsStayRelative (os : OsRules α) (describe : Utf8Error) (store : PinStore)
    : List (PinCall α) → Prop
  | [] => True
  | call :: rest =>
    (∀ roots, readAll os describe store.file call.readFault = .ok roots
      → StayRelative os (listOf roots call.key) call.updates)
    ∧ (store.update os describe call).2.RunsStayRelative os describe rest

-- One call

variable {describe : Utf8Error} {store : PinStore}

theorem PinStore.update_rejected {call : PinCall α} {error : PinError α}
    (rejected : readAll os describe store.file none = .error error)
    : (store.update os describe call).2 = store
      ∧ ∃ answer, (store.update os describe call).1 = .error answer := by
  cases fault : call.readFault with
  | some reason => simp [PinStore.update, readAll, fault]
  | none => simp [PinStore.update, fault, rejected]

theorem PinStore.store_failed {call : PinCall α} {fault : WriteFault} (keeps : call.KeepsFile)
    (faulty : call.writeFault = some fault) (roots : PinRoots α) (entries : List (PinnedEntry α))
    : store.store os call roots entries = (.error (.write fault.reason), store) := by
  simp only [PinStore.store, faulty, keeps fault faulty, Option.getD_none]

theorem PinStore.update_failed {call : PinCall α} {error : PinError α} (keeps : call.KeepsFile)
    (fails : (store.update os describe call).1 = .error error)
    : (store.update os describe call).2 = store := by
  rw [PinStore.update] at fails ⊢
  split
  next => rfl
  next roots reads =>
    simp only [reads] at fails
    split
    next => rfl
    next entries applies =>
      simp only [applies] at fails
      cases fault : call.writeFault with
      | some fault' => exact congrArg Prod.snd (PinStore.store_failed keeps fault roots entries)
      | none => simp [PinStore.store, fault] at fails
    next entries applies => simp [applies] at fails

/-- The file of a store reads as these work folders. -/
structure PinStore.Holds (os : OsRules α) (describe : Utf8Error) (store : PinStore)
    (roots : PinRoots α) : Prop where
  reads : readAll os describe store.file none = .ok roots

theorem PinStore.Holds.good {roots : PinRoots α} (holds : store.Holds os describe roots)
    : GoodRoots os roots :=
  goodRoots_readAll holds.reads

@[simp] def answered
    : Except (PinError α) (PinSnapshot α) → Except (PinError α) (List (PinnedEntry α))
  | .error error => .error error
  | .ok snapshot => .ok snapshot.entries

/-- What a call has to do to a store that reads as some work folders: its file reads again, and
with each work folder once the call is one on lists in memory.
-/
def PinStore.CallHolds (os : OsRules α) (describe : Utf8Error) (store : PinStore)
    (roots : PinRoots α) (call : PinCall α) : Prop :=
  ∃ after, (store.update os describe call).2.Holds os describe after
    ∧ (OnceEach roots
      → OnceEach after
        ∧ rememberCall os (listOf roots) call
            = (answered (store.update os describe call).1, listOf after))

theorem PinStore.Holds.kept {roots : PinRoots α} {call : PinCall α}
    (holds : store.Holds os describe roots)
    (same : (store.update os describe call).2.file = store.file)
    (agrees
      : rememberCall os (listOf roots) call
          = (answered (store.update os describe call).1, listOf roots))
    : store.CallHolds os describe roots call :=
  ⟨roots, ⟨by rw [same, holds.reads]⟩, fun once => ⟨once, agrees⟩⟩

theorem PinStore.Holds.wrote {roots : PinRoots α} {call : PinCall α}
    {entries : List (PinnedEntry α)} (holds : store.Holds os describe roots)
    (good : GoodPins os entries) (read : call.readFault = none) (write : call.writeFault = none)
    (applies : applyAll os (listOf roots call.key) call.updates = .ok (true, entries))
    : store.CallHolds os describe roots call := by
  have kept : GoodRoots os (dropEmpty (setList roots call.key entries)) := by
    intro root member
    rcases mem_setList (List.mem_of_mem_filter member) with old | new
    · exact holds.good root old
    · rw [new]
      exact good
  refine ⟨_, ⟨?_⟩, fun once => ⟨(once.setList call.key entries).dropEmpty, ?_⟩⟩
  · simp only [PinStore.update, read, holds.reads, applies, PinStore.store, write]
    exact readAll_renderedBytes kept
  · have lists : listOf (dropEmpty (setList roots call.key entries))
        = Function.update (listOf roots) call.key entries := by
      funext key
      rw [listOf_dropEmpty (once.setList call.key entries), listOf_setList]
    simp only [rememberCall, PinStore.update, read, holds.reads, applies, PinStore.store, write,
      answered, lists]

/-- The list of a work folder is good, by induction over the work folders. -/
theorem GoodRoots.listOf {roots : PinRoots α} (good : GoodRoots os roots) (key : List α)
    : GoodPins os (listOf roots key) := by
  induction roots with
  | nil => exact .nil
  | cons root rest ih =>
      obtain ⟨first, others⟩ := List.forall_mem_cons.mp good
      rw [listOf_cons]
      split
      next => exact first
      next => exact ih others

/-- One call, by what fails or changes in it. -/
theorem PinStore.Holds.update {roots : PinRoots α} {call : PinCall α}
    (holds : store.Holds os describe roots) (keeps : call.KeepsFile)
    (stay
      : ∀ roots, readAll os describe store.file call.readFault = .ok roots
        → StayRelative os (listOf roots call.key) call.updates)
    : store.CallHolds os describe roots call := by
  cases read : call.readFault with
  | some reason =>
      apply holds.kept <;> simp [PinStore.update, readAll, read, rememberCall]
  | none =>
      rw [read] at stay
      cases applies : applyAll os (listOf roots call.key) call.updates with
      | error error =>
          apply holds.kept <;> simp [PinStore.update, read, holds.reads, applies, rememberCall]
      | ok result =>
          obtain ⟨changed, entries⟩ := result
          cases changed with
          | false =>
              obtain ⟨-, same⟩ := applyFrom_unchanged applies
              apply holds.kept <;>
                simp [PinStore.update, read, holds.reads, applies, rememberCall, same]
          | true =>
              cases write : call.writeFault with
              | some fault =>
                  have failed : store.store os call roots entries = _ :=
                    PinStore.store_failed keeps write roots entries
                  apply holds.kept <;>
                    simp [PinStore.update, failed, read, holds.reads, applies, write,
                      rememberCall]
              | none =>
                  have good := (holds.good.listOf call.key).applyFrom
                    (stay roots holds.reads) applies
                  exact holds.wrote good read write applies

-- Any calls

/-- A file that is not read stays over any calls, and each of them fails, by induction over them.
-/
theorem PinStore.runs_rejected {error : PinError α} (calls : List (PinCall α))
    (rejected : readAll os describe store.file none = .error error)
    : (store.runs os describe calls).2 = store
      ∧ ∀ answer ∈ (store.runs os describe calls).1, ∃ reason, answer = .error reason := by
  induction calls with
  | nil => exact ⟨rfl, fun answer member => absurd member List.not_mem_nil⟩
  | cons call rest ih =>
      have first : (store.update os describe call).2 = store ∧ _ :=
        PinStore.update_rejected rejected
      obtain ⟨same, failed⟩ := first
      rw [PinStore.runs, same]
      exact ⟨ih.1, List.forall_mem_cons.mpr ⟨failed, ih.2⟩⟩

/-- A file that is read is read after any calls, with the lists they give in memory, by induction
over them.
-/
theorem PinStore.Holds.runs {roots : PinRoots α} {calls : List (PinCall α)}
    (holds : store.Holds os describe roots) (keep : ∀ call ∈ calls, call.KeepsFile)
    (stay : store.RunsStayRelative os describe calls)
    : ∃ stored, (store.runs os describe calls).2.Holds os describe stored
        ∧ (OnceEach roots
          → OnceEach stored
            ∧ rememberCalls os (listOf roots) calls
                = ((store.runs os describe calls).1.map answered, listOf stored)) := by
  induction calls generalizing store roots with
  | nil => exact ⟨roots, holds, fun once => ⟨once, rfl⟩⟩
  | cons call rest ih =>
      obtain ⟨keeps, others⟩ := List.forall_mem_cons.mp keep
      obtain ⟨after, holdsAfter, agrees⟩ := holds.update keeps stay.1
      obtain ⟨stored, holdsStored, later⟩ := ih holdsAfter others stay.2
      refine ⟨stored, holdsStored, fun once => ?_⟩
      obtain ⟨onceAfter, step⟩ := agrees once
      obtain ⟨onceStored, others⟩ := later onceAfter
      refine ⟨onceStored, ?_⟩
      rw [rememberCalls, step, PinStore.runs]
      simp only [others, List.map_cons]

/-- Over any calls from any file, whose folder renames leave no drive at the start of a pin and
whose failed writes leave the file:
* a file that is not read is never replaced, and every call fails;
* a file that is read stays one: every list holds valid paths, no two the same, and what is
  written of the lists reads back;
* with each work folder once, the lists and the answers are those of the updates in memory;
* a call that fails changes nothing.
-/
theorem pins_stored (os : OsRules α) (describe : Utf8Error) (store : PinStore)
    (calls : List (PinCall α)) (keep : ∀ call ∈ calls, call.KeepsFile)
    (stay : store.RunsStayRelative os describe calls)
    : (∀ error, readAll os describe store.file none = .error error
        → (store.runs os describe calls).2 = store
          ∧ ∀ answer ∈ (store.runs os describe calls).1, ∃ reason, answer = .error reason)
      ∧ (∀ roots, readAll os describe store.file none = .ok roots
        → ∃ stored, readAll os describe (store.runs os describe calls).2.file none = .ok stored
            ∧ (∀ root ∈ stored, GoodPins os root.2)
            ∧ parsePins os (renderPins os stored) = .ok stored
            ∧ ((roots.map Prod.fst).Nodup
              → (stored.map Prod.fst).Nodup
                ∧ rememberCalls os (listOf roots) calls
                    = ((store.runs os describe calls).1.map answered, listOf stored)))
      ∧ ∀ (reached : PinStore) (call : PinCall α) (error : PinError α),
          call.KeepsFile
          → (reached.update os describe call).1 = .error error
          → (reached.update os describe call).2 = reached := by
  refine ⟨fun error => PinStore.runs_rejected calls, fun roots reads => ?_,
    fun reached call error => PinStore.update_failed⟩
  have holds : store.Holds os describe roots := ⟨reads⟩
  obtain ⟨stored, holdsStored, agrees⟩ := holds.runs keep stay
  exact ⟨stored, holdsStored.reads, holdsStored.good, parsePins_renderPins holdsStored.good,
    agrees⟩

/-- Without drives every update leaves none, by induction over the updates. -/
theorem unix_stayRelative (entries : List (PinnedEntry UInt8)) (updates : List (PinUpdate UInt8))
    : StayRelative unixRules entries updates := by
  induction updates generalizing entries with
  | nil => trivial
  | cons update rest ih =>
      refine ⟨?_, fun _ working _ => ih working⟩
      cases update with
      | renameFolder source target => exact fun _ _ _ _ _ => rfl
      | pin entry => trivial
      | unpin path => trivial
      | renameFile source target => trivial
      | remove path folder => trivial

/-- Without drives every run leaves none, by induction over the calls. -/
theorem unix_runsStayRelative (describe : Utf8Error) (store : PinStore)
    (calls : List (PinCall UInt8))
    : store.RunsStayRelative unixRules describe calls := by
  induction calls generalizing store with
  | nil => trivial
  | cons call rest ih => exact ⟨fun roots _ => unix_stayRelative _ _, ih _⟩

/-- The units of an ASCII text on Windows. -/
def wide (text : String) : List UInt16 := text.toList.map fun c => UInt16.ofNat c.toNat

def noFile : PinStore := ⟨none, 0⟩

/-- A call whose reading and writing go well. -/
def callOf (key : List α) (updates : List (PinUpdate α)) : PinCall α := ⟨key, updates, none, none⟩

/-- A call whose write fails before the file is moved. -/
def failingCall : PinCall UInt8 :=
  { callOf [0x2F] [.unpin [0x61, 0x2F, 0x78]] with writeFault := some ⟨"disk full", none⟩ }

def sampleCalls : List (PinCall UInt8) :=
  [callOf [0x2F] [.pin ⟨[0x61, 0x2F, 0x78], .file⟩], failingCall,
    callOf [0x2F] [.renameFolder [0x61] [0x62]]]

/-- `a/x` is pinned, is not unpinned as the write fails, and `a` is renamed to `b`. -/
theorem pins_stored_unix
    : ∃ stored, readAll unixRules (fun _ => "")
            (noFile.runs unixRules (fun _ => "") sampleCalls).2.file none = .ok stored
        ∧ listOf stored [0x2F] = [⟨[0x62, 0x2F, 0x78], .file⟩] := by
  obtain ⟨stored, reads, -, -, agrees⟩ :=
    (pins_stored unixRules (fun _ => "") noFile sampleCalls
      (by simp [sampleCalls, failingCall, callOf, PinCall.KeepsFile])
      (unix_runsStayRelative (fun _ => "") noFile sampleCalls)).2.1 [] rfl
  refine ⟨stored, reads, ?_⟩
  have lists : (rememberCalls unixRules (listOf []) sampleCalls).2 [0x2F] = listOf stored [0x2F] :=
    congrArg (fun result => result.2 [0x2F]) (agrees .nil).2
  rw [← lists]
  decide +kernel

def driveCalls : List (PinCall UInt16) :=
  [callOf (wide "D:\\notes") [.pin ⟨wide "a\\C:x", .file⟩],
    callOf (wide "D:\\notes") [.renameFolder (wide "a") (wide "b")]]

/-- A name that begins like a drive, behind a renamed folder, takes the place of the whole path.
The file written then is rejected, with all its pins.
-/
theorem pins_not_stored
    : ¬∀ (describe : Utf8Error) (calls : List (PinCall UInt16)),
        ∃ stored, readAll windowsRules describe
            (noFile.runs windowsRules describe calls).2.file none = .ok stored := by
  intro holds
  obtain ⟨stored, reads⟩ := holds (fun _ => "") driveCalls
  have rejected : (readAll windowsRules (fun _ => "")
      (noFile.runs windowsRules (fun _ => "") driveCalls).2.file none).isOk = false := by
    decide +kernel
  rw [reads] at rejected
  cases rejected

end Hane.Session
