import Hane.Foundations.Pools
import Hane.Foundations.Stateful
import Hane.Update.Catalog
import Mathlib.Data.List.Nodup

/-! The shared sequence floor: any number of record_seen calls over one store, interleaved
between any two of their store calls. The store is represented by everything it ever held.
-/

namespace Hane.Update

open Hane.Foundations

-- The recording program

/-- The calls of a sequence store. Dropping the guard of a held lock is `unlock`. -/
inductive SeenCall where
  | lock
  | load
  | store (seen : SeenCatalog)
  | unlock

def SeenCall.Result : SeenCall → Type
  | load => Option SeenCatalog
  | _ => Unit

abbrev SeenProgram := Program fun call : SeenCall => Except UpdateError call.Result

def unwritable (err : UpdateError) : UpdateError :=
  ⟨.receiptUnwritable, "cannot persist the catalog sequence: " ++ err.display⟩

/-- What the loaded floor says about a candidate: refused, already recorded (`true`), or to
be stored.
-/
def compareFloor (existing : Option SeenCatalog) (candidate : VerifiedCandidate)
    : Except UpdateError Bool := do
  match existing with
  | none => return false
  | some existing =>
    existing.validate
    if existing.sequence > candidate.sequence then
      throw ⟨.sequenceRegression, "stored catalog sequence is newer"⟩
    if existing.sequence = candidate.sequence
        ∧ existing.catalogSha256 ≠ candidate.catalogSha256 then
      throw ⟨.sequenceConflict, "same catalog sequence with different bytes"⟩
    return decide (existing.sequence = candidate.sequence)

/-- What follows the comparison: the new floor is stored unless it is recorded already. -/
def storeFloor (candidate : VerifiedCandidate) (verdict : Except UpdateError Bool)
    : ExceptT UpdateError SeenProgram Unit := do
  let recorded ← Program.settled verdict
  if recorded then
    return ()
  else
    let floor := SeenCatalog.new candidate.sequence candidate.catalogSha256
    (Program.attempt (SeenCall.store floor)).adapt unwritable

def recordLocked (candidate : VerifiedCandidate) : ExceptT UpdateError SeenProgram Unit := do
  let existing : Option SeenCatalog ← (Program.attempt SeenCall.load).adapt unwritable
  storeFloor candidate (compareFloor existing candidate)

/-- Persists the sequence floor. The lock is held across load, compare and store. -/
def recordSeen (candidate : VerifiedCandidate) : SeenProgram (Except UpdateError Unit) := do
  match ← Program.request SeenCall.lock with
  | .error err => return .error (unwritable err)
  | .ok () =>
    let result ← recordLocked candidate
    let _ ← Program.request SeenCall.unlock
    return result

-- The shared store

/-- Every value the store ever held, newest first, and the thread that holds its lock. -/
structure SeenState where
  versions : List SeenCatalog
  holder : Option Nat
  deriving DecidableEq, Repr

namespace SeenState

def stored (state : SeenState) : Option SeenCatalog := state.versions.head?

/-- A store as it is found, with no lock held. -/
def opened (stored : Option SeenCatalog) : SeenState := ⟨stored.toList, none⟩

def push (state : SeenState) (seen : SeenCatalog) : SeenState :=
  { state with versions := seen :: state.versions }

def release (state : SeenState) (number : Nat) : SeenState :=
  if state.holder = some number then { state with holder := none } else state

end SeenState

/-- What a store call of one thread does. Every call may fail, a store also after it was
made durable; the lock is granted to one thread at a time.
-/
inductive SeenAnswers (number : Nat)
    : SeenState → (call : SeenCall) → Except UpdateError call.Result → SeenState → Prop where
  | locked {state : SeenState} (free : state.holder = none)
      : SeenAnswers number state .lock (.ok ()) { state with holder := some number }
  | loaded (state : SeenState) : SeenAnswers number state .load (.ok state.stored) state
  | stored (state : SeenState) (seen : SeenCatalog)
      : SeenAnswers number state (.store seen) (.ok ()) (state.push seen)
  | storedLate (state : SeenState) (seen : SeenCatalog) (err : UpdateError)
      : SeenAnswers number state (.store seen) (.error err) (state.push seen)
  | unlocked (state : SeenState) (outcome : Except UpdateError Unit)
      : SeenAnswers number state .unlock outcome (state.release number)
  | failed (state : SeenState) (call : SeenCall) (err : UpdateError) (held : call ≠ .unlock)
      : SeenAnswers number state call (.error err) state

/-- The store shared by the threads; a killed thread loses its lock. -/
def sharedStore : SharedOutside SeenState fun call : SeenCall => Except UpdateError call.Result where
  answers := SeenAnswers
  kills := fun number state final => final = state.release number

/-- One recording: the catalog bytes that were verified and the candidate they gave. -/
structure Recording where
  catalogBytes : List UInt8
  candidate : VerifiedCandidate

/-- A recording starts from a candidate that was verified against any value the store held at
some earlier time, or against none.
-/
def StartsRecording {Json : Type} (crates : Crates Json) (state : SeenState)
    (recording : Recording) (program : SeenProgram (Except UpdateError Unit)) : Prop :=
  (∃ signatureBytes ctx,
    (∀ seen, ctx.seen = some seen → seen ∈ state.versions)
    ∧ verifyCatalog crates recording.catalogBytes signatureBytes ctx = .ok recording.candidate)
  ∧ program = recordSeen recording.candidate

abbrev Recordings :=
  List (Thread Recording (fun call : SeenCall => Except UpdateError call.Result)
    (Except UpdateError Unit)) × SeenState

/-- One step of any number of processes over one sequence store. -/
abbrev RecordingStep {Json : Type} (crates : Crates Json) : Recordings → Recordings → Prop :=
  Pool.Step sharedStore (StartsRecording crates)

/-- A recording of the pool whose record_seen returned `Ok`. -/
def Accepted (pool : Recordings) (recording : Recording) : Prop :=
  ∃ number : Nat, pool.1[number]? = some ⟨recording, some (.done (.ok ()))⟩

-- What each recording relies on and guarantees

/-- The sequences of the versions rise strictly towards the newest. -/
def Rising (versions : List SeenCatalog) : Prop :=
  versions.Pairwise fun newer older => older.sequence < newer.sequence

/-- The versions only grow, and go on rising if they did. -/
structure Grows (state later : SeenState) : Prop where
  longer : ∃ newer, later.versions = newer ++ state.versions
  rising : Rising state.versions → Rising later.versions

/-- Others leave the store alone while its lock is held, and never take or give the lock in
a thread's name.
-/
structure Relies (number : Nat) (state later : SeenState) : Prop where
  grows : Grows state later
  held : state.holder = some number → later = state
  free : state.holder ≠ some number → later.holder ≠ some number

/-- A thread takes only a free lock and changes the store only under its own. -/
structure Guarantees (number : Nat) (state later : SeenState) : Prop where
  grows : Grows state later
  owned : later = state ∨ state.holder = none ∧ later.holder = some number
    ∨ state.holder = some number ∧ (later.holder = some number ∨ later.holder = none)

theorem Grows.refl (state : SeenState) : Grows state state := ⟨⟨[], rfl⟩, id⟩

theorem Grows.trans {state middle later : SeenState} (first : Grows state middle)
    (second : Grows middle later)
    : Grows state later := by
  obtain ⟨newer, grown⟩ := first.longer
  obtain ⟨newest, more⟩ := second.longer
  exact ⟨⟨newest ++ newer, by rw [more, grown, List.append_assoc]⟩, second.rising ∘ first.rising⟩

instance (number : Nat) : Std.Refl (Relies number) where
  refl state := ⟨.refl state, fun _ => rfl, id⟩

instance (number : Nat) : IsTrans SeenState (Relies number) where
  trans state middle later first second := by
    refine ⟨first.grows.trans second.grows, ?_, second.free ∘ first.free⟩
    intro held
    have same := first.held held
    subst same
    exact second.held held

/-- What one thread guarantees is what every other one relies on, by cases on who holds the
lock.
-/
theorem relies_of_guarantees (number other : Nat) (distinct : number ≠ other)
    (state later : SeenState) (guaranteed : Guarantees number state later)
    : Relies other state later := by
  refine ⟨guaranteed.grows, ?_, ?_⟩
  · intro held
    rcases guaranteed.owned with same | ⟨free, _⟩ | ⟨own, _⟩
    · exact same
    · simp [free] at held
    · exact absurd (Option.some.inj (own.symm.trans held)) distinct
  · intro away
    rcases guaranteed.owned with same | ⟨_, taken⟩ | ⟨_, taken | given⟩
    · exact same ▸ away
    · simpa [taken] using distinct
    · simpa [taken] using distinct
    · simp [given]

-- One recording alone

theorem compareFloor_ok {existing : Option SeenCatalog} {candidate : VerifiedCandidate}
    {recorded : Bool} (passed : compareFloor existing candidate = .ok recorded)
    : if recorded then
        ∃ seen, existing = some seen ∧ seen.sequence = candidate.sequence
          ∧ seen.catalogSha256 = candidate.catalogSha256
      else ∀ seen, existing = some seen → seen.sequence < candidate.sequence := by
  cases existing with
  | none =>
      cases passed
      simp
  | some existing =>
      simp only [compareFloor, except_bind_ok_iff, except_guard_ok_iff] at passed
      obtain ⟨_, _, newer, conflict, result⟩ := passed
      obtain rfl := Except.ok.inj result
      by_cases same : existing.sequence = candidate.sequence
      · have hash : existing.catalogSha256 = candidate.catalogSha256 := by
          by_contra differs
          exact conflict ⟨same, differs⟩
        simp [same, hash]
      · have below : existing.sequence < candidate.sequence := by omega
        simpa [same] using below

theorem verifyCatalog_sha {Json : Type} {crates : Crates Json}
    {catalogBytes signatureBytes : List UInt8} {ctx : VerifyContext}
    {candidate : VerifiedCandidate}
    (verified : verifyCatalog crates catalogBytes signatureBytes ctx = .ok candidate)
    : candidate.catalogSha256 = sha256Hex crates catalogBytes := by
  simp only [verifyCatalog, except_bind_ok_iff, except_guard_ok_iff] at verified
  obtain ⟨_, _, _, _, _, _, _, _, catalog, _, _, _, _, _, _, _, _, _, _, _, _, _, last⟩ :=
    verified
  split at last
  · obtain ⟨_, _, last⟩ := (except_bind_ok_iff _ _ _).mp last
    split at last
    · obtain ⟨_, _, last⟩ := (except_bind_ok_iff _ _ _).mp last
      rw [← Except.ok.inj last]
    · rw [← Except.ok.inj last]
  · cases last

/-- The result of a recording: an accepted candidate is one of the versions the store held. -/
def Recorded (recording : Recording) (outcome : Except UpdateError Unit) (state : SeenState)
    : Prop :=
  outcome = .ok ()
    → ∃ seen ∈ state.versions, seen.sequence = recording.candidate.sequence
      ∧ seen.catalogSha256 = recording.candidate.catalogSha256

theorem Guarantees.same (number : Nat) (state : SeenState) : Guarantees number state state :=
  ⟨.refl state, .inl rfl⟩

theorem Guarantees.release (number : Nat) (state : SeenState)
    : Guarantees number state (state.release number) := by
  unfold SeenState.release
  split
  · rename_i held
    exact ⟨⟨⟨[], rfl⟩, id⟩, .inr (.inr ⟨held, .inr rfl⟩)⟩
  · exact .same number state

theorem Guarantees.push {number : Nat} {state : SeenState} {seen : SeenCatalog}
    (held : state.holder = some number)
    (below : ∀ older, state.stored = some older → older.sequence < seen.sequence)
    : Guarantees number state (state.push seen) := by
  refine ⟨⟨⟨[seen], rfl⟩, ?_⟩, .inr (.inr ⟨held, .inl held⟩)⟩
  intro rising
  refine List.pairwise_cons.mpr ⟨?_, rising⟩
  intro older member
  rcases held' : state.versions with _ | ⟨newest, rest⟩
  · simp [held'] at member
  · have first := below newest (by simp [SeenState.stored, held'])
    rw [held'] at member rising
    rcases List.mem_cons.mp member with rfl | deeper
    · exact first
    · exact Nat.lt_trans ((List.pairwise_cons.mp rising).1 older deeper) first

theorem Recorded.later {recording : Recording} {outcome : Except UpdateError Unit}
    {state later : SeenState} (recorded : Recorded recording outcome state)
    (kept : ∃ newer, later.versions = newer ++ state.versions)
    : Recorded recording outcome later := by
  intro fine
  obtain ⟨seen, member, same⟩ := recorded fine
  obtain ⟨newer, grown⟩ := kept
  exact ⟨seen, grown ▸ List.mem_append_right newer member, same⟩

/-- Returning under the lock drops it and keeps a result that the versions already bear out. -/
theorem release_complies {number : Nat} {state : SeenState} {recording : Recording}
    (outcome : Except UpdateError Unit) (recorded : Recorded recording outcome state)
    : Pool.Complies sharedStore number (Relies number) (Guarantees number) (Recorded recording)
        (.call .unlock fun _ => .done outcome) state := by
  intro later relied
  refine ⟨?_, ?_⟩
  · rintro final rfl
    exact .release number later
  · intro answer final answers
    have released : final = later.release number := by
      cases answers with
      | unlocked => rfl
      | failed _ _ held => exact absurd rfl held
    subst released
    refine ⟨.release number later, ?_⟩
    intro last onward
    have freed := (Guarantees.release number later).grows
    exact recorded.later ((relied.grows.trans freed).trans onward.grows).longer

/-- After the comparison the floor is stored only over a lower one, by cases on the verdict
and on what the store answers.
-/
theorem storeFloor_complies {number : Nat} {state : SeenState} {recording : Recording}
    (held : state.holder = some number)
    : Pool.Complies sharedStore number (Relies number) (Guarantees number) (Recorded recording)
        (do
          let result ← storeFloor recording.candidate
            (compareFloor state.stored recording.candidate)
          let _ ← Program.request SeenCall.unlock
          return result)
        state := by
  rcases verdict : compareFloor state.stored recording.candidate with err | recorded
  · exact release_complies (.error err) fun fine => nomatch fine
  cases recorded with
  | true =>
      obtain ⟨seen, stored, same⟩ := compareFloor_ok verdict
      exact release_complies (.ok ()) fun _ => ⟨seen, List.mem_of_head? stored, same⟩
  | false =>
      have below : ∀ older, state.stored = some older
          → older.sequence < recording.candidate.sequence := by
        simpa using compareFloor_ok verdict
      intro later relied
      obtain rfl := relied.held held
      refine ⟨?_, ?_⟩
      · rintro final rfl
        exact .release number later
      · intro answer final answers
        have pushed : Guarantees number later (later.push
            (.new recording.candidate.sequence recording.candidate.catalogSha256)) :=
          .push held below
        cases answers with
        | stored _ =>
            refine ⟨pushed, release_complies (.ok ()) fun _ => ?_⟩
            exact ⟨_, List.mem_cons_self, rfl, rfl⟩
        | storedLate _ err =>
            exact ⟨pushed, release_complies (.error _) fun fine => nomatch fine⟩
        | failed _ _ =>
            exact ⟨.same number later, release_complies (.error _) fun fine => nomatch fine⟩

/-- Under the lock the loaded floor is still the stored one when it is compared. -/
theorem recordLocked_complies {number : Nat} {state : SeenState} {recording : Recording}
    (held : state.holder = some number)
    : Pool.Complies sharedStore number (Relies number) (Guarantees number) (Recorded recording)
        (do
          let result ← recordLocked recording.candidate
          let _ ← Program.request SeenCall.unlock
          return result)
        state := by
  intro later relied
  obtain rfl := relied.held held
  refine ⟨?_, ?_⟩
  · rintro final rfl
    exact .release number later
  · intro answer final answers
    cases answers with
    | loaded => exact ⟨.same number later, storeFloor_complies held⟩
    | failed _ =>
        exact ⟨.same number later, release_complies (.error _) fun fine => nomatch fine⟩

theorem recordSeen_complies (number : Nat) (state : SeenState) (recording : Recording)
    : Pool.Complies sharedStore number (Relies number) (Guarantees number)
        (Recorded recording) (recordSeen recording.candidate) state := by
  intro later relied
  refine ⟨?_, ?_⟩
  · rintro final rfl
    exact .release number later
  · intro answer final answers
    cases answers with
    | locked free =>
        refine ⟨⟨⟨⟨[], rfl⟩, id⟩, .inr (.inl ⟨free, rfl⟩)⟩, ?_⟩
        exact recordLocked_complies rfl
    | failed _ =>
        refine ⟨.same number later, ?_⟩
        intro last _ fine
        cases fine

-- Every interleaving

/-- Guaranteed steps of any threads make the store grow, by induction over them. -/
theorem grows_of_guaranteed {state later : SeenState}
    (moved : Relation.ReflTransGen (fun state after => ∃ number, Guarantees number state after)
      state later)
    : Grows state later := by
  induction moved with
  | refl => exact .refl state
  | tail _ step ih =>
      obtain ⟨number, guaranteed⟩ := step
      exact ih.trans guaranteed.grows

theorem Rising.unique {versions : List SeenCatalog} (rising : Rising versions)
    {first second : SeenCatalog} (left : first ∈ versions) (right : second ∈ versions)
    (same : first.sequence = second.sequence)
    : first = second := by
  have distinct : (versions.map SeenCatalog.sequence).Nodup :=
    List.pairwise_map.mpr (List.Pairwise.imp Nat.ne_of_gt rising)
  exact List.inj_on_of_nodup_map distinct left right same

theorem Rising.le_stored {state : SeenState} (rising : Rising state.versions)
    {seen floor : SeenCatalog} (member : seen ∈ state.versions)
    (stored : state.stored = some floor)
    : seen.sequence ≤ floor.sequence := by
  obtain ⟨older, versions⟩ := List.head?_eq_some_iff.mp stored
  rw [versions] at rising member
  rcases List.mem_cons.mp member with rfl | deeper
  · exact Nat.le_refl _
  · exact Nat.le_of_lt ((List.pairwise_cons.mp rising).1 seen deeper)

theorem Grows.stored {state later : SeenState} (grows : Grows state later)
    {seen : SeenCatalog} (stored : state.stored = some seen)
    : ∃ floor, later.stored = some floor ∧ seen ∈ later.versions := by
  obtain ⟨newer, grown⟩ := grows.longer
  have member : seen ∈ later.versions :=
    grown ▸ List.mem_append_right newer (List.mem_of_head? stored)
  rcases versions : later.versions with _ | ⟨floor, rest⟩
  · simp [versions] at member
  · exact ⟨floor, by simp [SeenState.stored, versions], versions ▸ member⟩

theorem recordings_comply {Json : Type} {crates : Crates Json} {pool after : Recordings}
    (complying : Pool.AllComply sharedStore Relies Guarantees
      (fun recording outcome state =>
        recording.candidate.catalogSha256 = sha256Hex crates recording.catalogBytes
        ∧ Recorded recording outcome state) pool)
    (steps : Relation.ReflTransGen (RecordingStep crates) pool after)
    : Pool.AllComply sharedStore Relies Guarantees
        (fun recording outcome state =>
          recording.candidate.catalogSha256 = sha256Hex crates recording.catalogBytes
          ∧ Recorded recording outcome state) after
      ∧ Grows pool.2 after.2 := by
  refine (complying.run relies_of_guarantees ?_ steps).imp_right grows_of_guaranteed
  rintro number state recording program ⟨⟨signatureBytes, ctx, _, verified⟩, rfl⟩
  exact (recordSeen_complies number state recording).mono
    fun _ _ recorded => ⟨verifyCatalog_sha verified, recorded⟩

/-- In every interleaving of verifications and recordings over one store, kills and failing
store calls included: the stored sequence never decreases and its hash changes only with it,
every accepted candidate is at most the floor, and two accepted catalogs of one sequence have
the same bytes unless SHA-256 collides on them.
-/
theorem floor_of_recordings {Json : Type} (crates : Crates Json) (found : Option SeenCatalog)
    {pool after : Recordings}
    (reached : Relation.ReflTransGen (RecordingStep crates) ([], .opened found) pool)
    (onward : Relation.ReflTransGen (RecordingStep crates) pool after)
    (noCollision : ∀ first second, Accepted after first → Accepted after second
      → crates.digest first.catalogBytes = crates.digest second.catalogBytes
      → first.catalogBytes = second.catalogBytes)
    : (∀ seen, pool.2.stored = some seen → ∃ floor, after.2.stored = some floor
        ∧ seen.sequence ≤ floor.sequence
        ∧ (floor.sequence = seen.sequence → floor.catalogSha256 = seen.catalogSha256))
      ∧ (∀ recording, Accepted after recording → ∃ floor, after.2.stored = some floor
        ∧ recording.candidate.sequence ≤ floor.sequence)
      ∧ ∀ first second, Accepted after first → Accepted after second
        → first.candidate.sequence = second.candidate.sequence
        → first.catalogBytes = second.catalogBytes := by
  obtain ⟨complying, begun⟩ := recordings_comply (fun _ _ _ found => by simp at found) reached
  obtain ⟨all, grown⟩ := recordings_comply complying onward
  have rising : Rising after.2.versions := by
    refine (begun.trans grown).rising ?_
    cases found <;> simp [SeenState.opened, Rising]
  -- An accepted recording is one of the versions of the store.
  have recorded : ∀ recording, Accepted after recording
      → ∃ seen ∈ after.2.versions, seen.sequence = recording.candidate.sequence
        ∧ seen.catalogSha256 = sha256Hex crates recording.catalogBytes := by
    rintro recording ⟨number, accepted⟩
    obtain ⟨carries, held⟩ := all.finished accepted
    obtain ⟨seen, member, same, hash⟩ := held rfl
    exact ⟨seen, member, same, hash.trans carries⟩
  refine ⟨?_, ?_, ?_⟩
  · intro seen stored
    obtain ⟨floor, newest, member⟩ := grown.stored stored
    refine ⟨floor, newest, rising.le_stored member newest, ?_⟩
    intro same
    rw [rising.unique (List.mem_of_head? newest) member same]
  · intro recording accepted
    obtain ⟨seen, member, same, _⟩ := recorded recording accepted
    rcases newest : after.2.stored with _ | floor
    · have none : after.2.versions = [] := List.head?_eq_none_iff.mp newest
      simp [none] at member
    · exact ⟨floor, rfl, same ▸ rising.le_stored member newest⟩
  · intro first second left right same
    obtain ⟨seen, member, sequence, hash⟩ := recorded first left
    obtain ⟨other, member', sequence', hash'⟩ := recorded second right
    have equal : seen = other :=
      rising.unique member member' (sequence.trans (same.trans sequence'.symm))
    subst equal
    exact noCollision first second left right (hexEncode_injective (hash.symm.trans hash'))

-- Two recordings

/-- The sample catalog with the next sequence. -/
def laterCatalog : CatalogDocument := { sampleCatalog with catalogSequence := 11 }

def laterCatalogBytes : List UInt8 := sampleCatalogBytes.set 173 49

def laterSignatureText : String :=
  "MQ2eDHETNeBgGTObxTNTxNErhSctmYyV9xABvAs62f6h"
    ++ "uW/5UzEoeiWQDekBJ9hOkAU8bEeJoRnagvUYgavrDw=="

def laterSignatureBytes : List UInt8 :=
  asBytes ("\x7b\"schema\":1,\"signatures\":[\x7b\"key_id\":\"hane-2026\",\"signature_base64\":\""
    ++ laterSignatureText ++ "\"\x7d]\x7d")

def laterSignature : List UInt8 :=
  [49, 13, 158, 12, 113, 19, 53, 224, 96, 25, 51, 155, 197, 51, 83, 196, 209, 43, 133, 39,
    45, 153, 140, 149, 247, 16, 1, 188, 11, 58, 217, 254, 161, 185, 111, 249, 83, 49, 40, 122,
    37, 144, 13, 233, 1, 39, 216, 78, 144, 5, 60, 108, 71, 137, 161, 25, 218, 130, 245, 24,
    129, 171, 235, 15]

/-- The crates on the documents of both catalogs. -/
def laterCrates : Crates (CatalogDocument ⊕ SignatureFile) where
  __ := sampleCrates
  digest := fun bytes =>
    if bytes = laterCatalogBytes then
      [3, 103, 51, 247, 148, 37, 214, 177, 147, 194, 29, 30, 207, 2, 210, 85, 77, 1, 226, 182,
        166, 212, 81, 105, 101, 117, 153, 108, 67, 37, 237, 11]
    else if bytes = asBytes ("hane-candidate-v1\x00"
        ++ "036733f79425d6b193c21d1ecf02d2554d01e2b6a6d451696575996c4325ed0b"
        ++ "\x00x86_64-pc-windows-msvc") then
      [129, 32, 19, 127, 15, 8, 4, 194, 55, 13, 249, 29, 196, 13, 19, 206, 163, 116, 171, 60,
        94, 19, 187, 58, 6, 14, 228, 39, 122, 175, 180, 111]
    else sampleCrates.digest bytes
  verifies := fun publicKey message signature =>
    sampleCrates.verifies publicKey message signature
      || (publicKey = samplePublicKey && message = catalogDomain ++ laterCatalogBytes
        && signature = laterSignature)
  decodeBase64 := fun text =>
    if text = laterSignatureText then some laterSignature else sampleCrates.decodeBase64 text
  hasUniqueKeys := fun bytes =>
    if bytes = laterCatalogBytes ∨ bytes = laterSignatureBytes then .ok ()
    else sampleCrates.hasUniqueKeys bytes
  fromSlice := fun bytes =>
    if bytes = laterCatalogBytes then .ok (.inl laterCatalog)
    else if bytes = laterSignatureBytes then
      .ok (.inr ⟨1, [⟨"hane-2026", laterSignatureText⟩]⟩)
    else sampleCrates.fromSlice bytes

def laterCandidate : VerifiedCandidate where
  __ := sampleCandidate
  catalog := laterCatalog
  catalogSha256 := "036733f79425d6b193c21d1ecf02d2554d01e2b6a6d451696575996c4325ed0b"
  candidateId := "8120137f0f0804c2370df91dc40d13cea374ab3c5e13bb3a060ee4277aafb46f"

def sampleRecording : Recording := ⟨sampleCatalogBytes, sampleCandidate⟩

def laterRecording : Recording := ⟨laterCatalogBytes, laterCandidate⟩

theorem RecordingStep.turn {Json : Type} {crates : Crates Json} {state final : SeenState}
    (number : Nat)
    {threads : List (Thread Recording (fun call : SeenCall => Except UpdateError call.Result)
      (Except UpdateError Unit))}
    {recording : Recording} {call : SeenCall} {answer : Except UpdateError call.Result}
    {next : Except UpdateError call.Result → SeenProgram (Except UpdateError Unit)}
    (found : threads[number]? = some ⟨recording, some (.call call next)⟩)
    (answers : SeenAnswers number state call answer final)
    : RecordingStep crates (threads, state)
        (threads.set number ⟨recording, some (next answer)⟩, final) :=
  Pool.Step.advance found answers

theorem sampleRecording_steps
    : Relation.ReflTransGen (RecordingStep laterCrates) ([], .opened none)
        ([⟨sampleRecording, some (.done (.ok ()))⟩,
            ⟨laterRecording, some (recordSeen laterCandidate)⟩],
          ⟨[SeenCatalog.new 10 sampleCandidate.catalogSha256], none⟩) := by
  have begins : StartsRecording laterCrates (.opened none) sampleRecording
      (recordSeen sampleCandidate) :=
    ⟨⟨sampleSignatureBytes, sampleContext, nofun, by decide +kernel⟩, rfl⟩
  have follows : StartsRecording laterCrates ⟨[], some 0⟩ laterRecording
      (recordSeen laterCandidate) :=
    ⟨⟨laterSignatureBytes, sampleContext, nofun, by decide +kernel⟩, rfl⟩
  refine .head (Pool.Step.start begins) ?_
  refine .head (RecordingStep.turn 0 rfl (.locked rfl)) ?_
  refine .head (Pool.Step.start follows) ?_
  refine .head (RecordingStep.turn 0 rfl (.loaded _)) ?_
  refine .head (RecordingStep.turn 0 rfl (.stored _ _)) ?_
  exact .head (RecordingStep.turn 0 rfl (.unlocked _ (.ok ()))) .refl

theorem laterRecording_steps
    : Relation.ReflTransGen (RecordingStep laterCrates)
        ([⟨sampleRecording, some (.done (.ok ()))⟩,
            ⟨laterRecording, some (recordSeen laterCandidate)⟩],
          ⟨[SeenCatalog.new 10 sampleCandidate.catalogSha256], none⟩)
        ([⟨sampleRecording, some (.done (.ok ()))⟩,
            ⟨laterRecording, some (.done (.ok ()))⟩],
          ⟨[SeenCatalog.new 11 laterCandidate.catalogSha256,
            SeenCatalog.new 10 sampleCandidate.catalogSha256], none⟩) := by
  refine .head (RecordingStep.turn 1 rfl (.locked rfl)) ?_
  refine .head (RecordingStep.turn 1 rfl (.loaded _)) ?_
  refine .head (RecordingStep.turn 1 rfl (.stored _ _)) ?_
  exact .head (RecordingStep.turn 1 rfl (.unlocked _ (.ok ()))) .refl

/-- The floor theorem at that run: the floor rises from the first candidate to the second. -/
theorem floor_of_recordings_sample
    : let after : SeenState :=
        ⟨[SeenCatalog.new 11 laterCandidate.catalogSha256,
          SeenCatalog.new 10 sampleCandidate.catalogSha256], none⟩
      (∃ floor, after.stored = some floor ∧ 10 ≤ floor.sequence
        ∧ (floor.sequence = 10 → floor.catalogSha256 = sampleCandidate.catalogSha256))
      ∧ (∃ floor, after.stored = some floor ∧ sampleCandidate.sequence ≤ floor.sequence)
      ∧ ∃ floor, after.stored = some floor ∧ laterCandidate.sequence ≤ floor.sequence := by
  intro after
  have both : ∀ recording, Accepted
      ([⟨sampleRecording, some (.done (.ok ()))⟩, ⟨laterRecording, some (.done (.ok ()))⟩], after)
        recording
      → recording = sampleRecording ∨ recording = laterRecording := by
    rintro recording ⟨number, found⟩
    cases number with
    | zero =>
        cases found
        exact .inl rfl
    | succ number =>
        cases number with
        | zero =>
            cases found
            exact .inr rfl
        | succ number => simp at found
  have apart : laterCrates.digest sampleCatalogBytes ≠ laterCrates.digest laterCatalogBytes := by
    decide +kernel
  obtain ⟨rises, covers, _⟩ :=
    floor_of_recordings laterCrates none sampleRecording_steps laterRecording_steps (by
      intro first second left right same
      rcases both first left with rfl | rfl <;> rcases both second right with rfl | rfl
      · rfl
      · exact absurd same apart
      · exact absurd same.symm apart
      · rfl)
  exact ⟨rises _ rfl, covers sampleRecording ⟨0, rfl⟩, covers laterRecording ⟨1, rfl⟩⟩

end Hane.Update
