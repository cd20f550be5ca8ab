import Hane.Update.HandoffCarrying

/-! A release that succeeds leaves no secret of the transaction and no record, whatever one publish,
reads and other releases did before, stopped or failed anywhere.
-/

namespace Hane.Update.StateRoot

open Hane.Foundations

variable (codec : Codec) (coordination : Coordination) (transaction environmentPath : String)

-- What stays true

/-- No secret of the transaction is stored. -/
def Cleared (world : HandoffWorld) : Prop :=
  ∀ reference, secretRefOk transaction reference = true → world.secrets reference = none

/-- The secrets are among those a release sweeps, and a record that names none has none. -/
structure Tracked (world : HandoffWorld) : Prop where
  swept : ∀ reference, secretRefOk transaction reference = true → world.secrets reference ≠ none
    → ∃ index < maxSecretRefs, reference = secretRef transaction index
  record : ∀ bytes, world.record = some bytes → ∃ document,
    codec.parseStrict bytes = .ok document ∧ document.transactionId = transaction
      ∧ (document.secretRefs.entries = [] → Cleared transaction world)

/-- Nothing is there that was not there before. -/
structure Shrinks (world after : HandoffWorld) : Prop where
  record : after.record = none ∨ after.record = world.record
  secrets : ∀ reference, after.secrets reference = none
    ∨ after.secrets reference = world.secrets reference

theorem Shrinks.refl (world : HandoffWorld) : Shrinks world world :=
  ⟨.inr rfl, fun _ => .inr rfl⟩

theorem Shrinks.emptied (world : HandoffWorld) (reference : String)
    : Shrinks world (world.holding reference none) := by
  refine ⟨.inr rfl, fun other => ?_⟩
  by_cases same : other = reference
  · rw [same]
    exact .inl HandoffWorld.holding_self
  · exact .inr (HandoffWorld.holding_other same)

theorem Shrinks.removed (world : HandoffWorld) : Shrinks world world.removed :=
  ⟨.inl rfl, fun _ => .inr rfl⟩

theorem Shrinks.cleared {transaction : String} {world after : HandoffWorld}
    (shrinks : Shrinks world after) (cleared : Cleared transaction world)
    : Cleared transaction after := by
  intro reference own
  rcases shrinks.secrets reference with gone | same
  · exact gone
  · exact same.trans (cleared reference own)

theorem Tracked.shrinks {codec : Codec} {transaction : String} {world after : HandoffWorld}
    (tracked : Tracked codec transaction world) (shrinks : Shrinks world after)
    : Tracked codec transaction after where
  swept := by
    intro reference own held
    rcases shrinks.secrets reference with gone | same
    · exact absurd gone held
    · exact tracked.swept reference own (same ▸ held)
  record := by
    intro bytes present
    rcases shrinks.record with gone | same
    · rw [gone] at present
      cases present
    · obtain ⟨document, parsed, own, none⟩ := tracked.record bytes (same ▸ present)
      exact ⟨document, parsed, own, fun empty => shrinks.cleared (none empty)⟩

-- Calls that only take away

/-- A call that stores nothing. -/
def Diminishing : HandoffCall → Prop
  | .put _ _ | .durableWrite _ => False
  | _ => True

theorem Diminishing.answers {world after : HandoffWorld} {call : HandoffCall} {answer : call.Answer}
    (diminishing : Diminishing call) (effect : HandoffEffect world call answer after)
    : Shrinks world after := by
  cases call with
  | put | durableWrite => exact diminishing.elim
  | take reference =>
      match answer, effect with
      | .ok (some secret), effect => exact effect.2 ▸ .emptied world reference
      | .ok none, effect => exact effect.2 ▸ .refl world
      | .error err, .inl same => exact same ▸ .refl world
      | .error err, .inr same => exact same ▸ .emptied world reference
  | delete reference =>
      rcases effect with same | ⟨-, same⟩
      · exact same ▸ .emptied world reference
      · exact same ▸ .refl world
  | removeFile =>
      match answer, effect with
      | .ok (), effect => exact Eq.symm effect ▸ .removed world
      | .error err, effect =>
          simp only [HandoffEffect] at effect
          split at effect
          · exact effect.2 ▸ .removed world
          · exact effect ▸ ⟨.inr rfl, fun _ => .inr rfl⟩
  | symlinkMetadata | openFile => exact effect.2.2 ▸ .refl world
  | readToEnd limit => exact effect.2 ▸ .refl world
  | secureNew | verify => exact Eq.symm effect ▸ .refl world

theorem Diminishing.tears {world after : HandoffWorld} {call : HandoffCall}
    (diminishing : Diminishing call) (torn : HandoffTears world call after)
    : Shrinks world after := by
  cases call with
  | put | durableWrite => exact diminishing.elim
  | take reference | delete reference => exact Eq.symm torn ▸ .emptied world reference
  | removeFile => exact Eq.symm torn ▸ .removed world
  | symlinkMetadata | openFile | readToEnd _ | secureNew | verify => exact torn.elim

/-- A program that stores nothing keeps the world tracked, wherever it stops. -/
theorem Diminishing.keeps {α : Type} {program : Program HandoffCall.Answer α}
    (makes : program.Makes Diminishing) {world : HandoffWorld}
    (tracked : Tracked codec transaction world)
    : Program.Ensures handoffOutside (Tracked codec transaction)
        (fun _ => Tracked codec transaction) program world :=
  makes.ensures
    (fun _ _ _ _ diminishing tracked effect => tracked.shrinks (diminishing.answers effect))
    (fun _ _ _ diminishing tracked torn => tracked.shrinks (diminishing.tears torn)) tracked

theorem discardEnvironment_makes : discardEnvironment.Makes Diminishing :=
  (Program.Makes.request trivial).bind fun _ => trivial

theorem deleteEach_makes (references : List String) (failed : Bool)
    : (deleteEach references failed).Makes Diminishing := by
  induction references generalizing failed with
  | nil => trivial
  | cons reference rest ih => exact (Program.Makes.request trivial).bind fun answer => ih _

theorem claimSecrets_makes (refs vars : List (String × String)) (failed : Bool)
    : (claimSecrets refs vars failed).Makes Diminishing := by
  induction refs generalizing vars failed with
  | nil => trivial
  | cons entry rest ih =>
      refine (Program.Makes.request trivial).bind fun answer => ?_
      match answer with
      | .ok (some _) => exact ih _ _
      | .ok none => exact ih _ _
      | .error _ => exact ih _ _

theorem secureRecord_makes : secureRecord.run.Makes Diminishing := by
  have secured : (do secureNew; verify : Handing Unit).run.Makes Diminishing :=
    Program.Makes.attempt (Program.Makes.request trivial) fun _ => Program.Makes.request trivial
  refine secured.bind fun outcome => ?_
  cases outcome with
  | ok done => trivial
  | error err => exact discardEnvironment_makes.bind fun _ => trivial

theorem readLimited_makes (limit : Nat)
    : (readLimited environmentPath limit).run.Makes Diminishing := by
  refine (Program.Makes.request trivial).bind fun answer => ?_
  match answer with
  | .ok () => exact (Program.Makes.request trivial).bind fun _ => trivial
  | .error err => trivial

theorem readEnvironment_makes
    : (readEnvironmentWithSecrets codec coordination transaction environmentPath).run.Makes
        Diminishing := by
  have read : (readPrivate environmentPath).run.Makes Diminishing := by
    refine Program.Makes.attempt (Program.Makes.request trivial) fun _ => ?_
    exact Program.Makes.attempt (readLimited_makes environmentPath environmentLimit) fun _ => trivial
  have loaded : (loadEnvironment codec coordination transaction environmentPath).run.Makes
      Diminishing := by
    refine (Program.Makes.request trivial).bind fun answer => ?_
    match answer with
    | .ok () =>
        exact Program.Makes.attempt read fun _ =>
          Program.Makes.attempt (Program.Makes.settled _) fun _ => trivial
    | .error err => trivial
  exact Program.Makes.attempt loaded fun loaded =>
    (claimSecrets_makes loaded.2.entries loaded.1 false).bind fun _ => trivial

theorem release_makes
    : (releaseEnvironmentSecrets codec transaction environmentPath).Makes Diminishing := by
  refine (readLimited_makes environmentPath environmentLimit).bind fun found => ?_
  rw [releaseRecorded]
  split
  · exact discardEnvironment_makes.bind fun _ => trivial
  · refine (deleteEach_makes _ false).bind fun failed => ?_
    cases failed with
    | true => trivial
    | false => exact discardEnvironment_makes.bind fun _ => trivial

-- A release

theorem discardEnvironment_removes (world : HandoffWorld)
    : Program.Ensures handoffOutside (fun _ => True)
        (fun _ after => after.secrets = world.secrets ∧ (after.record = none ∨ after.stuck = true))
        discardEnvironment world := by
  refine ⟨trivial, fun _ _ => trivial, fun answer after effect => ⟨trivial, ?_⟩⟩
  match answer, effect with
  | .ok (), same => rw [same]; exact ⟨rfl, .inl rfl⟩
  | .error err, effect =>
      simp only [handoffOutside, HandoffEffect] at effect
      split at effect
      · rw [effect.2]
        exact ⟨rfl, .inl rfl⟩
      · rw [effect]
        exact ⟨rfl, .inr rfl⟩

/-- When no delete failed, every reference is empty and nothing came back, by induction over the
references.
-/
theorem deleteEach_empties (references : List String) (failed : Bool) (world : HandoffWorld)
    : Program.Ensures handoffOutside (fun _ => True)
        (fun left after => Shrinks world after
          ∧ (left = false → failed = false ∧ ∀ reference ∈ references, after.secrets reference = none))
        (deleteEach references failed) world := by
  induction references generalizing failed world with
  | nil => exact ⟨trivial, .refl world, fun fine => ⟨fine, List.forall_mem_nil _⟩⟩
  | cons reference rest ih =>
      refine ⟨trivial, fun _ _ => trivial, fun answer middle effect => ?_⟩
      have diminishing : Diminishing (.delete reference) := trivial
      have shrunk : Shrinks world middle := diminishing.answers effect
      refine (ih _ middle).mono fun left after _ reached => ?_
      obtain ⟨shrinks, emptied⟩ := reached
      refine ⟨⟨?_, fun other => ?_⟩, fun done => ?_⟩
      · rcases shrinks.record with gone | same
        · exact .inl gone
        · exact shrunk.record.imp same.trans same.trans
      · rcases shrinks.secrets other with gone | same
        · exact .inl gone
        · exact (shrunk.secrets other).imp same.trans same.trans
      · obtain ⟨fine, others⟩ := emptied done
        rw [Bool.or_eq_false_iff] at fine
        refine ⟨fine.1, fun other member => ?_⟩
        rcases List.mem_cons.mp member with rfl | member
        · have empty : middle.secrets other = none := by
            rcases effect with same | ⟨refused, -⟩
            · rw [same, HandoffWorld.holding_self]
            · clear emptied
              match answer with
              | .ok () => exact absurd rfl refused
              | .error err => exact absurd fine.2 (by simp [Except.isOk, Except.toBool])
          rcases shrinks.secrets other with gone | same
          · exact gone
          · exact same.trans empty
        · exact others other member

/-- Reading within a limit changes nothing and gives the record. -/
theorem readLimited_reads (limit : Nat) (world : HandoffWorld)
    : Program.Ensures handoffOutside (fun _ => True)
        (fun found after => after = world
          ∧ ∀ bytes, found = .ok (some bytes) → world.record = some bytes)
        (readLimited environmentPath limit).run world := by
  refine ⟨trivial, fun _ _ => trivial, fun answer after effect => ?_⟩
  match answer, effect with
  | .error err, effect =>
      refine ⟨trivial, effect.2.2, fun bytes same => ?_⟩
      split at same <;> cases same
  | .ok (), effect =>
      refine ⟨trivial, fun _ _ => trivial, fun data final read => ⟨trivial, ?_, ?_⟩⟩
      · exact Eq.trans read.2 effect.2.2
      · intro bytes same
        match data, read with
        | .error err, _ => cases same
        | .ok data, read =>
            simp only at same
            split at same
            · cases same
            case isFalse fits =>
              cases same
              obtain ⟨whole, record, taken⟩ := read.1 bytes rfl
              have short : whole.length ≤ limit + 1 := by
                by_contra long
                rw [taken, List.length_take] at fits
                omega
              rw [taken, List.take_of_length_le short, ← record, effect.2.2]

theorem release_clears {world : HandoffWorld} (tracked : Tracked codec transaction world)
    : Program.Ensures handoffOutside (fun _ => True)
        (fun result after => result = .ok () → Cleared transaction after
          ∧ (after.record = none ∨ after.stuck = true))
        (releaseEnvironmentSecrets codec transaction environmentPath) world := by
  refine (readLimited_reads environmentPath environmentLimit world).bind
    fun found middle _ reached => ?_
  obtain ⟨rfl, read⟩ := reached
  -- Unless the record names no secret, all of the numbers a publish can use are swept.
  have swept : (sweptReferences codec transaction found = none ∧ Cleared transaction middle)
      ∨ ∃ references, sweptReferences codec transaction found = some references
        ∧ ∀ index < maxSecretRefs, secretRef transaction index ∈ references := by
    have bounded : ∀ named : List String, ∀ index < maxSecretRefs, secretRef transaction index
        ∈ SortedMaps.sortedSet ((List.range maxSecretRefs).map (secretRef transaction) ++ named) := by
      intro named index few
      rw [SortedMaps.mem_sortedSet]
      exact List.mem_append_left _ (List.mem_map_of_mem (List.mem_range.mpr few))
    have plain := bounded []
    rw [List.append_nil] at plain
    match found, read with
    | .error err, _ => exact .inr ⟨_, rfl, plain⟩
    | .ok none, _ => exact .inr ⟨_, rfl, plain⟩
    | .ok (some bytes), read =>
        obtain ⟨document, parsed, own, empty⟩ := tracked.record bytes (read bytes rfl)
        simp only [sweptReferences, parsed]
        by_cases names : document.transactionId = transaction ∧ document.secretRefs.entries = []
        · exact .inl ⟨if_pos names, empty names.2⟩
        · exact .inr ⟨_, if_neg names, bounded _⟩
  rcases swept with ⟨names, cleared⟩ | ⟨references, named, all⟩
  · rw [releaseRecorded, names]
    refine (discardEnvironment_removes middle).bind fun _ after _ removed => ⟨trivial, fun _ => ?_⟩
    exact ⟨fun reference own => (congrFun removed.1 reference).trans (cleared reference own),
      removed.2⟩
  · rw [releaseRecorded, named]
    refine (deleteEach_empties references false middle).bind fun failed emptied _ reached => ?_
    obtain ⟨shrinks, empty⟩ := reached
    cases failed with
    | true => exact ⟨trivial, fun same => nomatch same⟩
    | false =>
        have cleared : Cleared transaction emptied := by
          intro reference own
          by_contra held
          have stored : middle.secrets reference ≠ none := by
            intro gone
            rcases shrinks.secrets reference with gone' | same
            · exact held gone'
            · exact held (same.trans gone)
          obtain ⟨index, few, rfl⟩ := tracked.swept reference own stored
          exact held ((empty rfl).2 _ (all index few))
        refine (discardEnvironment_removes emptied).bind fun _ after _ removed =>
          ⟨trivial, fun _ => ?_⟩
        exact ⟨fun reference own => (congrFun removed.1 reference).trans (cleared reference own),
          removed.2⟩

-- A publish

/-- While a publish collects, there is no record and every secret is one it stored. -/
structure Collecting (held : Collected) (world : HandoffWorld) : Prop where
  record : world.record = none
  own : ∀ reference, secretRefOk transaction reference = true → world.secrets reference ≠ none
    → reference ∈ held.stored
  stored : held.stored = (List.range held.stored.length).map (secretRef transaction)
  few : held.stored.length ≤ maxSecretRefs
  named : held.secretRefs.entries = [] → held.stored = []

namespace Collecting

variable {codec transaction} {held : Collected} {world : HandoffWorld}

theorem tracked (collecting : Collecting transaction held world)
    : Tracked codec transaction world where
  swept := by
    intro reference own present
    have member := collecting.own reference own present
    rw [collecting.stored] at member
    obtain ⟨index, below, same⟩ := List.mem_map.mp member
    exact ⟨index, (List.mem_range.mp below).trans_le collecting.few, same.symm⟩
  record := by
    intro bytes present
    rw [collecting.record] at present
    cases present

/-- A secret under the next reference is tracked whether or not the store says so. -/
theorem put (collecting : Collecting transaction held world)
    (room : held.stored.length < maxSecretRefs) (userinfo : String)
    : Tracked codec transaction
        (world.holding (secretRef transaction held.stored.length) (some userinfo)) where
  swept := by
    intro reference own present
    by_cases same : reference = secretRef transaction held.stored.length
    · exact ⟨_, room, same⟩
    · have before : Tracked codec transaction world := collecting.tracked
      refine before.swept reference own ?_
      rwa [HandoffWorld.holding_other same] at present
  record := by
    intro bytes present
    exact absurd present (by rw [HandoffWorld.holding, collecting.record]; exact nofun)

theorem record' (collecting : Collecting transaction held world) (name value : String)
    : Collecting transaction (held.record name value) world :=
  ⟨collecting.record, collecting.own, collecting.stored, collecting.few, collecting.named⟩

theorem store (collecting : Collecting transaction held world)
    (room : held.stored.length < maxSecretRefs) (name userinfo : String)
    : let reference := secretRef transaction held.stored.length
      Collecting transaction (held.store name reference)
        (world.holding reference (some userinfo)) := by
  intro reference
  refine ⟨collecting.record, fun other own present => ?_, ?_, ?_, fun empty => ?_⟩
  · by_cases same : other = reference
    · exact List.mem_append_right _ (List.mem_singleton.mpr same)
    · refine List.mem_append_left _ (collecting.own other own ?_)
      rwa [HandoffWorld.holding_other same] at present
  · have before := collecting.stored
    rw [Collected.store, List.length_append, List.length_singleton, List.range_succ,
      List.map_append, ← before]
    rfl
  · rw [Collected.store, List.length_append, List.length_singleton]
    exact room
  · have key : name ∈ (SortedMaps.insert name reference held.secretRefs.entries).map Prod.fst :=
      SortedMaps.mem_keys_insert.mpr (.inl rfl)
    rw [show SortedMaps.insert name reference held.secretRefs.entries = [] from empty] at key
    cases key

/-- Taking things away does not disturb a publish. -/
theorem removed (collecting : Collecting transaction held world) {after : HandoffWorld}
    (shrinks : Shrinks world after)
    : Collecting transaction held after where
  record := by
    rcases shrinks.record with gone | same
    · exact gone
    · exact same.trans collecting.record
  own := by
    intro reference own present
    rcases shrinks.secrets reference with gone | same
    · exact absurd gone present
    · exact collecting.own reference own (same ▸ present)
  stored := collecting.stored
  few := collecting.few
  named := collecting.named

end Collecting

/-- Collecting keeps the world tracked wherever it stops, by induction over the variables. -/
theorem collectEnvironment_tracks (ambient : List (OsText × OsText)) {held : Collected}
    {world : HandoffWorld} (collecting : Collecting transaction held world)
    : Program.Ensures handoffOutside (Tracked codec transaction)
        (fun outcome after => outcome.1 = .ok () → Collecting transaction outcome.2 after)
        (collectEnvironment transaction ambient held) world := by
  induction ambient generalizing held world with
  | nil => exact ⟨collecting.tracked, fun _ => collecting⟩
  | cons pair rest ih =>
      obtain ⟨name, value⟩ := pair
      rw [collectEnvironment]
      cases recording : recordingOf name value with
      | refused err => exact ⟨collecting.tracked, by rintro ⟨⟩⟩
      | leftOut => exact ih collecting
      | recorded key kept userinfo =>
          cases userinfo with
          | none => exact ih (collecting.record' key kept)
          | some userinfo =>
              simp only
              split
              · exact ⟨collecting.tracked, by rintro ⟨⟩⟩
              case isFalse full =>
                have room := not_le.mp full
                refine ⟨collecting.tracked, fun torn same => ?_, fun answer after effect => ?_⟩
                · exact Eq.symm same ▸ collecting.put room userinfo
                · cases answer with
                  | error err =>
                      rcases effect with same | kept
                      · exact ⟨same ▸ collecting.put room userinfo, by rintro ⟨⟩⟩
                      · exact ⟨kept.2 ▸ collecting.tracked, by rintro ⟨⟩⟩
                  | ok done =>
                      rcases effect with same | kept
                      · rw [same]
                        exact ih ((collecting.store room key userinfo).record' key kept)
                      · exact absurd rfl kept.1

variable {codec}

theorem Collecting.recorded {held : Collected} {world : HandoffWorld}
    (collecting : Collecting transaction held world) {bytes : List UInt8}
    (parsed : codec.parseStrict bytes = .ok (documentOf coordination transaction held))
    : Tracked codec transaction (world.recording bytes) where
  swept := by
    have before : Tracked codec transaction world := collecting.tracked
    exact before.swept
  record := by
    intro other present
    cases present
    refine ⟨_, parsed, rfl, fun empty reference own => ?_⟩
    by_contra held
    have member := collecting.own reference own held
    rw [collecting.named empty] at member
    cases member

/-- Writing the record keeps the world tracked wherever it stops. -/
theorem writeEnvironment_tracks (roundTrips : codec.RoundTrips) {held : Collected}
    {world : HandoffWorld} (collecting : Collecting transaction held world)
    : Program.Performs handoffOutside (Tracked codec transaction)
        (fun _ => Tracked codec transaction) (fun _ => Tracked codec transaction)
        (writeEnvironment codec coordination transaction held.vars held.secretRefs) world := by
  rw [writeEnvironment]
  have tracked : Tracked codec transaction world := collecting.tracked
  refine Program.Performs.bind
    (fun bytes after => codec.toVec (documentOf coordination transaction held) = .ok bytes
      ∧ after = world) ?_ fun bytes after _ encoded => ?_
  · refine Program.Performs.settled tracked (fun bytes same => ⟨?_, rfl⟩) fun _ _ => tracked
    rw [documentOf]
    generalize codec.toVec _ = encoded at same ⊢
    cases encoded with
    | ok found => exact congrArg Except.ok (Except.ok.inj same)
    | error why => cases same
  · obtain ⟨written, rfl⟩ := encoded
    refine Program.Performs.bind (fun _ => Collecting transaction held) ?_
      fun _ cleared _ collecting => ?_
    · have kept : Program.Ensures handoffOutside (Collecting transaction held)
          (fun _ => Collecting transaction held) discardEnvironment after :=
        discardEnvironment_makes.ensures
          (fun _ _ _ _ diminishing collecting effect =>
            collecting.removed (Diminishing.answers diminishing effect))
          (fun _ _ _ diminishing collecting torn =>
            collecting.removed (Diminishing.tears diminishing torn)) collecting
      exact (kept.weaken fun _ collecting => collecting.tracked).map fun _ _ _ collecting =>
        collecting
    · refine Program.Performs.ite (fun _ => ⟨collecting.tracked, collecting.tracked⟩) fun _ => ?_
      have recorded := collecting.recorded coordination transaction (roundTrips _ _ written)
      refine Program.Performs.bind (fun _ => Tracked codec transaction) ?_
        fun _ final _ tracked => ?_
      · refine ⟨collecting.tracked, fun torn same => Eq.symm same ▸ recorded,
          fun answer final effect => ?_⟩
        rcases effect with same | kept
        · cases answer <;> exact ⟨same ▸ recorded, same ▸ recorded⟩
        · cases answer with
          | ok done => exact absurd rfl kept.1
          | error err => exact ⟨kept.2 ▸ collecting.tracked, kept.2 ▸ collecting.tracked⟩
      · refine (Diminishing.keeps codec transaction secureRecord_makes tracked).mono
          fun outcome final _ tracked => ?_
        cases outcome with
        | ok done => exact tracked
        | error err => exact tracked

/-- A publish with no record and no secret before it keeps the world tracked wherever it stops. -/
theorem publish_tracks (roundTrips : codec.RoundTrips) (ambient : List (OsText × OsText))
    {world : HandoffWorld} (record : world.record = none) (cleared : Cleared transaction world)
    : Program.Ensures handoffOutside (Tracked codec transaction)
        (fun _ => Tracked codec transaction)
        (publishEnvironmentWithSecrets codec coordination transaction ambient) world := by
  have fresh : Collecting transaction .empty world :=
    ⟨record, fun reference own held => absurd (cleared reference own) held, rfl, Nat.zero_le _,
      fun _ => rfl⟩
  refine (collectEnvironment_tracks codec transaction ambient fresh).bind
    fun collected middle tracked reached => ?_
  obtain ⟨outcome, held⟩ := collected
  have wrote : Program.Ensures handoffOutside (Tracked codec transaction)
      (fun _ => Tracked codec transaction)
      (writeCollected codec coordination transaction (outcome, held)) middle := by
    cases outcome with
    | error err => exact ⟨tracked, tracked⟩
    | ok done =>
        refine Program.Ensures.mono
          (writeEnvironment_tracks coordination transaction roundTrips (reached rfl))
          fun result final tracked _ => tracked
  refine wrote.bind fun result final tracked _ => ?_
  cases result with
  | ok done => exact ⟨tracked, tracked⟩
  | error err =>
      have makes : (undoFailed held.stored (.error err)).Makes Diminishing :=
        (deleteEach_makes held.stored false).bind fun _ => trivial
      exact Diminishing.keeps codec transaction makes tracked

-- Every run

/-- What can be there after any reads, any releases and at most one publish, each finished or
stopped anywhere; the flag says whether the publish has begun.
-/
inductive Reached (codec : Codec) (coordination : Coordination)
    (transaction environmentPath : String) : Bool → HandoffWorld → Prop where
  | fresh {world : HandoffWorld} (record : world.record = none)
      (cleared : Cleared transaction world)
      : Reached codec coordination transaction environmentPath false world
  | published {world after : HandoffWorld} (ambient : List (OsText × OsText))
      {ending : Ending (Except UpdateError Unit)}
      (before : Reached codec coordination transaction environmentPath false world)
      (runs : Program.Runs handoffOutside
        (publishEnvironmentWithSecrets codec coordination transaction ambient) world ending after)
      : Reached codec coordination transaction environmentPath true after
  | read {begun : Bool} {world after : HandoffWorld}
      {ending : Ending (Except UpdateError (List (String × String)))}
      (before : Reached codec coordination transaction environmentPath begun world)
      (runs : Program.Runs handoffOutside
        (readEnvironmentWithSecrets codec coordination transaction environmentPath).run world ending
        after)
      : Reached codec coordination transaction environmentPath begun after
  | released {begun : Bool} {world after : HandoffWorld}
      {ending : Ending (Except UpdateError Unit)}
      (before : Reached codec coordination transaction environmentPath begun world)
      (runs : Program.Runs handoffOutside
        (releaseEnvironmentSecrets codec transaction environmentPath) world ending after)
      : Reached codec coordination transaction environmentPath begun after

/-- Before the publish there is no record and no secret. -/
structure Untouched (world : HandoffWorld) : Prop where
  record : world.record = none
  cleared : Cleared transaction world

theorem Untouched.keeps {transaction : String} {α : Type} {program : Program HandoffCall.Answer α}
    (makes : program.Makes Diminishing) {world after : HandoffWorld} {ending : Ending α}
    (untouched : Untouched transaction world)
    (runs : Program.Runs handoffOutside program world ending after)
    : Untouched transaction after := by
  have shrinks : ∀ {world after : HandoffWorld}, Shrinks world after
      → Untouched transaction world → Untouched transaction after := by
    intro world after shrinks untouched
    refine ⟨?_, shrinks.cleared untouched.cleared⟩
    rcases shrinks.record with gone | same
    · exact gone
    · exact same.trans untouched.record
  have kept : Program.Ensures handoffOutside (Untouched transaction)
      (fun _ => Untouched transaction) program world :=
    makes.ensures
      (fun _ _ _ _ diminishing untouched effect => shrinks (diminishing.answers effect) untouched)
      (fun _ _ _ diminishing untouched torn => shrinks (diminishing.tears torn) untouched) untouched
  exact (kept.sound runs).1

variable {transaction environmentPath coordination}

/-- Everything reached is tracked, and untouched before the publish, by induction over the runs. -/
theorem Reached.tracked (roundTrips : codec.RoundTrips) {begun : Bool} {world : HandoffWorld}
    (reached : Reached codec coordination transaction environmentPath begun world)
    : Tracked codec transaction world ∧ (begun = false → Untouched transaction world) := by
  induction reached with
  | fresh record cleared =>
      refine ⟨⟨fun reference own held => absurd (cleared reference own) held, ?_⟩,
        fun _ => ⟨record, cleared⟩⟩
      intro bytes present
      rw [record] at present
      cases present
  | published ambient _ runs ih =>
      obtain ⟨record, cleared⟩ := ih.2 rfl
      have tracks := publish_tracks coordination transaction roundTrips ambient record cleared
      exact ⟨(tracks.sound runs).1, fun none => nomatch none⟩
  | read _ runs ih =>
      have makes := readEnvironment_makes codec coordination transaction environmentPath
      exact ⟨((Diminishing.keeps codec transaction makes ih.1).sound runs).1,
        fun none => (ih.2 none).keeps makes runs⟩
  | released _ runs ih =>
      have makes := release_makes codec transaction environmentPath
      exact ⟨((Diminishing.keeps codec transaction makes ih.1).sound runs).1,
        fun none => (ih.2 none).keeps makes runs⟩

/-- A publish that succeeds hands its environment over just when every proxy value survives; and a
release that succeeds, after whatever runs, has cleared the transaction, its record included
unless the file could not be removed.
-/
theorem handoff_safe (codec : Codec) (roundTrips : codec.RoundTrips) (coordination : Coordination)
    (transaction environmentPath : String)
    : (∀ ambient world final, (ambient.map Prod.fst).Nodup
        → Program.Runs handoffOutside
          (publishEnvironmentWithSecrets codec coordination transaction ambient) world
          (.finished (.ok ())) final
        → (HandsOver codec coordination transaction environmentPath ambient final
          ↔ ∀ name original, Given ambient name original → isProxyUrlVar name = true
            → Survives name original))
      ∧ ∀ begun world final,
        Reached codec coordination transaction environmentPath begun world
        → Program.Runs handoffOutside (releaseEnvironmentSecrets codec transaction environmentPath)
          world (.finished (.ok ())) final
        → Cleared transaction final ∧ (final.stuck = false → final.record = none) := by
  refine ⟨fun ambient world final distinct runs => ?_, fun begun world final reached runs => ?_⟩
  · have publishes := publish_publishes codec coordination transaction distinct world
    obtain ⟨claims, held, bytes, published⟩ := (publishes.sound runs).2 _ rfl rfl
    exact ⟨fun handsOver name original given proxy =>
      published.survives roundTrips distinct handsOver given proxy,
      published.handsOver roundTrips distinct⟩
  · have clears := release_clears codec transaction environmentPath
      (reached.tracked roundTrips).1
    obtain ⟨cleared, record⟩ := (clears.sound runs).2 _ rfl rfl
    refine ⟨cleared, fun free => record.resolve_right fun stuck => ?_⟩
    rw [free] at stuck
    cases stuck

-- Sample handoffs

section Samples

/-- The JSON forms of some documents. -/
def listedCodec (forms : List (ChildEnvironment × String)) : Codec where
  toVec document :=
    match forms.find? fun form => form.1 = document with
    | some form => .ok (asBytes form.2)
    | none => .error "not listed"
  parseStrict bytes :=
    match forms.find? fun form => asBytes form.2 = bytes with
    | some form => .ok form.1
    | none => .error (malformed "invalid JSON")

/-- Different forms of different documents are read back. -/
theorem listedCodec_roundTrips {forms : List (ChildEnvironment × String)}
    (distinct : ∀ first ∈ forms, ∀ second ∈ forms, asBytes first.2 = asBytes second.2
      → first = second)
    : (listedCodec forms).RoundTrips := by
  intro document bytes written
  simp only [listedCodec] at written ⊢
  cases found : forms.find? fun form => form.1 = document with
  | none =>
      rw [found] at written
      cases written
  | some form =>
      rw [found] at written
      cases written
      have named : form.1 = document := by simpa using List.find?_some found
      cases back : forms.find? fun other => asBytes other.2 = asBytes form.2 with
      | none =>
          have missing := List.find?_eq_none.mp back form (List.mem_of_find?_eq_some found)
          exact absurd (decide_eq_true rfl) missing
      | some other =>
          have same : asBytes other.2 = asBytes form.2 := by simpa using List.find?_some back
          have one := distinct other (List.mem_of_find?_eq_some back) form
            (List.mem_of_find?_eq_some found) same
          rw [one]
          exact congrArg Except.ok named

def sampleTransaction : String := "0123456789abcdef0123456789abcdef"

/-- The document of one variable, with a secret or without. -/
def sampleDocument (name value : String) (secret : Bool) : ChildEnvironment where
  schema := bindingSchema
  installId := "sample"
  transactionId := sampleTransaction
  vars := SortedMap.empty.insert name value
  secretRefs :=
    if secret = true then SortedMap.empty.insert name (secretRef sampleTransaction 0) else .empty

def sampleHead : String :=
  "\x7b\"schema\":1,\"install_id\":\"sample\",\"transaction_id\":\"" ++ sampleTransaction
    ++ "\",\"vars\":\x7b"

def sampleRefs : String :=
  ",\"secret_refs\":\x7b\"HTTPS_PROXY\":\"" ++ sampleTransaction ++ ".0\"\x7d"

def sampleCodec : Codec :=
  listedCodec
    [(sampleDocument "HTTPS_PROXY" "http://h" true,
        sampleHead ++ "\"HTTPS_PROXY\":\"http://h\"\x7d" ++ sampleRefs ++ "\x7d"),
      (sampleDocument "HTTPS_PROXY" "http://h/a@b" true,
        sampleHead ++ "\"HTTPS_PROXY\":\"http://h/a@b\"\x7d" ++ sampleRefs ++ "\x7d"),
      (sampleDocument "HTTP_PROXY" "user:pw@proxy/x://y" false,
        sampleHead ++ "\"HTTP_PROXY\":\"user:pw@proxy/x://y\"\x7d\x7d")]

theorem sampleCodec_roundTrips : sampleCodec.RoundTrips :=
  listedCodec_roundTrips (by decide +kernel)

/-- One variable of the parent. -/
def sampleAmbient (name value : String) : List (OsText × OsText) := [(.text name, .text value)]

def emptyWorld : HandoffWorld := ⟨none, fun _ => none, false⟩

/-- A working publish of one variable. -/
def samplePublish (name value : String) : Except UpdateError Unit × HandoffWorld :=
  Program.run working (publishEnvironmentWithSecrets sampleCodec ⟨"sample"⟩ sampleTransaction
    (sampleAmbient name value)) emptyWorld

theorem samplePublish_runs {name value : String} (fine : (samplePublish name value).1 = .ok ())
    : Program.Runs handoffOutside (publishEnvironmentWithSecrets sampleCodec ⟨"sample"⟩
        sampleTransaction (sampleAmbient name value)) emptyWorld (.finished (.ok ()))
        (samplePublish name value).2 := by
  rw [← fine]
  exact Program.runs_run working_allowed _ _

/-- A publish that succeeds may leave a record that the reader refuses, or one that holds the whole
userinfo.
-/
theorem handoff_not_safe
    : ∃ codec : Codec, codec.RoundTrips ∧ ∀ value ∈ [("HTTPS_PROXY", "http://u:p@h/a@b"),
        ("HTTP_PROXY", "user:pw@proxy/x://y")],
      ∃ final, Program.Runs handoffOutside (publishEnvironmentWithSecrets codec ⟨"sample"⟩
          sampleTransaction (sampleAmbient value.1 value.2)) emptyWorld (.finished (.ok ())) final
        ∧ ¬HandsOver codec ⟨"sample"⟩ sampleTransaction "child-env.json"
          (sampleAmbient value.1 value.2) final := by
  refine ⟨sampleCodec, sampleCodec_roundTrips, fun value member => ?_⟩
  have refuses : ∀ name text, (samplePublish name text).1 = .ok () → isProxyUrlVar name = true
      → ¬Survives name text → ∃ final, Program.Runs handoffOutside
          (publishEnvironmentWithSecrets sampleCodec ⟨"sample"⟩ sampleTransaction
            (sampleAmbient name text)) emptyWorld (.finished (.ok ())) final
        ∧ ¬HandsOver sampleCodec ⟨"sample"⟩ sampleTransaction "child-env.json"
          (sampleAmbient name text) final := by
    intro name text fine proxy lost
    refine ⟨_, samplePublish_runs fine, fun handsOver => lost ?_⟩
    have distinct : ((sampleAmbient name text).map Prod.fst).Nodup := List.nodup_singleton _
    have publishes :=
      publish_publishes sampleCodec ⟨"sample"⟩ sampleTransaction distinct emptyWorld
    obtain ⟨claims, held, bytes, published⟩ :=
      (publishes.sound (samplePublish_runs fine)).2 _ rfl rfl
    exact published.survives sampleCodec_roundTrips distinct handsOver
      (List.mem_singleton_self _) proxy
  simp only [List.mem_cons, List.not_mem_nil, or_false] at member
  rcases member with rfl | rfl
  · refine refuses _ _ (by decide +kernel) (by decide +kernel) fun survives => ?_
    have split : splitUserinfo "http://u:p@h/a@b" = .ok ("http://h/a@b", some "u:p") := by
      decide +kernel
    have left := ((survives _ _ split).2 (by decide +kernel)).1
    exact absurd left (by decide +kernel)
  · refine refuses _ _ (by decide +kernel) (by decide +kernel) fun survives => ?_
    have split : splitUserinfo "user:pw@proxy/x://y" = .ok ("user:pw@proxy/x://y", none) := by
      decide +kernel
    have lost := (((survives _ _ split).2 (by decide +kernel)).2 (by decide +kernel)).1
    exact lost ⟨"user:pw".toList, by decide +kernel, by decide +kernel⟩

/-- Witness: a proxy with a password is handed over, and a release clears what was left. -/
theorem handoff_safe_sample
    : HandsOver sampleCodec ⟨"sample"⟩ sampleTransaction "child-env.json"
        (sampleAmbient "HTTPS_PROXY" "http://u:p@h") (samplePublish "HTTPS_PROXY" "http://u:p@h").2
      ∧ ∃ final, Program.Runs handoffOutside (releaseEnvironmentSecrets sampleCodec
            sampleTransaction "child-env.json") (samplePublish "HTTPS_PROXY" "http://u:p@h").2
          (.finished (.ok ())) final
        ∧ Cleared sampleTransaction final ∧ final.record = none := by
  have safe := handoff_safe sampleCodec sampleCodec_roundTrips ⟨"sample"⟩ sampleTransaction
    "child-env.json"
  have fine : (samplePublish "HTTPS_PROXY" "http://u:p@h").1 = .ok () := by decide +kernel
  have runs := samplePublish_runs fine
  have distinct : ((sampleAmbient "HTTPS_PROXY" "http://u:p@h").map Prod.fst).Nodup :=
    List.nodup_singleton _
  refine ⟨?_, ?_⟩
  · refine (safe.1 _ _ _ distinct runs).mpr fun name original given _ => ?_
    simp only [Given, sampleAmbient, List.mem_singleton, Prod.mk.injEq, OsText.text.injEq] at given
    obtain ⟨rfl, rfl⟩ := given
    intro shown info split
    have known : splitUserinfo "http://u:p@h" = .ok ("http://h", some "u:p") := by decide +kernel
    rw [known] at split
    cases split
    refine ⟨by decide +kernel, fun _ => ⟨by decide +kernel, fun misread => ?_⟩⟩
    exact absurd misread (by decide +kernel)
  · have released : (Program.run working (releaseEnvironmentSecrets sampleCodec sampleTransaction
        "child-env.json") (samplePublish "HTTPS_PROXY" "http://u:p@h").2).1 = .ok () := by
      decide +kernel
    have sweeps : Program.Runs handoffOutside _ _ _ _ := Program.runs_run working_allowed
      (releaseEnvironmentSecrets sampleCodec sampleTransaction "child-env.json")
      (samplePublish "HTTPS_PROXY" "http://u:p@h").2
    rw [released] at sweeps
    have reached : Reached sampleCodec ⟨"sample"⟩ sampleTransaction "child-env.json" true
        (samplePublish "HTTPS_PROXY" "http://u:p@h").2 :=
      .published _ (.fresh rfl fun _ _ => rfl) runs
    obtain ⟨cleared, record⟩ := safe.2 _ _ _ reached sweeps
    exact ⟨_, sweeps, cleared, record (by decide +kernel)⟩

end Samples

end Hane.Update.StateRoot
