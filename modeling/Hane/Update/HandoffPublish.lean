import Hane.Update.HandoffWorld

/-! What a publish that succeeds leaves behind: the record of what it kept, and a secret for each
userinfo it cut out.
-/

namespace Hane.Update.StateRoot

open Hane.Foundations

-- What is collected

/-- A variable that is recorded. -/
structure Kept where
  name : String
  value : String
  userinfo : Option String
deriving DecidableEq

/-- A secret that is stored for a variable. -/
structure Claim where
  name : String
  reference : String
  userinfo : String
deriving DecidableEq

namespace Kept

def var (kept : Kept) : String × String := (kept.name, kept.value)

def credential (kept : Kept) : Option (String × String) :=
  kept.userinfo.map fun userinfo => (kept.name, userinfo)

end Kept

namespace Claim

def entry (claim : Claim) : String × String := (claim.name, claim.reference)

def credential (claim : Claim) : String × String := (claim.name, claim.userinfo)

end Claim

def keptOf (pair : OsText × OsText) : Option Kept :=
  match recordingOf pair.1 pair.2 with
  | .recorded name value userinfo => some ⟨name, value, userinfo⟩
  | _ => none

def splitValue (name value : String) : Except UpdateError (String × Option String) :=
  if isProxyUrlVar name then splitUserinfo value else .ok (value, none)

/-- A kept variable is an allowed one of the parent, whose value without userinfo is valid. -/
structure KeptFrom (pair : OsText × OsText) (original : String) (info : Option String)
    (kept : Kept) : Prop where
  name : pair.1 = .text kept.name
  value : pair.2 = .text original
  allowed : envNameAllowed kept.name = true
  split : splitValue kept.name original = .ok (kept.value, info)
  valid : envValueOk kept.name kept.value = true
  userinfo : kept.userinfo = info.filter (· ≠ "")

theorem keptOf_eq_some_iff {pair : OsText × OsText} {kept : Kept}
    : keptOf pair = some kept ↔ ∃ original info, KeptFrom pair original info kept := by
  obtain ⟨name, value⟩ := pair
  constructor
  · intro found
    rw [keptOf] at found
    cases recording : recordingOf name value with
    | leftOut | refused _ =>
        rw [recording] at found
        cases found
    | recorded key shown userinfo =>
        rw [recording] at found
        cases found
        cases name with
        | other raw => simp [recordingOf, OsText.intoString] at recording
        | text name =>
            cases value with
            | other raw =>
                by_cases allowed : envNameAllowed name = false <;>
                  simp [recordingOf, OsText.intoString, allowed] at recording
            | text original =>
                simp only [recordingOf, OsText.intoString] at recording
                split at recording
                · cases recording
                case isFalse allowed =>
                  split at recording
                  · cases recording
                  case h_2 shown info split =>
                    split at recording
                    · cases recording
                    case isFalse valid =>
                      cases recording
                      exact ⟨original, info, rfl, rfl, Bool.of_not_eq_false allowed, split,
                        Bool.of_not_eq_false valid, rfl⟩
  · rintro ⟨original, info, nameEq, valueEq, allowed, split, valid, userinfo⟩
    rw [splitValue] at split
    simp only at nameEq valueEq
    simp only [keptOf, nameEq, valueEq, recordingOf, OsText.intoString, allowed, split, valid,
      Bool.true_eq_false, if_false, ← userinfo]

/-- What is collected so far: the variables, and a numbered secret for each userinfo. -/
structure Gathered (transaction : String) (kepts : List Kept) (claims : List Claim)
    (held : Collected) (world : HandoffWorld) : Prop where
  vars : held.vars.entries.Perm (kepts.map Kept.var)
  secretRefs : held.secretRefs.entries.Perm (claims.map Claim.entry)
  credentials : kepts.filterMap Kept.credential = claims.map Claim.credential
  stored : held.stored = claims.map Claim.reference
  numbered : claims.map Claim.reference = (List.range claims.length).map (secretRef transaction)
  few : claims.length ≤ maxSecretRefs
  backed : ∀ claim ∈ claims, world.secrets claim.reference = some claim.userinfo

/-- References of different numbers are different. -/
theorem secretRef_injective (transaction : String)
    : Function.Injective (secretRef transaction) := by
  intro left right same
  have lists := congrArg String.toList same
  simp only [secretRef, String.toList_append] at lists
  have digits := congrArg (fun digits => Nat.ofDigitChars 10 digits 0)
    (List.append_cancel_left lists)
  simpa [Nat.toString_eq_ofList_toDigits] using digits

namespace Gathered

variable {transaction : String} {kepts : List Kept} {claims : List Claim} {held : Collected}
  {world : HandoffWorld}

theorem empty (transaction : String) (world : HandoffWorld)
    : Gathered transaction [] [] .empty world where
  vars := .rfl
  secretRefs := .rfl
  credentials := rfl
  stored := rfl
  numbered := rfl
  few := Nat.zero_le _
  backed := by simp

theorem named (gathered : Gathered transaction kepts claims held world) {claim : Claim}
    (member : claim ∈ claims)
    : ∃ kept ∈ kepts, kept.name = claim.name ∧ kept.userinfo = some claim.userinfo := by
  have credential : claim.credential ∈ kepts.filterMap Kept.credential := by
    rw [gathered.credentials]
    exact List.mem_map_of_mem member
  obtain ⟨kept, kepts, found⟩ := List.mem_filterMap.mp credential
  obtain ⟨userinfo, held, pair⟩ := Option.map_eq_some_iff.mp found
  obtain ⟨name, info⟩ := Prod.mk.inj pair
  exact ⟨kept, kepts, name, info ▸ held⟩

theorem claimed (gathered : Gathered transaction kepts claims held world) {kept : Kept}
    {userinfo : String} (member : kept ∈ kepts) (found : kept.userinfo = some userinfo)
    : ∃ claim ∈ claims, claim.name = kept.name ∧ claim.userinfo = userinfo := by
  have credential : (kept.name, userinfo) ∈ claims.map Claim.credential := by
    rw [← gathered.credentials]
    exact List.mem_filterMap.mpr ⟨kept, member, by rw [Kept.credential, found]; rfl⟩
  obtain ⟨claim, claims, pair⟩ := List.mem_map.mp credential
  obtain ⟨name, info⟩ := Prod.mk.inj pair
  exact ⟨claim, claims, name, info⟩

theorem names_subset (gathered : Gathered transaction kepts claims held world)
    : claims.map Claim.name ⊆ kepts.map Kept.name := by
  intro name member
  obtain ⟨claim, claims, rfl⟩ := List.mem_map.mp member
  obtain ⟨kept, kepts, same, -⟩ := gathered.named claims
  exact List.mem_map.mpr ⟨kept, kepts, same⟩

theorem next_fresh (gathered : Gathered transaction kepts claims held world)
    : secretRef transaction held.stored.length ∉ claims.map Claim.reference := by
  rw [gathered.stored, gathered.numbered, List.length_map, List.length_range]
  intro member
  obtain ⟨index, below, same⟩ := List.mem_map.mp member
  have bound := List.mem_range.mp below
  rw [secretRef_injective transaction same] at bound
  exact absurd bound (lt_irrefl _)

theorem record (gathered : Gathered transaction kepts claims held world) {kept : Kept}
    (plain : kept.userinfo = none) (fresh : kept.name ∉ kepts.map Kept.name)
    : Gathered transaction (kepts ++ [kept]) claims (held.record kept.name kept.value) world where
  vars := by
    have absent : kept.name ∉ held.vars.entries.map Prod.fst := by
      rw [(gathered.vars.map Prod.fst).mem_iff, List.map_map]
      exact fresh
    rw [List.map_append]
    exact (SortedMaps.insert_perm _ _ _ absent).trans
      ((gathered.vars.cons _).trans (List.perm_append_singleton _ _).symm)
  secretRefs := gathered.secretRefs
  credentials := by
    rw [List.filterMap_append, gathered.credentials]
    simp [Kept.credential, plain]
  stored := gathered.stored
  numbered := gathered.numbered
  few := gathered.few
  backed := gathered.backed

theorem store (gathered : Gathered transaction kepts claims held world) {kept : Kept}
    {userinfo : String} (found : kept.userinfo = some userinfo)
    (fresh : kept.name ∉ kepts.map Kept.name) (room : held.stored.length < maxSecretRefs)
    : let reference := secretRef transaction held.stored.length
      Gathered transaction (kepts ++ [kept]) (claims ++ [⟨kept.name, reference, userinfo⟩])
        ((held.store kept.name reference).record kept.name kept.value)
        (world.holding reference (some userinfo)) := by
  intro reference
  have length : held.stored.length = claims.length := by rw [gathered.stored, List.length_map]
  have unused : kept.name ∉ held.secretRefs.entries.map Prod.fst := by
    rw [(gathered.secretRefs.map Prod.fst).mem_iff, List.map_map]
    exact fun member => fresh (gathered.names_subset member)
  have absent : kept.name ∉ held.vars.entries.map Prod.fst := by
    rw [(gathered.vars.map Prod.fst).mem_iff, List.map_map]
    exact fresh
  refine ⟨?_, ?_, ?_, ?_, ?_, ?_, ?_⟩
  · rw [List.map_append]
    exact (SortedMaps.insert_perm _ _ _ absent).trans
      ((gathered.vars.cons _).trans (List.perm_append_singleton _ _).symm)
  · rw [List.map_append]
    exact (SortedMaps.insert_perm _ _ _ unused).trans
      ((gathered.secretRefs.cons _).trans (List.perm_append_singleton _ _).symm)
  · rw [List.filterMap_append, List.map_append, gathered.credentials]
    simp [Kept.credential, Claim.credential, found]
  · rw [List.map_append, ← gathered.stored]
    rfl
  · rw [List.map_append, gathered.numbered, List.length_append, List.length_singleton,
      List.range_succ, List.map_append, ← length]
    rfl
  · rw [List.length_append, List.length_singleton, ← length]
    exact room
  · intro claim member
    rcases List.mem_append.mp member with old | new
    · have other : claim.reference ≠ reference := by
        intro same
        have member : claim.reference ∈ claims.map Claim.reference := List.mem_map_of_mem old
        rw [same] at member
        exact gathered.next_fresh member
      exact (HandoffWorld.holding_other other).trans (gathered.backed claim old)
    · rw [List.mem_singleton.mp new]
      exact HandoffWorld.holding_self

end Gathered

-- What is left behind

/-- No variable was refused. -/
def Unrefused (ambient : List (OsText × OsText)) : Prop :=
  ∀ pair ∈ ambient, ∀ err, recordingOf pair.1 pair.2 ≠ .refused err

theorem Gathered.of_secrets {transaction : String} {kepts : List Kept} {claims : List Claim}
    {held : Collected} {world after : HandoffWorld}
    (gathered : Gathered transaction kepts claims held world) (same : after.secrets = world.secrets)
    : Gathered transaction kepts claims held after where
  vars := gathered.vars
  secretRefs := gathered.secretRefs
  credentials := gathered.credentials
  stored := gathered.stored
  numbered := gathered.numbered
  few := gathered.few
  backed := same ▸ gathered.backed

/-- Collecting everything gathers what is kept, by induction over the variables. -/
theorem collectEnvironment_gathers (transaction : String) {ambient : List (OsText × OsText)}
    {kepts : List Kept} {claims : List Claim} {held : Collected} {world : HandoffWorld}
    (gathered : Gathered transaction kepts claims held world)
    (distinct : ((kepts ++ ambient.filterMap keptOf).map Kept.name).Nodup)
    : Program.Ensures handoffOutside (fun _ => True)
        (fun outcome final => outcome.1 = .ok () → Unrefused ambient
          ∧ ∃ claims, Gathered transaction (kepts ++ ambient.filterMap keptOf) claims outcome.2 final)
        (collectEnvironment transaction ambient held) world := by
  induction ambient generalizing kepts claims held world with
  | nil =>
      refine ⟨trivial, fun _ => ⟨List.forall_mem_nil _, claims, ?_⟩⟩
      simpa using gathered
  | cons pair rest ih =>
      obtain ⟨name, value⟩ := pair
      rw [collectEnvironment]
      cases recording : recordingOf name value with
      | refused err => exact ⟨trivial, fun same => nomatch same⟩
      | leftOut =>
          have dropped : keptOf (name, value) = none := by rw [keptOf, recording]
          simp only [List.filterMap_cons, dropped] at distinct ⊢
          refine (ih gathered distinct).mono fun outcome final _ reached fine => ?_
          obtain ⟨unrefused, found⟩ := reached fine
          refine ⟨fun other member err => ?_, found⟩
          rcases List.mem_cons.mp member with rfl | member
          · rw [recording]
            exact Recording.noConfusion
          · exact unrefused other member err
      | recorded key kept userinfo =>
          have taken : keptOf (name, value) = some ⟨key, kept, userinfo⟩ := by
            rw [keptOf, recording]
          have accepted : ∀ {outcome : Except UpdateError Unit × Collected} {final : HandoffWorld}
              (rest' : Unrefused rest ∧ ∃ claims, Gathered transaction
                (kepts ++ [⟨key, kept, userinfo⟩] ++ rest.filterMap keptOf) claims outcome.2 final),
              Unrefused ((name, value) :: rest) ∧ ∃ claims, Gathered transaction
                (kepts ++ ((name, value) :: rest).filterMap keptOf) claims outcome.2 final := by
            intro outcome final reached
            obtain ⟨unrefused, found⟩ := reached
            refine ⟨fun other member err => ?_, ?_⟩
            · rcases List.mem_cons.mp member with rfl | member
              · rw [recording]
                exact Recording.noConfusion
              · exact unrefused other member err
            · simpa only [List.filterMap_cons, taken, List.append_assoc, List.singleton_append]
                using found
          have names : ((kepts ++ [(⟨key, kept, userinfo⟩ : Kept)] ++ rest.filterMap keptOf).map
              Kept.name).Nodup := by
            simpa only [List.filterMap_cons, taken, List.append_assoc, List.singleton_append]
              using distinct
          have fresh : key ∉ kepts.map Kept.name := by
            simp only [List.map_append, List.map_cons, List.map_nil] at names
            have first := (List.nodup_append.mp (List.nodup_append.mp names).1).2.2
            exact fun member => first key member key (List.mem_singleton_self _) rfl
          cases userinfo with
          | none =>
              have step := gathered.record (show (Kept.mk key kept none).userinfo = none from rfl) fresh
              exact (ih step names).mono fun outcome final _ reached fine => accepted (reached fine)
          | some userinfo =>
              simp only
              split
              · exact ⟨trivial, fun same => nomatch same⟩
              case isFalse room =>
                have step := gathered.store
                  (show (Kept.mk key kept (some userinfo)).userinfo = some userinfo from rfl) fresh
                  (not_le.mp room)
                refine ⟨trivial, fun _ _ => trivial, fun answer after effect => ?_⟩
                match answer, effect with
                | .error err, _ => exact ⟨trivial, fun same => nomatch same⟩
                | .ok (), .inl same =>
                    rw [same]
                    exact (ih step names).mono fun outcome final _ reached fine =>
                      accepted (reached fine)
                | .ok (), .inr failed => exact absurd rfl failed.1

section Writing

variable (codec : Codec) (coordination : Coordination) (transaction : String)

def documentOf (held : Collected) : ChildEnvironment :=
  ⟨bindingSchema, coordination.installId, transaction, held.vars, held.secretRefs⟩

/-- The record holds a document and the secrets are untouched. -/
structure Recorded (held : Collected) (world after : HandoffWorld) (bytes : List UInt8) : Prop where
  written : codec.toVec (documentOf coordination transaction held) = .ok bytes
  short : bytes.length ≤ environmentLimit
  record : after.record = some bytes
  secrets : after.secrets = world.secrets

theorem discardEnvironment_secrets (world : HandoffWorld)
    : Program.Ensures handoffOutside (fun _ => True) (fun _ after => after.secrets = world.secrets)
        discardEnvironment world := by
  refine ⟨trivial, fun _ _ => trivial, fun answer after effect => ⟨trivial, ?_⟩⟩
  match answer, effect with
  | .ok (), same => rw [same]; rfl
  | .error err, effect =>
      simp only [handoffOutside, HandoffEffect] at effect
      split at effect
      · rw [effect.2]; rfl
      · rw [effect]

/-- Closing the record changes nothing where it succeeds. -/
theorem secureRecord_keeps (world : HandoffWorld)
    : Program.Performs handoffOutside (fun _ => True) (fun _ after => after = world)
        (fun _ _ => True) secureRecord world := by
  have secured : Program.Performs handoffOutside (fun _ => True) (fun _ after => after = world)
      (fun _ _ => True) (do secureNew; verify : Handing Unit) world := by
    refine Program.Performs.bind (fun _ after => after = world) ?_ fun _ after _ same => ?_
    · refine ⟨trivial, fun _ _ => trivial, fun answer after effect => ⟨trivial, ?_⟩⟩
      match answer with
      | .ok () => exact effect
      | .error err => exact trivial
    · refine ⟨trivial, fun _ _ => trivial, fun answer final effect => ⟨trivial, ?_⟩⟩
      match answer with
      | .ok () => exact Eq.trans effect same
      | .error err => exact trivial
  refine Program.Ensures.bind secured fun outcome after _ reached => ?_
  cases outcome with
  | ok value => exact ⟨trivial, reached⟩
  | error err =>
      exact (discardEnvironment_secrets after).bind fun _ _ _ _ => ⟨trivial, trivial⟩

theorem writeEnvironment_records (held : Collected) (world : HandoffWorld)
    : Program.Performs handoffOutside (fun _ => True)
        (fun _ after => ∃ bytes, Recorded codec coordination transaction held world after bytes)
        (fun _ _ => True)
        (writeEnvironment codec coordination transaction held.vars held.secretRefs) world := by
  rw [writeEnvironment]
  refine Program.Performs.bind
    (fun bytes after => codec.toVec (documentOf coordination transaction held) = .ok bytes
      ∧ after.secrets = world.secrets) ?_ fun bytes after _ encoded => ?_
  · refine Program.Performs.settled trivial (fun bytes same => ⟨?_, rfl⟩) fun _ _ => trivial
    cases encoded : codec.toVec (documentOf coordination transaction held) with
    | ok found =>
        rw [documentOf] at encoded
        rw [encoded] at same
        cases same
        rfl
    | error why =>
        rw [documentOf] at encoded
        rw [encoded] at same
        cases same
  · refine Program.Performs.bind (fun _ final => final.secrets = world.secrets) ?_
      fun _ cleared _ secrets => ?_
    · exact (discardEnvironment_secrets after).map fun _ _ _ same => same.trans encoded.2
    · refine Program.Performs.ite (fun _ => ⟨trivial, trivial⟩) fun short => ?_
      refine Program.Performs.bind
        (fun _ final => final.record = some bytes ∧ final.secrets = world.secrets) ?_
        fun _ final _ written => ?_
      · refine ⟨trivial, fun _ _ => trivial, fun answer final effect => ⟨trivial, ?_⟩⟩
        match answer, effect with
        | .ok (), .inl same => exact ⟨by rw [same]; rfl, by rw [same]; exact secrets⟩
        | .ok (), .inr failed => exact absurd rfl failed.1
        | .error err, _ => exact trivial
      · refine (secureRecord_keeps final).mono (fun _ last _ same => ⟨bytes, ?_⟩) fun _ _ _ _ =>
          trivial
        exact ⟨encoded.1, not_lt.mp short, by rw [same]; exact written.1,
          by rw [same]; exact written.2⟩

/-- What a publish that succeeds leaves behind. -/
structure Published (ambient : List (OsText × OsText)) (claims : List Claim) (held : Collected)
    (bytes : List UInt8) (final : HandoffWorld) : Prop where
  unrefused : Unrefused ambient
  gathered : Gathered transaction (ambient.filterMap keptOf) claims held final
  written : codec.toVec (documentOf coordination transaction held) = .ok bytes
  short : bytes.length ≤ environmentLimit
  record : final.record = some bytes

/-- Different names of the parent give different names of the kept variables. -/
theorem kept_names_nodup {ambient : List (OsText × OsText)}
    (distinct : (ambient.map Prod.fst).Nodup)
    : ((ambient.filterMap keptOf).map Kept.name).Nodup := by
  have names : (((ambient.filterMap keptOf).map Kept.name).map OsText.text).Sublist
      (ambient.map Prod.fst) := by
    clear distinct
    induction ambient with
    | nil => exact .slnil
    | cons pair rest ih =>
        cases found : keptOf pair with
        | none =>
            rw [List.filterMap_cons_none found]
            exact ih.cons _
        | some kept =>
            rw [List.filterMap_cons_some found]
            simp only [List.map_cons]
            obtain ⟨original, info, keeps⟩ := keptOf_eq_some_iff.mp found
            rw [keeps.name]
            exact ih.cons_cons _
  exact (names.nodup distinct).of_map _

/-- A publish that succeeds has recorded what it gathered. -/
theorem publish_publishes {ambient : List (OsText × OsText)}
    (distinct : (ambient.map Prod.fst).Nodup) (world : HandoffWorld)
    : Program.Ensures handoffOutside (fun _ => True)
        (fun result final => result = .ok () → ∃ claims held bytes,
          Published codec coordination transaction ambient claims held bytes final)
        (publishEnvironmentWithSecrets codec coordination transaction ambient) world := by
  have names : (([] ++ ambient.filterMap keptOf).map Kept.name).Nodup := kept_names_nodup distinct
  refine (collectEnvironment_gathers transaction (.empty transaction world) names).bind
    fun collected middle _ reached => ?_
  obtain ⟨outcome, held⟩ := collected
  have wrote : Program.Ensures handoffOutside (fun _ => True)
      (fun result final => result = .ok () → ∃ claims held bytes,
        Published codec coordination transaction ambient claims held bytes final)
      (writeCollected codec coordination transaction (outcome, held)) middle := by
    cases outcome with
    | error err => exact ⟨trivial, fun same => nomatch same⟩
    | ok done =>
        obtain ⟨unrefused, claims, gathered⟩ := reached rfl
        refine Program.Ensures.mono
          (writeEnvironment_records codec coordination transaction held middle)
          fun result final _ recorded same => ?_
        cases same
        obtain ⟨bytes, recorded⟩ := recorded
        exact ⟨claims, held, bytes, unrefused, gathered.of_secrets recorded.secrets,
          recorded.written, recorded.short, recorded.record⟩
  refine wrote.bind fun result final _ published => ?_
  cases result with
  | ok done => exact ⟨trivial, published⟩
  | error err =>
      have deleted : Program.Ensures handoffOutside (fun _ => True) (fun _ _ => True)
          (deleteEach held.stored false) final :=
        .anything (fun _ _ _ _ _ _ => trivial) (fun _ _ _ _ _ => trivial) (fun _ _ => trivial) _
          trivial
      exact deleted.bind fun _ _ _ _ => ⟨trivial, fun same => nomatch same⟩

end Writing

end Hane.Update.StateRoot
