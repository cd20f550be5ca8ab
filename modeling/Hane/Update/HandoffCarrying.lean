import Hane.Update.HandoffReading

/-! When a published environment reaches the child as it was, with the userinfo of its proxies kept
out of the record.
-/

namespace Hane.Update.StateRoot

open Hane.Foundations

-- Reading what was published

/-- What a child gets for a kept variable. -/
def Kept.restored (kept : Kept) : String :=
  match kept.userinfo with
  | some userinfo => joinUserinfo kept.value userinfo
  | none => kept.value

/-- A recorded proxy value in which a reader finds no credentials. -/
def Readable (name value : String) : Prop :=
  isProxyUrlVar name = true → splitUserinfo value = .ok (value, none)

instance (name value : String) : Decidable (Readable name value) :=
  inferInstanceAs (Decidable (_ → _))

theorem splitUserinfo_none {value shown : String} (split : splitUserinfo value = .ok (shown, none))
    : shown = value := by
  have whole := cutParts_whole value
  rw [splitUserinfo_eq] at split
  cases found : (cutParts value).userinfo with
  | some userinfo =>
      rw [found] at split
      cases split
  | none =>
      simp only [found] at split
      split at split
      · cases split
      · cases split
        rw [ProxyParts.whole, found] at whole
        exact (congrArg String.ofList whole).trans String.ofList_toList

/-- A reader accepts a kept variable when it finds no credentials in it. -/
theorem checkVar_kept {pair : OsText × OsText} {original : String} {info : Option String}
    {kept : Kept} (keeps : KeptFrom pair original info kept)
    : checkVar kept.name kept.value = .ok () ↔ Readable kept.name kept.value := by
  have fine : ¬(envNameAllowed kept.name = false ∨ envValueOk kept.name kept.value = false) := by
    simp [keeps.allowed, keeps.valid]
  rw [checkVar, if_neg fine, Readable]
  cases split : splitUserinfo kept.value with
  | error err =>
      by_cases proxy : isProxyUrlVar kept.name = true
      · simp [proxy, Except.toOption]
      · simp [proxy]
  | ok parts =>
      obtain ⟨shown, userinfo⟩ := parts
      by_cases proxy : isProxyUrlVar kept.name = true
      · cases userinfo with
        | some userinfo => simp [proxy, Except.toOption]
        | none => simp [proxy, Except.toOption, splitUserinfo_none split]
      · simp [proxy]

def HandoffWorld.secretOf (world : HandoffWorld) (reference : String) : String :=
  (world.secrets reference).getD ""

section Published

variable {codec : Codec} {coordination : Coordination} {transaction : String}
  {ambient : List (OsText × OsText)} {claims : List Claim} {held : Collected}
  {bytes : List UInt8} {final : HandoffWorld}

/-- Every stored secret is of a proxy variable. -/
theorem Published.proxies
    (published : Published codec coordination transaction ambient claims held bytes final)
    {claim : Claim} (member : claim ∈ claims)
    : isProxyUrlVar claim.name = true := by
  obtain ⟨kept, member, same, found⟩ := published.gathered.named member
  obtain ⟨pair, -, kepts⟩ := List.mem_filterMap.mp member
  obtain ⟨original, info, keeps⟩ := keptOf_eq_some_iff.mp kepts
  by_contra plain
  rw [← same] at plain
  have split := keeps.split
  rw [splitValue, if_neg plain] at split
  cases split
  rw [keeps.userinfo] at found
  cases found

theorem Published.references
    (published : Published codec coordination transaction ambient claims held bytes final)
    : (claims.map Claim.reference).Nodup
      ∧ ∀ claim ∈ claims, ∃ index < maxSecretRefs,
        claim.reference = secretRef transaction index := by
  have gathered := published.gathered
  refine ⟨?_, ?_⟩
  · rw [gathered.numbered]
    exact List.nodup_range.map (secretRef_injective transaction)
  · intro claim member
    have listed : claim.reference ∈ claims.map Claim.reference := List.mem_map_of_mem member
    rw [gathered.numbered] at listed
    obtain ⟨index, below, same⟩ := List.mem_map.mp listed
    exact ⟨index, (List.mem_range.mp below).trans_le gathered.few, same.symm⟩

/-- The reader's check of a record whose values are all readable. -/
theorem Published.checked
    (published : Published codec coordination transaction ambient claims held bytes final)
    (readable : ∀ kept ∈ ambient.filterMap keptOf, Readable kept.name kept.value)
    : checkDocument coordination transaction (documentOf coordination transaction held)
        = .ok (held.vars.entries, held.secretRefs) := by
  have gathered := published.gathered
  have vars : checkVars held.vars.entries = .ok () := by
    refine checkVars_ok fun var member => ?_
    obtain ⟨kept, kepts, rfl⟩ := List.mem_map.mp (gathered.vars.mem_iff.mp member)
    obtain ⟨pair, -, found⟩ := List.mem_filterMap.mp kepts
    obtain ⟨original, info, keeps⟩ := keptOf_eq_some_iff.mp found
    exact (checkVar_kept keeps).mpr (readable kept kepts)
  have entries : ∀ entry ∈ held.secretRefs.entries, ∃ claim ∈ claims, claim.entry = entry :=
    fun entry member => List.mem_map.mp (gathered.secretRefs.mem_iff.mp member)
  have refs : checkRefs transaction held.vars.entries held.secretRefs.entries = .ok () := by
    refine checkRefs_ok ?_ ?_ ?_
    · intro entry member
      obtain ⟨claim, stored, rfl⟩ := entries entry member
      obtain ⟨kept, kepts, same, -⟩ := gathered.named stored
      rw [(gathered.vars.map Prod.fst).mem_iff, List.map_map]
      exact List.mem_map.mpr ⟨kept, kepts, same⟩
    · intro entry member
      obtain ⟨claim, stored, rfl⟩ := entries entry member
      exact published.proxies stored
    · intro entry member
      obtain ⟨claim, stored, rfl⟩ := entries entry member
      obtain ⟨index, few, same⟩ := published.references.2 claim stored
      rw [Claim.entry, same]
      exact secretRefOk_secretRef transaction few
  simp [checkDocument, documentOf, vars, refs, Bind.bind, Except.bind, Pure.pure, Except.pure]

theorem Published.refused
    (published : Published codec coordination transaction ambient claims held bytes final)
    {kept : Kept} (member : kept ∈ ambient.filterMap keptOf)
    (unreadable : ¬Readable kept.name kept.value)
    : ∃ err, checkDocument coordination transaction (documentOf coordination transaction held)
        = .error err := by
  obtain ⟨pair, -, kepts⟩ := List.mem_filterMap.mp member
  obtain ⟨original, info, keeps⟩ := keptOf_eq_some_iff.mp kepts
  have recorded : kept.var ∈ held.vars.entries :=
    published.gathered.vars.mem_iff.mpr (List.mem_map_of_mem member)
  obtain ⟨err, failed⟩ := checkVars_error recorded
    (fun fine => unreadable ((checkVar_kept keeps).mp fine))
  refine ⟨err, ?_⟩
  simp [checkDocument, documentOf, failed, Bind.bind, Except.bind]

theorem Published.restores
    (published : Published codec coordination transaction ambient claims held bytes final)
    (distinct : ((ambient.filterMap keptOf).map Kept.name).Nodup) {kept : Kept}
    (member : kept ∈ ambient.filterMap keptOf)
    : restoredBy held.secretRefs.entries final.secretOf kept.var = (kept.name, kept.restored) := by
  have gathered := published.gathered
  have lookup : ∀ reference, held.secretRefs.entries.lookup kept.name = some reference
      ↔ (kept.name, reference) ∈ held.secretRefs.entries :=
    fun _ => SortedMaps.lookup_eq_some_iff held.secretRefs.nodup_keys
  cases found : kept.userinfo with
  | some userinfo =>
      obtain ⟨claim, stored, same, info⟩ := gathered.claimed member found
      have entry : (kept.name, claim.reference) ∈ held.secretRefs.entries := by
        rw [← same, gathered.secretRefs.mem_iff]
        exact List.mem_map_of_mem stored
      have looked := (lookup claim.reference).mpr entry
      simp only [restoredBy, Kept.var, looked, HandoffWorld.secretOf,
        gathered.backed claim stored, info, Kept.restored, found, Option.getD_some]
  | none =>
      have looked : held.secretRefs.entries.lookup kept.name = none := by
        cases looked : held.secretRefs.entries.lookup kept.name with
        | none => rfl
        | some reference =>
            have entry := gathered.secretRefs.mem_iff.mp ((lookup reference).mp looked)
            obtain ⟨claim, stored, same⟩ := List.mem_map.mp entry
            obtain ⟨other, others, name, info⟩ := gathered.named stored
            have one : other = kept := List.inj_on_of_nodup_map distinct others member
              (name.trans (Prod.mk.inj same).1)
            rw [one, found] at info
            cases info
      simp only [restoredBy, Kept.var, looked, Kept.restored, found]

variable (environmentPath : String)

/-- A working read of readable values gives each with its userinfo; when a secret was stored, the
next read fails.
-/
theorem Published.read
    (published : Published codec coordination transaction ambient claims held bytes final)
    (roundTrips : codec.RoundTrips)
    (distinct : ((ambient.filterMap keptOf).map Kept.name).Nodup)
    (readable : ∀ kept ∈ ambient.filterMap keptOf, Readable kept.name kept.value)
    : ∃ found after,
        Program.run working (ExceptT.run
          (readEnvironmentWithSecrets codec coordination transaction environmentPath)) final
          = (.ok found, after)
        ∧ found.Perm ((ambient.filterMap keptOf).map fun kept => (kept.name, kept.restored))
        ∧ (held.secretRefs.entries ≠ [] → ∃ err,
          (Program.run working (ExceptT.run
            (readEnvironmentWithSecrets codec coordination transaction environmentPath)) after).1
            = .error err) := by
  have gathered := published.gathered
  have parsed := roundTrips _ _ published.written
  have checked := published.checked readable
  have loads : ∀ world : HandoffWorld, world.record = some bytes → Program.run working
      (ExceptT.run (loadEnvironment codec coordination transaction environmentPath)) world
      = (.ok (held.vars.entries, held.secretRefs), world) := fun world record => by
    rw [loadEnvironment_run codec coordination transaction environmentPath record published.short
      parsed, checked]
  have references : (held.secretRefs.entries.map Prod.snd).Nodup := by
    rw [(gathered.secretRefs.map Prod.snd).nodup_iff, List.map_map]
    exact published.references.1
  have backed : ∀ entry ∈ held.secretRefs.entries,
      final.secrets entry.2 = some (final.secretOf entry.2) := by
    intro entry member
    obtain ⟨claim, stored, rfl⟩ := List.mem_map.mp (gathered.secretRefs.mem_iff.mp member)
    rw [Claim.entry, HandoffWorld.secretOf, gathered.backed claim stored]
    rfl
  obtain ⟨after, ran, record, gone, -⟩ := claimSecrets_run final.secretOf references
    held.vars.entries false backed
  rw [foldl_restoreUserinfo _ held.secretRefs.nodup_keys held.vars.nodup_keys] at ran
  refine ⟨held.vars.entries.map (restoredBy held.secretRefs.entries final.secretOf), after, ?_, ?_,
    fun stored => ?_⟩
  · refine (Program.run_attempt_ok (loads final published.record)).trans ?_
    rw [restoreAll, ExceptT.run_mk, Program.run_bind, ran]
    rfl
  · refine (gathered.vars.map _).trans ?_
    rw [List.map_map]
    exact .of_eq (List.map_congr_left fun kept member => published.restores distinct member)
  · refine ⟨secretStoreUnavailable, ?_⟩
    refine (congrArg Prod.fst
      (Program.run_attempt_ok (loads after (record.trans published.record)))).trans ?_
    rw [restoreAll, ExceptT.run_mk, Program.run_bind, claimSecrets_missing _ _ gone]
    have some' : (!held.secretRefs.entries.isEmpty) = true := by simpa using stored
    simp only [some', Bool.or_true, if_true]
    rfl

theorem Published.read_refused
    (published : Published codec coordination transaction ambient claims held bytes final)
    (roundTrips : codec.RoundTrips) {kept : Kept} (member : kept ∈ ambient.filterMap keptOf)
    (unreadable : ¬Readable kept.name kept.value)
    : ∃ err, Program.run working (ExceptT.run
        (readEnvironmentWithSecrets codec coordination transaction environmentPath)) final
        = (.error err, final) := by
  obtain ⟨err, failed⟩ := published.refused member unreadable
  have loaded := loadEnvironment_run codec coordination transaction environmentPath
    published.record published.short (roundTrips _ _ published.written)
  rw [failed] at loaded
  exact ⟨err, Program.run_attempt_error loaded⟩

end Published

-- One variable

/-- There is a text before the last `@` of the authority. -/
def HasUserinfo (value : String) : Prop :=
  ∃ userinfo, (urlParts value).userinfo = some userinfo ∧ userinfo ≠ []

/-- The same value, but that an empty userinfo may be dropped with its `@`. -/
def SameValue (name original value : String) : Prop :=
  value = original ∨ (isProxyUrlVar name = true ∧ (urlParts original).userinfo = some []
    ∧ value = String.ofList (urlParts original).shown)

/-- A proxy value that survives the handoff: it is valid with its userinfo just when it is without,
what is left has no `@` after its authority, and no mark of a scheme hides an `@` from the cut.
-/
def Survives (name original : String) : Prop :=
  ∀ shown info, splitUserinfo original = .ok (shown, info)
    → envValueOk name original = envValueOk name shown
      ∧ (envValueOk name shown = true
        → splitUserinfo shown = .ok (shown, none)
          ∧ (Misread original → ¬HasUserinfo original ∧ info ≠ some ""))

theorem splitUserinfo_ok {value shown : String} {info : Option String}
    (split : splitUserinfo value = .ok (shown, info))
    : shown = String.ofList (cutParts value).shown
      ∧ info = (cutParts value).userinfo.map String.ofList := by
  rw [splitUserinfo_eq] at split
  cases found : (cutParts value).userinfo with
  | some userinfo =>
      rw [found] at split
      cases split
      exact ⟨rfl, rfl⟩
  | none =>
      simp only [found] at split
      split at split
      · cases split
      · cases split
        exact ⟨rfl, rfl⟩

namespace KeptFrom

variable {pair : OsText × OsText} {original : String} {info : Option String} {kept : Kept}

theorem plain (keeps : KeptFrom pair original info kept) (plain : ¬isProxyUrlVar kept.name = true)
    : kept.value = original ∧ kept.restored = original := by
  have split := keeps.split
  rw [splitValue, if_neg plain] at split
  obtain ⟨value, none'⟩ := Prod.mk.inj (Except.ok.inj split)
  have userinfo := keeps.userinfo
  rw [← none'] at userinfo
  exact ⟨value.symm, by rw [Kept.restored, userinfo, value]; rfl⟩

theorem proxy (keeps : KeptFrom pair original info kept) (proxy : isProxyUrlVar kept.name = true)
    : splitUserinfo original = .ok (kept.value, info) := by
  have split := keeps.split
  rwa [splitValue, if_pos proxy] at split

/-- Only an empty userinfo is not restored. -/
theorem restored (keeps : KeptFrom pair original info kept) (proxy : isProxyUrlVar kept.name = true)
    : kept.restored = if info = some "" then kept.value else original := by
  have split := keeps.proxy proxy
  obtain ⟨value, cut⟩ := splitUserinfo_ok split
  cases found : (cutParts original).userinfo with
  | none =>
      rw [found] at cut
      subst cut
      rw [splitUserinfo_none split]
      simp [Kept.restored, keeps.userinfo, splitUserinfo_none split]
  | some userinfo =>
      rw [found] at cut
      subst cut
      by_cases empty : String.ofList userinfo = ""
      · simp [Kept.restored, keeps.userinfo, empty, Option.filter]
      · have joined := joinUserinfo_cut found
        rw [← value] at joined
        simp only [Kept.restored, keeps.userinfo, Option.map_some, Option.filter, empty, ne_eq,
          not_false_eq_true, decide_true, if_true, Option.some.injEq, if_false, joined]

theorem sealed_iff (keeps : KeptFrom pair original info kept)
    (proxy : isProxyUrlVar kept.name = true)
    : (HasUserinfo original → kept.value = String.ofList (urlParts original).shown)
      ↔ (Misread original → ¬HasUserinfo original) := by
  obtain ⟨value, -⟩ := splitUserinfo_ok (keeps.proxy proxy)
  by_cases misread : Misread original
  · refine ⟨fun closed _ has => ?_, fun without has => absurd has (without misread)⟩
    have same := closed has
    obtain ⟨userinfo, found, -⟩ := has
    rw [value] at same
    exact shown_ne_of_misread misread found (String.ofList_injective same)
  · refine ⟨fun _ read => absurd read misread, fun _ _ => ?_⟩
    rw [value, cutParts_eq_urlParts misread]

theorem sameValue_iff (keeps : KeptFrom pair original info kept)
    (proxy : isProxyUrlVar kept.name = true)
    : SameValue kept.name original kept.restored ↔ (Misread original → info ≠ some "") := by
  obtain ⟨value, cut⟩ := splitUserinfo_ok (keeps.proxy proxy)
  rw [keeps.restored proxy]
  by_cases empty : info = some ""
  · rw [if_pos empty]
    have found : (cutParts original).userinfo = some [] := by
      rw [empty] at cut
      obtain ⟨userinfo, found, none⟩ := Option.map_eq_some_iff.mp cut.symm
      rw [found, String.ofList_injective (none.trans String.ofList_nil.symm)]
    by_cases misread : Misread original
    · refine ⟨fun same _ _ => ?_, fun differ => absurd empty (differ misread)⟩
      rcases same with same | ⟨-, url, same⟩
      · have whole := cutParts_whole original
        have left : original.toList = (cutParts original).shown := by
          rw [← String.toList_ofList (l := (cutParts original).shown), ← value, same]
        rw [ProxyParts.whole, found, left] at whole
        have lengths := congrArg List.length whole
        simp [ProxyParts.shown] at lengths
      · rw [value] at same
        exact shown_ne_of_misread misread url (String.ofList_injective same)
    · refine ⟨fun _ read => absurd read misread, fun _ => .inr ⟨proxy, ?_, ?_⟩⟩
      · rw [← cutParts_eq_urlParts misread, found]
      · rw [value, cutParts_eq_urlParts misread]
  · rw [if_neg empty]
    exact ⟨fun _ _ => empty, fun _ => .inl rfl⟩

end KeptFrom

-- What a handoff is for

/-- The parent has a variable with this text. -/
def Given (ambient : List (OsText × OsText)) (name value : String) : Prop :=
  (.text name, .text value) ∈ ambient

/-- The record says nothing of the userinfo of a proxy: of each such value it has what is left, and
its references are numbers.
-/
structure Sealed (coordination : Coordination) (transaction : String)
    (ambient : List (OsText × OsText)) (document : ChildEnvironment) : Prop where
  ids : document.installId = coordination.installId ∧ document.transactionId = transaction
  vars : ∀ name original value, Given ambient name original → isProxyUrlVar name = true
    → (name, value) ∈ document.vars.entries → HasUserinfo original
    → value = String.ofList (urlParts original).shown
  secretRefs : ∀ entry ∈ document.secretRefs.entries,
    ∃ index, entry.2 = secretRef transaction index

/-- Exactly the allowed and valid variables, each once and with its value. -/
structure Restored (ambient : List (OsText × OsText)) (found : List (String × String)) : Prop where
  only : ∀ name value, (name, value) ∈ found → ∃ original, Given ambient name original
    ∧ envNameAllowed name = true ∧ envValueOk name original = true ∧ SameValue name original value
  all : ∀ name original, Given ambient name original → envNameAllowed name = true
    → envValueOk name original = true → ∃ value, (name, value) ∈ found
      ∧ SameValue name original value
  once : (found.map Prod.fst).Nodup

/-- The record is free of userinfo, a working read gives the child its variables, and when a secret
was stored the next read fails.
-/
def HandsOver (codec : Codec) (coordination : Coordination) (transaction environmentPath : String)
    (ambient : List (OsText × OsText)) (world : HandoffWorld) : Prop :=
  let read := ExceptT.run
    (readEnvironmentWithSecrets codec coordination transaction environmentPath)
  ∃ document bytes, world.record = some bytes ∧ codec.toVec document = .ok bytes
    ∧ Sealed coordination transaction ambient document
    ∧ ∃ found after, Program.run working read world = (.ok found, after) ∧ Restored ambient found
      ∧ (document.secretRefs.entries ≠ []
        → ∃ err, (Program.run working read after).1 = .error err)

theorem given_unique {ambient : List (OsText × OsText)} (distinct : (ambient.map Prod.fst).Nodup)
    {name first second : String} (given : Given ambient name first)
    (given' : Given ambient name second)
    : first = second := by
  have same := List.inj_on_of_nodup_map distinct given given' rfl
  injection (Prod.mk.inj same).2

theorem envNameAllowed_of_proxy {name : String} (proxy : isProxyUrlVar name = true)
    : envNameAllowed name = true := by
  obtain ⟨listed, member, same⟩ := List.any_eq_true.mp proxy
  have sub : ∀ name ∈ proxyUrlVars, name ∈ childEnvAllowlist := by decide
  exact List.any_eq_true.mpr ⟨listed, sub listed member, same⟩

theorem KeptFrom.given {ambient : List (OsText × OsText)} {pair : OsText × OsText}
    {original : String} {info : Option String} {kept : Kept}
    (keeps : KeptFrom pair original info kept) (member : pair ∈ ambient)
    : Given ambient kept.name original := by
  obtain ⟨name, value⟩ := pair
  have names := keeps.name
  have values := keeps.value
  simp only at names values
  rw [names, values] at member
  exact member

theorem Unrefused.keeps {ambient : List (OsText × OsText)} (unrefused : Unrefused ambient)
    {name original : String} (given : Given ambient name original)
    (allowed : envNameAllowed name = true)
    : ∃ shown info, splitValue name original = .ok (shown, info)
      ∧ (envValueOk name shown = true → ∃ kept ∈ ambient.filterMap keptOf,
        kept.name = name ∧ kept.value = shown
          ∧ KeptFrom (.text name, .text original) original info kept) := by
  cases split : splitValue name original with
  | error err =>
      rw [splitValue] at split
      refine absurd ?_ (unrefused _ given err)
      simp only [recordingOf, OsText.intoString, allowed, Bool.true_eq_false, if_false, split]
  | ok parts =>
      obtain ⟨shown, info⟩ := parts
      refine ⟨shown, info, rfl, fun valid => ?_⟩
      have keeps : KeptFrom (.text name, .text original) original info
          ⟨name, shown, info.filter (· ≠ "")⟩ := ⟨rfl, rfl, allowed, split, valid, rfl⟩
      exact ⟨_, List.mem_filterMap.mpr ⟨_, given, keptOf_eq_some_iff.mpr ⟨_, _, keeps⟩⟩, rfl, rfl,
        keeps⟩

section HandsOver

variable {codec : Codec} {coordination : Coordination} {transaction environmentPath : String}
  {ambient : List (OsText × OsText)} {claims : List Claim} {held : Collected}
  {bytes : List UInt8} {final : HandoffWorld}

/-- When every proxy value survives, the handoff carries everything over. -/
theorem Published.handsOver
    (published : Published codec coordination transaction ambient claims held bytes final)
    (roundTrips : codec.RoundTrips) (distinct : (ambient.map Prod.fst).Nodup)
    (survives : ∀ name original, Given ambient name original → isProxyUrlVar name = true
      → Survives name original)
    : HandsOver codec coordination transaction environmentPath ambient final := by
  have names := kept_names_nodup distinct
  have gathered := published.gathered
  have origin : ∀ kept ∈ ambient.filterMap keptOf, ∃ pair original info,
      KeptFrom pair original info kept ∧ Given ambient kept.name original := by
    intro kept member
    obtain ⟨pair, pairs, kepts⟩ := List.mem_filterMap.mp member
    obtain ⟨original, info, keeps⟩ := keptOf_eq_some_iff.mp kepts
    exact ⟨pair, original, info, keeps, keeps.given pairs⟩
  have readable : ∀ kept ∈ ambient.filterMap keptOf, Readable kept.name kept.value := by
    intro kept member proxy
    obtain ⟨pair, original, info, keeps, given⟩ := origin kept member
    exact ((survives _ _ given proxy _ _ (keeps.proxy proxy)).2 keeps.valid).1
  have same : ∀ {pair original info kept}, KeptFrom pair original info kept
      → Given ambient kept.name original → envValueOk kept.name original = true
        ∧ SameValue kept.name original kept.restored := by
    intro pair original info kept keeps given
    by_cases proxy : isProxyUrlVar kept.name = true
    · have fine := survives _ _ given proxy _ _ (keeps.proxy proxy)
      refine ⟨fine.1.trans keeps.valid, (keeps.sameValue_iff proxy).mpr fun misread => ?_⟩
      exact ((fine.2 keeps.valid).2 misread).2
    · have plain := keeps.plain proxy
      exact ⟨plain.1 ▸ keeps.valid, .inl plain.2⟩
  obtain ⟨found, after, read, perm, again⟩ :=
    published.read environmentPath roundTrips names readable
  refine ⟨documentOf coordination transaction held, bytes, published.record, published.written,
    ⟨⟨rfl, rfl⟩, ?_, ?_⟩, found, after, read, ⟨?_, ?_, ?_⟩, again⟩
  · intro name original value given proxy recorded has
    obtain ⟨kept, member, pair⟩ := List.mem_map.mp (gathered.vars.mem_iff.mp recorded)
    obtain ⟨rfl, rfl⟩ := Prod.mk.inj pair
    obtain ⟨pair, other, info, keeps, given'⟩ := origin kept member
    cases given_unique distinct given given'
    have fine := survives _ _ given proxy _ _ (keeps.proxy proxy)
    exact (keeps.sealed_iff proxy).mpr
      (fun misread => ((fine.2 keeps.valid).2 misread).1) has
  · intro entry member
    obtain ⟨claim, stored, rfl⟩ := List.mem_map.mp (gathered.secretRefs.mem_iff.mp member)
    obtain ⟨index, -, numbered⟩ := published.references.2 claim stored
    exact ⟨index, numbered⟩
  · intro name value member
    obtain ⟨kept, kepts, pair⟩ := List.mem_map.mp (perm.mem_iff.mp member)
    obtain ⟨rfl, rfl⟩ := Prod.mk.inj pair
    obtain ⟨pair, original, info, keeps, given⟩ := origin kept kepts
    exact ⟨original, given, keeps.allowed, same keeps given⟩
  · intro name original given allowed valid
    obtain ⟨shown, info, split, keep⟩ := published.unrefused.keeps given allowed
    have left : envValueOk name shown = true := by
      by_cases proxy : isProxyUrlVar name = true
      · rw [splitValue, if_pos proxy] at split
        exact (survives _ _ given proxy _ _ split).1.symm.trans valid
      · rw [splitValue, if_neg proxy] at split
        cases split
        exact valid
    obtain ⟨kept, member, rfl, rfl, keeps⟩ := keep left
    exact ⟨kept.restored, perm.mem_iff.mpr (List.mem_map.mpr ⟨kept, member, rfl⟩),
      (same keeps given).2⟩
  · rw [(perm.map Prod.fst).nodup_iff, List.map_map]
    exact names

/-- A handoff that carries everything over has only proxy values that survive. -/
theorem Published.survives
    (published : Published codec coordination transaction ambient claims held bytes final)
    (roundTrips : codec.RoundTrips) (distinct : (ambient.map Prod.fst).Nodup)
    (handsOver : HandsOver codec coordination transaction environmentPath ambient final)
    {name original : String} (given : Given ambient name original)
    (proxy : isProxyUrlVar name = true)
    : Survives name original := by
  obtain ⟨document, recorded, record, written, closed, found, after, read, restored, -⟩ := handsOver
  have names := kept_names_nodup distinct
  have document' : document = documentOf coordination transaction held := by
    rw [published.record] at record
    cases record
    have parsed := roundTrips _ _ written
    rw [roundTrips _ _ published.written] at parsed
    cases parsed
    rfl
  have readable : ∀ kept ∈ ambient.filterMap keptOf, Readable kept.name kept.value := by
    intro kept member
    by_contra unreadable
    obtain ⟨err, failed⟩ :=
      published.read_refused environmentPath roundTrips member unreadable
    rw [failed] at read
    cases read
  obtain ⟨found', after', read', perm, -⟩ :=
    published.read environmentPath roundTrips names readable
  rw [read] at read'
  cases read'
  intro shown info split
  obtain ⟨cut, info', value, keep⟩ :=
    published.unrefused.keeps given (envNameAllowed_of_proxy proxy)
  rw [splitValue, if_pos proxy, split] at value
  cases value
  by_cases left : envValueOk name shown = true
  · obtain ⟨kept, member, rfl, rfl, keeps⟩ := keep left
    have returned : (kept.name, kept.restored) ∈ found :=
      perm.mem_iff.mpr (List.mem_map.mpr ⟨kept, member, rfl⟩)
    obtain ⟨other, given', -, valid, same⟩ := restored.only _ _ returned
    cases given_unique distinct given given'
    refine ⟨valid.trans left.symm, fun _ => ⟨readable kept member proxy, fun misread => ⟨?_, ?_⟩⟩⟩
    · refine (keeps.sealed_iff proxy).mp (fun has => ?_) misread
      refine closed.vars _ _ _ given proxy ?_ has
      rw [document']
      exact published.gathered.vars.mem_iff.mpr (List.mem_map_of_mem member)
    · exact (keeps.sameValue_iff proxy).mp same misread
  · refine ⟨?_, fun valid => absurd valid left⟩
    rw [Bool.eq_false_of_not_eq_true left, Bool.eq_false_iff]
    intro valid
    obtain ⟨value, returned, -⟩ :=
      restored.all _ _ given (envNameAllowed_of_proxy proxy) valid
    obtain ⟨kept, member, pair⟩ := List.mem_map.mp (perm.mem_iff.mp returned)
    obtain ⟨rfl, -⟩ := Prod.mk.inj pair
    obtain ⟨source, sources, kepts⟩ := List.mem_filterMap.mp member
    obtain ⟨other, info, keeps⟩ := keptOf_eq_some_iff.mp kepts
    cases given_unique distinct given (keeps.given sources)
    have value := keeps.proxy proxy
    rw [split] at value
    cases value
    exact left keeps.valid

end HandsOver

end Hane.Update.StateRoot
