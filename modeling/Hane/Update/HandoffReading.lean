import Hane.Update.HandoffPublish

/-! What a child reads of a published record when nothing fails, and what it reads the second time.
-/

namespace Hane.Update.StateRoot

open Hane.Foundations

-- Claiming the secrets

/-- A variable with the userinfo that its reference stands for. -/
def restoredBy (refs : List (String × String)) (info : String → String) (var : String × String)
    : String × String :=
  match refs.lookup var.1 with
  | some reference => (var.1, joinUserinfo var.2 (info reference))
  | none => var

/-- Of variables with different names one is changed, by induction over them. -/
theorem restoreUserinfo_eq (name userinfo : String) {vars : List (String × String)}
    (distinct : (vars.map Prod.fst).Nodup)
    : restoreUserinfo name userinfo vars
        = vars.map fun var =>
            if var.1 = name then (var.1, joinUserinfo var.2 userinfo) else var := by
  induction vars with
  | nil => rfl
  | cons pair rest ih =>
      obtain ⟨key, value⟩ := pair
      simp only [List.map_cons, List.nodup_cons] at distinct
      by_cases same : key = name
      · have others : rest.map (fun var =>
            if var.1 = name then (var.1, joinUserinfo var.2 userinfo) else var) = rest := by
          refine (List.map_congr_left fun var member => if_neg fun again => ?_).trans
            (List.map_id rest)
          exact distinct.1 (List.mem_map.mpr ⟨var, member, again.trans same.symm⟩)
        rw [restoreUserinfo, if_pos same, List.map_cons, if_pos same, others]
      · rw [restoreUserinfo, if_neg same, List.map_cons, if_neg same, ih distinct.2]

theorem map_fst_restoreUserinfo (name userinfo : String) (vars : List (String × String))
    : (restoreUserinfo name userinfo vars).map Prod.fst = vars.map Prod.fst := by
  induction vars with
  | nil => rfl
  | cons pair rest ih =>
      obtain ⟨key, value⟩ := pair
      by_cases same : key = name
      · simp only [restoreUserinfo, if_pos same, List.map_cons]
      · simp only [restoreUserinfo, if_neg same, List.map_cons, ih]

/-- Restoring one userinfo after another restores each variable once, by induction over the
references.
-/
theorem foldl_restoreUserinfo (info : String → String) {refs vars : List (String × String)}
    (names : (refs.map Prod.fst).Nodup) (distinct : (vars.map Prod.fst).Nodup)
    : refs.foldl (fun vars entry => restoreUserinfo entry.1 (info entry.2) vars) vars
        = vars.map (restoredBy refs info) := by
  induction refs generalizing vars with
  | nil =>
      have same : (restoredBy [] info) = id := by
        funext var
        rfl
      simp [same]
  | cons entry rest ih =>
      obtain ⟨name, reference⟩ := entry
      simp only [List.map_cons, List.nodup_cons] at names
      have kept := map_fst_restoreUserinfo name (info reference) vars
      rw [List.foldl_cons, ih names.2 (kept ▸ distinct), restoreUserinfo_eq _ _ distinct,
        List.map_map]
      refine List.map_congr_left fun var _ => ?_
      have once : rest.lookup name = none := by
        rw [List.lookup_eq_none_iff]
        intro other member
        have differ : name ≠ other.1 := fun same =>
          names.1 (List.mem_map.mpr ⟨other, member, same.symm⟩)
        simpa using differ
      by_cases same : var.1 = name
      · simp [restoredBy, same, once]
      · have differ : (var.1 == name) = false := by simpa using same
        simp [restoredBy, same, List.lookup_cons, differ]

/-- When every secret is there, each is taken once and its variable restored, by induction over
the references.
-/
theorem claimSecrets_run (info : String → String) {refs : List (String × String)}
    (references : (refs.map Prod.snd).Nodup) (vars : List (String × String)) (failed : Bool)
    {world : HandoffWorld}
    (held : ∀ entry ∈ refs, world.secrets entry.2 = some (info entry.2))
    : ∃ after, Program.run working (claimSecrets refs vars failed) world
          = ((refs.foldl (fun vars entry => restoreUserinfo entry.1 (info entry.2) vars) vars,
              failed), after)
        ∧ after.record = world.record
        ∧ (∀ entry ∈ refs, after.secrets entry.2 = none)
        ∧ ∀ reference, reference ∉ refs.map Prod.snd
          → after.secrets reference = world.secrets reference := by
  induction refs generalizing vars world with
  | nil => exact ⟨world, rfl, rfl, List.forall_mem_nil _, fun _ _ => rfl⟩
  | cons entry rest ih =>
      obtain ⟨name, reference⟩ := entry
      simp only [List.map_cons, List.nodup_cons] at references
      have first : world.secrets reference = some (info reference) := held _ List.mem_cons_self
      have others : ∀ entry ∈ rest,
          (world.holding reference none).secrets entry.2 = some (info entry.2) := by
        intro entry member
        have other : entry.2 ≠ reference := fun same =>
          references.1 (same ▸ List.mem_map_of_mem member)
        exact (HandoffWorld.holding_other other).trans (held entry (List.mem_cons_of_mem _ member))
      obtain ⟨after, ran, record, gone, kept⟩ := ih references.2
        (restoreUserinfo name (info reference) vars) others
      refine ⟨after, ?_, record, ?_, ?_⟩
      · have taken : working world (.take reference)
            = (.ok (some (info reference)), world.holding reference none) := by
          simp only [working, first]
        exact (Program.run_request_bind taken).trans ran
      · intro entry member
        rcases List.mem_cons.mp member with rfl | member
        · exact (kept reference references.1).trans HandoffWorld.holding_self
        · exact gone entry member
      · intro other fresh
        simp only [List.map_cons, List.mem_cons, not_or] at fresh
        exact (kept other fresh.2).trans (HandoffWorld.holding_other fresh.1)

/-- When no secret is there, the claim fails as soon as one is referenced, by induction over the
references.
-/
theorem claimSecrets_missing {refs : List (String × String)} (vars : List (String × String))
    (failed : Bool) {world : HandoffWorld} (gone : ∀ entry ∈ refs, world.secrets entry.2 = none)
    : Program.run working (claimSecrets refs vars failed) world
        = ((vars, failed || !refs.isEmpty), world) := by
  induction refs generalizing failed with
  | nil => simp [claimSecrets, Pure.pure, Program.run]
  | cons entry rest ih =>
      obtain ⟨name, reference⟩ := entry
      have first : world.secrets reference = none := gone _ List.mem_cons_self
      have taken : working world (.take reference) = (.ok none, world) := by
        simp only [working, first]
      refine (Program.run_request_bind taken).trans ?_
      refine (ih true fun entry member => gone entry (List.mem_cons_of_mem _ member)).trans ?_
      simp

-- Checking the record

theorem checkVars_ok {vars : List (String × String)}
    (fine : ∀ var ∈ vars, checkVar var.1 var.2 = .ok ())
    : checkVars vars = .ok () := by
  induction vars with
  | nil => rfl
  | cons pair rest ih =>
      obtain ⟨name, value⟩ := pair
      have first : checkVar name value = .ok () := fine (name, value) List.mem_cons_self
      rw [checkVars, first]
      exact ih fun var member => fine var (List.mem_cons_of_mem _ member)

/-- One bad variable fails the check, by induction over the variables. -/
theorem checkVars_error {vars : List (String × String)} {var : String × String}
    (member : var ∈ vars) (bad : checkVar var.1 var.2 ≠ .ok ())
    : ∃ err, checkVars vars = .error err := by
  induction vars with
  | nil => cases member
  | cons pair rest ih =>
      obtain ⟨name, value⟩ := pair
      cases first : checkVar name value with
      | error err => exact ⟨err, by rw [checkVars, first]; rfl⟩
      | ok done =>
          rcases List.mem_cons.mp member with rfl | member
          · exact absurd first bad
          · obtain ⟨err, failed⟩ := ih member
            exact ⟨err, by rw [checkVars, first]; exact failed⟩

theorem checkRefs_ok {transaction : String} {vars refs : List (String × String)}
    (known : ∀ entry ∈ refs, entry.1 ∈ vars.map Prod.fst)
    (proxies : ∀ entry ∈ refs, isProxyUrlVar entry.1 = true)
    (references : ∀ entry ∈ refs, secretRefOk transaction entry.2 = true)
    : checkRefs transaction vars refs = .ok () := by
  induction refs with
  | nil => rfl
  | cons entry rest ih =>
      obtain ⟨name, reference⟩ := entry
      have present : (vars.any fun pair => pair.1 == name) = true := by
        obtain ⟨var, member, same⟩ := List.mem_map.mp (known (name, reference) List.mem_cons_self)
        exact List.any_eq_true.mpr ⟨var, member, beq_iff_eq.mpr same⟩
      have proxy : isProxyUrlVar name = true := proxies (name, reference) List.mem_cons_self
      have right : secretRefOk transaction reference = true :=
        references (name, reference) List.mem_cons_self
      rw [checkRefs, present, proxy, right]
      exact ih (fun entry member => known entry (List.mem_cons_of_mem _ member))
        (fun entry member => proxies entry (List.mem_cons_of_mem _ member))
        fun entry member => references entry (List.mem_cons_of_mem _ member)

theorem isPrefixOf?_append {α : Type} [DecidableEq α] (front rest : List α)
    : front.isPrefixOf? (front ++ rest) = some rest := by
  induction front with
  | nil => rfl
  | cons item others ih => simp [List.isPrefixOf?, ih]

theorem secretRefOk_secretRef (transaction : String) {index : Nat} (few : index < maxSecretRefs)
    : secretRefOk transaction (secretRef transaction index) = true := by
  have whole : (secretRef transaction index).toList
      = transaction.toList ++ '.' :: (toString index).toList := by
    simp [secretRef]
  have digit : ∀ index < 8, (toString index).toList ≠ []
      ∧ (String.ofList (toString index).toList).utf8ByteSize ≤ 4
      ∧ (toString index).toList.all Char.isDigit = true := by decide +kernel
  obtain ⟨some', short, digits⟩ := digit index few
  rw [secretRefOk, whole, isPrefixOf?_append]
  simp only [short, digits, decide_true, Bool.and_true]
  exact decide_eq_true some'

section Loading

variable (codec : Codec) (coordination : Coordination) (transaction environmentPath : String)

theorem loadEnvironment_run {world : HandoffWorld} {bytes : List UInt8}
    {document : ChildEnvironment} (record : world.record = some bytes)
    (short : bytes.length ≤ environmentLimit) (parsed : codec.parseStrict bytes = .ok document)
    : Program.run working
        (ExceptT.run (loadEnvironment codec coordination transaction environmentPath)) world
        = (checkDocument coordination transaction document, world) := by
  have present : working world .symlinkMetadata = (.ok (), world) := by
    simp only [working, record]
  have opened : working world .openFile = (.ok (), world) := by simp only [working, record]
  have read : working world (.readToEnd (environmentLimit + 1)) = (.ok bytes, world) := by
    simp only [working, record]
    rw [List.take_of_length_le (by omega)]
  have limited : Program.run working
      (ExceptT.run (readLimited environmentPath environmentLimit)) world
      = (.ok (some bytes), world) := by
    refine (Program.run_request_bind opened).trans ?_
    refine (Program.run_request_bind read).trans ?_
    have fits : ¬bytes.length > environmentLimit := not_lt.mpr short
    simp only [fits, if_false]
    rfl
  have private' : Program.run working (ExceptT.run (readPrivate environmentPath)) world
      = (.ok bytes, world) := by
    have verified : Program.run working (ExceptT.run verify) world = (.ok (), world) := rfl
    refine (Program.run_attempt_ok verified).trans ?_
    exact (Program.run_attempt_ok limited).trans rfl
  refine (Program.run_request_bind present).trans ?_
  refine (Program.run_attempt_ok private').trans ?_
  rw [parsed]
  rfl

end Loading

end Hane.Update.StateRoot
