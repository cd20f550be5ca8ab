import Hane.Foundations.Splitting
import Hane.Update.Errors
import Mathlib.Data.List.TakeWhile

/-! The userinfo of a proxy value: how it is cut out and put back, and where a URL has it. -/

namespace Hane.Update.StateRoot

open Hane.Foundations.Splitting

-- Cutting and joining

def mismatch (detail : String) : UpdateError := ⟨.identityMismatch, detail⟩

def schemeMark : List Char := [':', '/', '/']

/-- A character before the first `/`, `?` or `#`. -/
def inAuthority (c : Char) : Bool := c ≠ '/' && c ≠ '?' && c ≠ '#'

/-- The value without userinfo and the userinfo. An `@` only after the authority is refused. -/
def splitUserinfo (value : String) : Except UpdateError (String × Option String) :=
  let (scheme, rest) := match splitFirst schemeMark value.toList with
    | some (before, after) => (before ++ schemeMark, after)
    | none => ([], value.toList)
  let authority := rest.takeWhile inAuthority
  let tail := rest.dropWhile inAuthority
  match splitLast '@' authority with
  | some (userinfo, host) =>
    .ok (String.ofList (scheme ++ host ++ tail), some (String.ofList userinfo))
  | none =>
    if '@' ∈ tail then .error (mismatch "a proxy value has credentials outside its authority")
    else .ok (value, none)

def joinUserinfo (value userinfo : String) : String :=
  match splitFirst schemeMark value.toList with
  | some (before, after) =>
    String.ofList (before ++ schemeMark ++ (userinfo.toList ++ '@' :: after))
  | none => String.ofList (userinfo.toList ++ '@' :: value.toList)

-- The parts of a value

/-- A lead (a scheme with its mark, or nothing), the userinfo before the last `@` of the
authority, the host after it, and the rest.
-/
structure ProxyParts where
  lead : List Char
  userinfo : Option (List Char)
  host : List Char
  tail : List Char
deriving DecidableEq

namespace ProxyParts

/-- What is left without the userinfo and its `@`. -/
def shown (parts : ProxyParts) : List Char := parts.lead ++ (parts.host ++ parts.tail)

def whole (parts : ProxyParts) : List Char :=
  match parts.userinfo with
  | some userinfo => parts.lead ++ (userinfo ++ '@' :: (parts.host ++ parts.tail))
  | none => parts.shown

def after (lead rest : List Char) : ProxyParts :=
  let authority := rest.takeWhile inAuthority
  let tail := rest.dropWhile inAuthority
  match splitLast '@' authority with
  | some (userinfo, host) => ⟨lead, some userinfo, host, tail⟩
  | none => ⟨lead, none, authority, tail⟩

/-- The last `@` of the authority, if any, decides the parts. -/
theorem after_cases (lead rest : List Char)
    : (∃ userinfo host, splitLast '@' (rest.takeWhile inAuthority) = some (userinfo, host)
        ∧ after lead rest = ⟨lead, some userinfo, host, rest.dropWhile inAuthority⟩
        ∧ rest.takeWhile inAuthority = userinfo ++ '@' :: host ∧ '@' ∉ host)
      ∨ splitLast '@' (rest.takeWhile inAuthority) = none
        ∧ after lead rest
          = ⟨lead, none, rest.takeWhile inAuthority, rest.dropWhile inAuthority⟩
        ∧ '@' ∉ rest.takeWhile inAuthority := by
  cases found : splitLast '@' (rest.takeWhile inAuthority) with
  | some parts =>
      obtain ⟨userinfo, host⟩ := parts
      have parted := splitLast_sound found
      exact .inl ⟨userinfo, host, rfl, by rw [after, found], parted⟩
  | none => exact .inr ⟨rfl, by rw [after, found], splitLast_eq_none_iff.mp found⟩

theorem after_lead (lead rest : List Char) : (after lead rest).lead = lead := by
  rcases after_cases lead rest with ⟨userinfo, host, -, parts, -⟩ | ⟨-, parts, -⟩ <;> rw [parts]

theorem after_tail (lead rest : List Char)
    : (after lead rest).tail = rest.dropWhile inAuthority := by
  rcases after_cases lead rest with ⟨userinfo, host, -, parts, -⟩ | ⟨-, parts, -⟩ <;> rw [parts]

/-- The parts make up the value. -/
theorem after_whole (lead rest : List Char) : (after lead rest).whole = lead ++ rest := by
  have parted := List.takeWhile_append_dropWhile (p := inAuthority) (l := rest)
  rcases after_cases lead rest with ⟨userinfo, host, -, parts, authority, -⟩ | ⟨-, parts, -⟩
  · rw [authority] at parted
    conv => rhs; rw [← parted]
    simp only [parts, whole, List.append_assoc, List.cons_append]
  · conv => rhs; rw [← parted]
    simp only [parts, whole, shown]

/-- The host is of the authority and has no `@`. -/
theorem after_host (lead rest : List Char)
    : '@' ∉ (after lead rest).host ∧ ∀ c ∈ (after lead rest).host, inAuthority c = true := by
  have authority : ∀ c ∈ rest.takeWhile inAuthority, inAuthority c = true :=
    fun c member => (List.mem_takeWhile_imp member)
  rcases after_cases lead rest with ⟨userinfo, host, -, parts, whole, fresh⟩ | ⟨-, parts, fresh⟩
  · rw [parts]
    refine ⟨fresh, fun c member => authority c ?_⟩
    rw [whole]
    exact List.mem_append_right _ (List.mem_cons_of_mem _ member)
  · rw [parts]
    exact ⟨fresh, authority⟩

theorem authority_shown (lead rest : List Char)
    : ((after lead rest).host ++ (after lead rest).tail).takeWhile inAuthority
        = (after lead rest).host := by
  rw [List.takeWhile_append_of_pos (after_host lead rest).2, after_tail, takeWhile_dropWhile,
    List.append_nil]

theorem after_shown (lead rest : List Char)
    : after lead ((after lead rest).host ++ (after lead rest).tail)
        = { after lead rest with userinfo := none } := by
  have authority := authority_shown lead rest
  have fresh := (after_host lead rest).1
  have tail : ((after lead rest).host ++ (after lead rest).tail).dropWhile inAuthority
      = (after lead rest).tail := by
    have parted := List.takeWhile_append_dropWhile (p := inAuthority)
      (l := (after lead rest).host ++ (after lead rest).tail)
    rw [authority] at parted
    exact List.append_cancel_left parted
  have none := splitLast_eq_none_iff.mpr fresh
  conv => lhs; rw [after]
  simp only [authority, tail, none, after_lead]

end ProxyParts

-- Where the code cuts

/-- The parts as the code finds them: the lead ends with the first mark anywhere in the value. -/
def cutParts (value : String) : ProxyParts :=
  match splitFirst schemeMark value.toList with
  | some (before, after) => .after (before ++ schemeMark) after
  | none => .after [] value.toList

theorem cutParts_cases (value : String)
    : (∃ before after, splitFirst schemeMark value.toList = some (before, after)
        ∧ value.toList = before ++ schemeMark ++ after
        ∧ cutParts value = .after (before ++ schemeMark) after)
      ∨ (splitFirst schemeMark value.toList = none ∧ cutParts value = .after [] value.toList) := by
  cases found : splitFirst schemeMark value.toList with
  | some parts =>
      obtain ⟨before, after⟩ := parts
      exact .inl ⟨before, after, rfl, splitFirst_sound found, by rw [cutParts, found]⟩
  | none => exact .inr ⟨rfl, by rw [cutParts, found]⟩

theorem cutParts_whole (value : String) : (cutParts value).whole = value.toList := by
  rcases cutParts_cases value with ⟨before, after, -, whole, cut⟩ | ⟨-, cut⟩
  · rw [cut, ProxyParts.after_whole, whole]
  · rw [cut, ProxyParts.after_whole, List.nil_append]

theorem splitUserinfo_eq (value : String)
    : splitUserinfo value
        = match (cutParts value).userinfo with
          | some userinfo =>
            .ok (String.ofList (cutParts value).shown, some (String.ofList userinfo))
          | none =>
            if '@' ∈ (cutParts value).tail then
              .error (mismatch "a proxy value has credentials outside its authority")
            else .ok (String.ofList (cutParts value).shown, none) := by
  have whole := cutParts_whole value
  rcases cutParts_cases value with ⟨before, rest, found, -, cut⟩ | ⟨found, cut⟩
  all_goals
    rw [cut] at whole ⊢
    simp only [splitUserinfo, found]
    rcases ProxyParts.after_cases _ _ with ⟨userinfo, host, split, parts, -⟩ | ⟨split, parts, -⟩
    · rw [split, parts]
      simp only [ProxyParts.shown, List.append_assoc]
    · rw [parts] at whole
      rw [split, parts]
      simp only [ProxyParts.whole] at whole
      simp only [whole, String.ofList_toList]

theorem cutParts_shown (value : String)
    : cutParts (String.ofList (cutParts value).shown)
        = { cutParts value with userinfo := none } := by
  rcases cutParts_cases value with ⟨before, rest, found, -, cut⟩ | ⟨found, cut⟩
  · have again := splitFirst_replace
      ((cutParts value).host ++ (cutParts value).tail) found
    rw [cut] at again ⊢
    rw [cutParts, ProxyParts.shown, String.toList_ofList, ProxyParts.after_lead, again]
    exact ProxyParts.after_shown _ _
  · have whole := cutParts_whole value
    have again : splitFirst schemeMark
        ((cutParts value).host ++ (cutParts value).tail) = none := by
      refine splitFirst_eq_none_iff.mpr fun within => ?_
      refine splitFirst_eq_none_iff.mp found (within.trans ?_)
      refine List.IsSuffix.isInfix ?_
      rw [← whole, ProxyParts.whole]
      split
      case h_1 userinfo _ => exact ⟨(cutParts value).lead ++ userinfo ++ ['@'], by simp⟩
      case h_2 => exact ⟨(cutParts value).lead, rfl⟩
    rw [cut] at again ⊢
    rw [cutParts, ProxyParts.shown, String.toList_ofList, ProxyParts.after_lead, List.nil_append,
      again]
    exact ProxyParts.after_shown _ _

/-- What the cut took out is put back where it was. -/
theorem joinUserinfo_cut {value : String} {userinfo : List Char}
    (cut : (cutParts value).userinfo = some userinfo)
    : joinUserinfo (String.ofList (cutParts value).shown) (String.ofList userinfo) = value := by
  have whole := cutParts_whole value
  rw [ProxyParts.whole, cut] at whole
  have parts := cutParts_shown value
  rw [← String.toList_inj, ← whole]
  rcases cutParts_cases (String.ofList (cutParts value).shown) with
    ⟨before, rest, found, text, again⟩ | ⟨found, again⟩
  · have lead : (cutParts value).lead = before ++ schemeMark := by
      have same := congrArg ProxyParts.lead (again.symm.trans parts)
      rw [ProxyParts.after_lead] at same
      exact same.symm
    rw [String.toList_ofList, ProxyParts.shown, lead] at text
    rw [joinUserinfo, found]
    simp only [String.toList_ofList, lead, List.append_cancel_left text]
  · have lead : (cutParts value).lead = [] := by
      have same := congrArg ProxyParts.lead (again.symm.trans parts)
      rw [ProxyParts.after_lead] at same
      exact same.symm
    rw [joinUserinfo, found]
    simp only [String.toList_ofList, ProxyParts.shown, lead, List.nil_append]

-- Where a URL has it

def isSchemeChar (c : Char) : Bool := c.isAlphanum || c = '+' || c = '-' || c = '.'

/-- A scheme with its mark at the start of a value, and what follows: a letter, then letters,
digits, `+`, `-` and `.`.
-/
def splitScheme (value : List Char) : Option (List Char × List Char) :=
  let name := value.takeWhile isSchemeChar
  let rest := value.dropWhile isSchemeChar
  if name.head?.any Char.isAlpha = true ∧ schemeMark <+: rest then
    some (name ++ schemeMark, rest.drop schemeMark.length)
  else none

/-- The parts as a URL has them; a value that starts with no scheme starts with its authority. -/
def urlParts (value : String) : ProxyParts :=
  match splitScheme value.toList with
  | some (lead, rest) => .after lead rest
  | none => .after [] value.toList

/-- No scheme at the start, but its mark somewhere. -/
def Misread (value : String) : Prop :=
  splitScheme value.toList = none ∧ schemeMark <:+: value.toList

instance (value : String) : Decidable (Misread value) := by
  unfold Misread
  infer_instance

theorem cutParts_eq_urlParts {value : String} (read : ¬Misread value)
    : cutParts value = urlParts value := by
  cases scheme : splitScheme value.toList with
  | none =>
      have unmarked : splitFirst schemeMark value.toList = none :=
        splitFirst_eq_none_iff.mpr fun within => read ⟨scheme, within⟩
      rw [cutParts, unmarked, urlParts, scheme]
  | some parts =>
      rw [urlParts, scheme]
      rw [splitScheme] at scheme
      split at scheme
      case isTrue starts =>
        obtain ⟨rest, marked⟩ := starts.2
        have parted := List.takeWhile_append_dropWhile (p := isSchemeChar) (l := value.toList)
        rw [← marked, ← List.append_assoc] at parted
        have fresh : ':' ∉ value.toList.takeWhile isSchemeChar := by
          intro member
          have kind := List.mem_takeWhile_imp member
          exact absurd kind (by decide)
        have first : splitFirst [':', '/', '/'] (_ ++ ':' :: ['/', '/'] ++ rest) = _ :=
          splitFirst_fresh rest fresh
        rw [← marked, List.drop_left, Option.some.injEq] at scheme
        rw [cutParts, ← parted]
        simp only [schemeMark] at first ⊢
        rw [first, ← scheme]
        rfl
      case isFalse => cases scheme

/-- A misread value with userinfo is never left as the URL without it: its first `@` stays in
front of any `/`.
-/
theorem shown_ne_of_misread {value : String} {userinfo : List Char} (misread : Misread value)
    (found : (urlParts value).userinfo = some userinfo)
    : (cutParts value).shown ≠ (urlParts value).shown := by
  have url : urlParts value = .after [] value.toList := by rw [urlParts, misread.1]
  rw [url] at found ⊢
  rcases ProxyParts.after_cases [] value.toList with
    ⟨cut, host, -, parts, authority, -⟩ | ⟨-, parts, -⟩
  · have kinds : ∀ c ∈ value.toList.takeWhile inAuthority, inAuthority c = true :=
      fun c member => List.mem_takeWhile_imp member
    rcases cutParts_cases value with ⟨before, after, -, whole, code⟩ | ⟨unmarked, -⟩
    · intro same
      have lead : cut ++ ['@'] <+: before ++ schemeMark := by
        have front : cut ++ ['@'] <+: value.toList := by
          refine List.IsPrefix.trans ⟨host, ?_⟩ (List.takeWhile_prefix inAuthority)
          rw [authority]
          simp
        have marked : before ++ schemeMark <+: value.toList := ⟨after, whole.symm⟩
        rcases List.prefix_or_prefix_of_prefix front marked with inside | outside
        · exact inside
        · have slash : '/' ∈ cut ++ ['@'] := outside.subset (by simp [schemeMark])
          have kind := kinds '/' (by simpa [authority] using .inl (by simpa using slash))
          exact absurd kind (by decide)
      obtain ⟨others, joined⟩ := lead
      have first : '@' ∈ (cutParts value).shown.takeWhile inAuthority := by
        have front : ∀ c ∈ cut ++ ['@'], inAuthority c = true := by
          intro c member
          refine kinds c ?_
          rw [authority]
          simp only [List.mem_append, List.mem_cons, List.not_mem_nil, or_false] at member ⊢
          exact member.imp_right .inl
        rw [ProxyParts.shown, code, ProxyParts.after_lead, ← joined, List.append_assoc,
          List.takeWhile_append_of_pos front]
        simp
      rw [same, ProxyParts.shown, ProxyParts.after_lead, List.nil_append,
        ProxyParts.authority_shown] at first
      exact (ProxyParts.after_host [] value.toList).1 first
    · exact absurd misread.2 (splitFirst_eq_none_iff.mp unmarked)
  · rw [parts] at found
    cases found

end Hane.Update.StateRoot
