import Hane.Document.Text
import Hane.Foundations.Splitting
import Hane.Foundations.Words

/-! File names that follow the title of a note: what a title becomes as a name, which name is free,
and what a new title does to the file.
-/

namespace Hane.Session

open Hane.Document Hane.Foundations

-- Names

def maxTitleChars : Nat := 100

def isControl (c : Char) : Bool := c.toNat < 0x20 || (0x7F ≤ c.toNat && c.toNat < 0xA0)

/-- Path separators and the characters reserved in file names. -/
def reservedChars : List Char := ['/', '\\', ':', '*', '?', '"', '<', '>', '|']

/-- A space for a character that is not safe in a file name. -/
def safeChar (c : Char) : Char := if isControl c || reservedChars.contains c then ' ' else c

def truncateChars (text : Text) (maxChars : Nat) : Text :=
  if text.length ≤ maxChars then text else text.take maxChars

def sanitizeTitle (title : Text) : Option Text :=
  let replaced := (trim title).map safeChar
  let collapsed := joinWords (splitWhitespace replaced)
  let trimmed := trim (truncateChars collapsed maxTitleChars)
  if trimmed = [] ∨ trimmed = ['.'] ∨ trimmed = ['.', '.'] then none else some trimmed

def markdownExtension : Text := ['.', 'm', 'd']

def plainName (stem : Text) : Text := stem ++ markdownExtension

def numberedName (stem : Text) (suffix : Nat) : Text :=
  stem ++ ' ' :: (toString suffix).toList ++ markdownExtension

def numberedFree (stem : Text) (taken : Text → Bool) : Nat → Nat → Option Text
  | 0, _ => none
  | left + 1, suffix =>
    if taken (numberedName stem suffix) then numberedFree stem taken left (suffix + 1)
    else some (numberedName stem suffix)

/-- The first free name. There is none when every suffix up to the last `u32` is taken. -/
def uniqueMarkdownFilename (stem : Text) (taken : Text → Bool) : Option Text :=
  if taken (plainName stem) then numberedFree stem taken (2 ^ 32 - 2) 2 else some (plainName stem)

/-- `Path::file_stem` of a file name. -/
def fileStem (name : Text) : Text :=
  if name = ['.', '.'] then name
  else
    match Splitting.splitLast '.' name with
    | some (before, _) => if before = [] then name else before
    | none => name

-- Decisions

inductive TitleSyncAction where
  | createNamed (title : Text)
  | rename (title : Text)
  | stopTracking
  | none
  deriving DecidableEq

def decideTitleSync (autoTitle currentStem extractedTitle : Option Text) : TitleSyncAction :=
  match extractedTitle.bind sanitizeTitle with
  | Option.none => .none
  | some sanitized =>
    match currentStem, autoTitle with
    | Option.none, _ => .createNamed sanitized
    | some _, Option.none => .none
    | some stem, some tracked =>
      let trackedStem := (sanitizeTitle tracked).getD []
      if stem ≠ trackedStem then .stopTracking
      else if sanitized = stem then .none
      else .rename sanitized

/-- A note: the stem of its file, when it has one, and the title its name was derived from. -/
structure Note where
  stem : Option Text
  autoTitle : Option Text
  deriving DecidableEq

def untitledNote : Note := ⟨none, none⟩

/-- A check of the title: the heading found, and the names in the folder that other files have. -/
structure TitleCheck where
  heading : Option Text
  taken : Text → Bool

/-- The file gets the free name for a title, which is recorded. -/
def Note.named (title : Text) (taken : Text → Bool) : Option Note :=
  (uniqueMarkdownFilename title taken).map fun name => ⟨some (fileStem name), some title⟩

def Note.sync (note : Note) (check : TitleCheck) : Option Note :=
  match decideTitleSync note.autoTitle note.stem check.heading with
  | .none => some note
  | .stopTracking => some { note with autoTitle := none }
  | .createNamed title => Note.named title check.taken
  | .rename title => Note.named title check.taken

/-- A note and what it is after each of some checks, as far as they end. -/
def Note.states (note : Note) : List TitleCheck → List Note
  | [] => [note]
  | check :: rest => note :: ((note.sync check).map (·.states rest)).getD []

-- Sanitized titles

/-- What a sanitized title is. -/
structure SafeName (name : Text) : Prop where
  filled : name ≠ []
  short : name.length ≤ maxTitleChars
  safe : ∀ c ∈ name, isControl c = false ∧ c ∉ reservedChars
  noDot : name ≠ ['.']
  noDots : name ≠ ['.', '.']
  tidy : Tidy name
  starts : StartsVisible name
  ends : ∀ c, name.getLast? = some c → isWhitespace c = false

theorem safeChar_safe (c : Char) : isControl (safeChar c) = false ∧ safeChar c ∉ reservedChars := by
  rw [safeChar]
  split
  next => exact ⟨by decide, by decide⟩
  next safe => simpa using safe

theorem safeChar_eq {c : Char} (safe : isControl c = false ∧ c ∉ reservedChars)
    : safeChar c = c := by
  rw [safeChar, if_neg (by simp [safe])]

theorem truncateChars_prefix (text : Text) (maxChars : Nat)
    : truncateChars text maxChars <+: text ∧ (truncateChars text maxChars).length ≤ maxChars := by
  rw [truncateChars]
  split
  next short => exact ⟨List.prefix_rfl, short⟩
  next => exact ⟨List.take_prefix maxChars text, List.length_take_le maxChars text⟩

def collapsedTitle (title : Text) : Text :=
  joinWords (splitWhitespace ((trim title).map safeChar))

theorem sanitizeTitle_eq (title : Text)
    : sanitizeTitle title
      = if trim (truncateChars (collapsedTitle title) maxTitleChars) = []
          ∨ trim (truncateChars (collapsedTitle title) maxTitleChars) = ['.']
          ∨ trim (truncateChars (collapsedTitle title) maxTitleChars) = ['.', '.'] then none
        else some (trim (truncateChars (collapsedTitle title) maxTitleChars)) := rfl

theorem collapsedTitle_tidy (title : Text)
    : Tidy (collapsedTitle title) ∧ StartsVisible (collapsedTitle title) :=
  tidy_joinWords fun _ member =>
    ⟨(mem_splitWhitespace member).1, fun c inside => ((mem_splitWhitespace member).2 c inside).1⟩

theorem collapsedTitle_safe {title : Text} {c : Char} (member : c ∈ collapsedTitle title)
    : isControl c = false ∧ c ∉ reservedChars := by
  obtain rfl | ⟨word, inside, has⟩ := mem_joinWords member
  · exact ⟨by decide, by decide⟩
  · obtain ⟨old, -, rfl⟩ := List.mem_map.mp ((mem_splitWhitespace inside).2 c has).2
    exact safeChar_safe old

theorem sanitizeTitle_safe {title name : Text} (sanitized : sanitizeTitle title = some name)
    : SafeName name := by
  rw [sanitizeTitle_eq] at sanitized
  split at sanitized
  next => cases sanitized
  next kept =>
    simp only [Option.some.injEq] at sanitized
    simp only [not_or, sanitized] at kept
    obtain ⟨tidy, starts⟩ := collapsedTitle_tidy title
    obtain ⟨begins, short⟩ := truncateChars_prefix (collapsedTitle title) maxTitleChars
    obtain ⟨trims, ends⟩ := (starts.beginning begins).trim
    rw [sanitized] at trims ends
    have whole := trims.trans begins
    exact {
      filled := kept.1
      short := trims.length_le.trans short
      safe := fun c member => collapsedTitle_safe (whole.subset member)
      noDot := kept.2.1
      noDots := kept.2.2
      tidy := tidy.beginning whole
      starts := starts.beginning whole
      ends := ends
    }

theorem SafeName.collapsedTitle {name : Text} (safe : SafeName name)
    : collapsedTitle name = name := by
  have mapped : (trim name).map safeChar = name := by
    rw [safe.starts.trim_eq safe.ends]
    calc name.map safeChar = name.map id :=
          List.map_congr_left fun c member => safeChar_eq (safe.safe c member)
      _ = name := List.map_id name
  rw [Session.collapsedTitle, mapped]
  rcases joinWords_splitWhitespace safe.tidy safe.ends with none | ⟨-, joins⟩ | ⟨rest, same, -⟩
  · exact absurd none safe.filled
  · exact joins
  · have visible := safe.starts
    rw [same] at visible
    exact absurd visible (by simp only [StartsVisible, List.head?_cons, Option.all_some]; decide)

theorem SafeName.sanitizeTitle {name : Text} (safe : SafeName name)
    : sanitizeTitle name = some name := by
  have whole : truncateChars name maxTitleChars = name := if_pos safe.short
  rw [sanitizeTitle_eq, safe.collapsedTitle, whole, safe.starts.trim_eq safe.ends,
    if_neg (by simp [safe.filled, safe.noDot, safe.noDots])]

-- Free names

theorem fileStem_extension {stem : Text} (filled : stem ≠ [])
    : fileStem (stem ++ markdownExtension) = stem := by
  have split : Splitting.splitLast '.' (stem ++ markdownExtension) = some (stem, ['m', 'd']) :=
    Splitting.splitLast_fresh stem (by decide)
  have named : stem ++ markdownExtension ≠ ['.', '.'] := by
    intro same
    have last := congrArg List.getLast? same
    simp [markdownExtension] at last
  rw [fileStem, if_neg named, split]
  exact if_neg filled

/-- The numbered names that a loop over suffixes gives, by induction over those left. -/
theorem numberedFree_some {stem name : Text} {taken : Text → Bool} {left suffix : Nat}
    (found : numberedFree stem taken left suffix = some name)
    : ∃ number, name = numberedName stem number := by
  induction left generalizing suffix with
  | zero => cases found
  | succ left ih =>
      rw [numberedFree] at found
      split at found
      next => exact ih found
      next => exact ⟨suffix, (Option.some.inj found).symm⟩

/-- The loop finds none exactly when all suffixes are taken, by induction over those left. -/
theorem numberedFree_none_iff {stem : Text} {taken : Text → Bool} {left suffix : Nat}
    : numberedFree stem taken left suffix = none
      ↔ ∀ number, suffix ≤ number → number < suffix + left
          → taken (numberedName stem number) = true := by
  induction left generalizing suffix with
  | zero =>
      refine ⟨fun _ number lower upper => ?_, fun _ => rfl⟩
      omega
  | succ left ih =>
      rw [numberedFree]
      split
      next here =>
        rw [ih]
        constructor
        · intro others number lower upper
          by_cases same : number = suffix
          · rwa [same]
          · exact others number (by omega) (by omega)
        · exact fun all number lower upper => all number (by omega) (by omega)
      next free =>
        refine ⟨fun found => absurd found (by simp), fun all => ?_⟩
        exact absurd (all suffix (Nat.le_refl suffix) (by omega)) free

-- Notes that follow their title

/-- What a heading should do to a note: an untitled note gets a file, and a named one is renamed
when the heading gives another title than the recorded one.
-/
def Note.expected (note : Note) (title : Text) : TitleSyncAction :=
  if note.stem = none then .createNamed title
  else if note.autoTitle = some title then .none
  else .rename title

/-- Every heading does to the note what it should. -/
def Note.Follows (note : Note) : Prop :=
  ∀ heading title, sanitizeTitle heading = some title
    → decideTitleSync note.autoTitle note.stem (some heading) = note.expected title

/-- No other file has the name of a title that a check gives the note, or every numbered name is
taken too and the search never ends.
-/
def FindsFree (note : Note) (check : TitleCheck) : Prop :=
  ∀ title, check.heading.bind sanitizeTitle = some title
    → note.autoTitle ≠ some title
    → check.taken (plainName title) = false
      ∨ ∀ suffix, 2 ≤ suffix → suffix < 2 ^ 32
          → check.taken (numberedName title suffix) = true

def AllFree (note : Note) : List TitleCheck → Prop
  | [] => True
  | check :: rest => FindsFree note check ∧ ∀ next, note.sync check = some next → AllFree next rest

/-- A note that is untitled, or whose file has its recorded title as its stem. -/
inductive Note.Kept : Note → Prop where
  | untitled : Note.Kept untitledNote
  | named {title : Text} (safe : SafeName title) : Note.Kept ⟨some title, some title⟩

theorem Note.Kept.follows {note : Note} (kept : note.Kept) : note.Follows := by
  intro heading title sanitized
  cases kept with
  | untitled => simp [decideTitleSync, sanitized, Note.expected, untitledNote]
  | @named tracked safe =>
      by_cases same : title = tracked
      · simp [decideTitleSync, sanitized, Note.expected, safe.sanitizeTitle, same]
      · simp [decideTitleSync, sanitized, Note.expected, safe.sanitizeTitle, same, Ne.symm same]

theorem Note.named_free {title : Text} {taken : Text → Bool} (safe : SafeName title)
    (free : taken (plainName title) = false)
    : Note.named title taken = some ⟨some title, some title⟩ := by
  rw [Note.named, uniqueMarkdownFilename, if_neg (by simp [free]), Option.map_some, plainName,
    fileStem_extension safe.filled]

theorem Note.named_taken {title : Text} {taken : Text → Bool} {next : Note} (safe : SafeName title)
    (used : taken (plainName title) = true) (named : Note.named title taken = some next)
    : ¬next.Follows := by
  rw [Note.named, uniqueMarkdownFilename, if_pos used] at named
  obtain ⟨name, found, rfl⟩ := Option.map_eq_some_iff.mp named
  obtain ⟨number, rfl⟩ := numberedFree_some found
  have stem : fileStem (numberedName title number)
      = title ++ ' ' :: (toString number).toList := by
    rw [numberedName]
    exact fileStem_extension (by simp)
  intro follows
  have unchanged := follows title title safe.sanitizeTitle
  simp [decideTitleSync, safe.sanitizeTitle, stem, Note.expected] at unchanged

theorem Note.Kept.sync {note : Note} (kept : note.Kept) (check : TitleCheck)
    : (note.sync check = some note
        ∧ ∀ title, check.heading.bind sanitizeTitle = some title → note.autoTitle = some title)
      ∨ ∃ title, SafeName title
          ∧ check.heading.bind sanitizeTitle = some title
          ∧ note.autoTitle ≠ some title
          ∧ note.sync check = Note.named title check.taken := by
  cases sanitized : check.heading.bind sanitizeTitle with
  | none => exact .inl ⟨by simp [Note.sync, decideTitleSync, sanitized], by simp⟩
  | some title =>
      obtain ⟨heading, found, same⟩ := Option.bind_eq_some_iff.mp sanitized
      have safe := sanitizeTitle_safe same
      have decided := kept.follows heading title same
      rw [← found] at decided
      cases kept with
      | untitled =>
          refine .inr ⟨title, safe, rfl, by simp [untitledNote], ?_⟩
          rw [Note.sync, decided]
          rfl
      | @named tracked _ =>
          by_cases unchanged : tracked = title
          · refine .inl ⟨?_, fun other this => ?_⟩
            · rw [Note.sync, decided]
              simp [Note.expected, unchanged]
            · rw [unchanged, this]
          · refine .inr ⟨title, safe, rfl, by simpa using unchanged, ?_⟩
            rw [Note.sync, decided]
            simp [Note.expected, unchanged]

/-- Every state of a run of checks follows its title exactly when every check finds the name of
its title free, by induction over the checks.
-/
theorem Note.Kept.states_follow_iff {note : Note} (kept : note.Kept) (checks : List TitleCheck)
    : (∀ reached ∈ note.states checks, reached.Follows) ↔ AllFree note checks := by
  induction checks generalizing note with
  | nil => simp [Note.states, AllFree, kept.follows]
  | cons check rest ih =>
      rw [Note.states, List.forall_mem_cons, AllFree]
      rcases kept.sync check with ⟨same, known⟩ | ⟨title, safe, sanitized, new, named⟩
      · have free : FindsFree note check := fun title sanitized new =>
          absurd (known title sanitized) new
        simp only [same, Option.map_some, Option.getD_some, Option.some.injEq, forall_eq']
        rw [ih kept]
        exact ⟨fun both => ⟨free, both.2⟩, fun both => ⟨kept.follows, both.2⟩⟩
      · cases used : check.taken (plainName title) with
        | false =>
            have free : FindsFree note check := fun other this _ => by
              rw [sanitized, Option.some.injEq] at this
              exact .inl (this ▸ used)
            rw [named, Note.named_free safe used]
            simp only [Option.map_some, Option.getD_some, Option.some.injEq, forall_eq']
            rw [ih (.named safe)]
            exact ⟨fun both => ⟨free, both.2⟩, fun both => ⟨kept.follows, both.2⟩⟩
        | true =>
            cases ends : Note.named title check.taken with
            | none =>
                have endless : ∀ suffix, 2 ≤ suffix → suffix < 2 ^ 32
                    → check.taken (numberedName title suffix) = true := by
                  rw [Note.named, uniqueMarkdownFilename, if_pos used,
                    Option.map_eq_none_iff] at ends
                  exact fun suffix lower upper =>
                    numberedFree_none_iff.mp ends suffix lower (by omega)
                have free : FindsFree note check := fun other this _ => by
                  rw [sanitized, Option.some.injEq] at this
                  exact .inr (this ▸ endless)
                rw [named, ends]
                simp [free, kept.follows]
            | some next =>
                have strays := Note.named_taken safe used ends
                rw [named, ends]
                simp only [Option.map_some, Option.getD_some, Option.some.injEq, forall_eq']
                constructor
                · intro both
                  have first : next ∈ next.states rest := by cases rest <;> exact List.mem_cons_self
                  exact absurd (both.2 next first) strays
                · intro both
                  exfalso
                  rw [Note.named, uniqueMarkdownFilename, if_pos used] at ends
                  rcases both.1 title sanitized new with free | endless
                  · rw [used] at free
                    cases free
                  · obtain ⟨name, found, -⟩ := Option.map_eq_some_iff.mp ends
                    have none : numberedFree title check.taken (2 ^ 32 - 2) 2 = none :=
                      numberedFree_none_iff.mpr fun suffix lower upper =>
                        endless suffix lower (by omega)
                    rw [found] at none
                    cases none

/-- Every state of a run of checks from an untitled note follows its title exactly when every
check finds the name of its title free; and a sanitized title is a safe name that sanitizes to
itself.
-/
theorem titles_follow_iff (title : Text) (checks : List TitleCheck)
    : (∀ name, sanitizeTitle title = some name
        → sanitizeTitle name = some name
          ∧ name ≠ []
          ∧ name.length ≤ maxTitleChars
          ∧ (∀ c ∈ name, c ∉ reservedChars)
          ∧ name ≠ ['.']
          ∧ name ≠ ['.', '.'])
      ∧ ((∀ reached ∈ untitledNote.states checks, reached.Follows)
        ↔ AllFree untitledNote checks) := by
  refine ⟨fun name sanitized => ?_, Note.Kept.untitled.states_follow_iff checks⟩
  have safe := sanitizeTitle_safe sanitized
  exact ⟨safe.sanitizeTitle, safe.filled, safe.short, fun c member => (safe.safe c member).2,
    safe.noDot, safe.noDots⟩

/-- The folder has an `a.md` of another file. -/
def crowdedCheck : TitleCheck := ⟨some ['a'], fun name => name = ['a', '.', 'm', 'd']⟩

/-- A file named `a 2.md` for the heading `a` is no longer followed. -/
theorem titles_not_follow
    : ¬∀ checks, ∀ reached ∈ untitledNote.states checks, reached.Follows := by
  intro follow
  have named : untitledNote.sync crowdedCheck = some ⟨some ['a', ' ', '2'], some ['a']⟩ := by
    decide +kernel
  have follows := follow [crowdedCheck] ⟨some ['a', ' ', '2'], some ['a']⟩
    (by simp [Note.states, named])
  have decided := follows ['a'] ['a'] (by decide +kernel)
  exact absurd decided (by decide +kernel)

end Hane.Session
