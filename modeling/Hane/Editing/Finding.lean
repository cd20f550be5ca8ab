import Hane.Editing.Replacing
import Mathlib.Data.String.Basic

/-! Finding a literal query in a document: windows of bounded byte size over the buffer, each read
with enough text behind it to finish a match that starts inside it.
-/

namespace Hane.Editing

open Hane.Document Hane.Foundations

def maxQueryBytes : Nat := 4096

def maxMatches : Nat := 100000

def windowCoreBytes : Nat := 256 * 1024

def windowSlackBytes : Nat := maxQueryBytes * 4 + 8

def cancelCheckInterval : Nat := 2048

inductive FindQueryError where
  | empty
  | multiLine
  | tooLong (bytes max : Nat)
deriving DecidableEq

/-- A validated, single-line, non-empty query of at most `maxQueryBytes`. -/
structure FindQuery where
  text : Text
  nonempty : text ≠ []
  singleLine : ¬∃ c ∈ text, c = '\n' ∨ c = '\r'
  bounded : ¬utf8Len text > maxQueryBytes

/-- Line breaks are looked for among the characters of the query. -/
instance FindQuery.decidableBreak (raw : Text)
    : Decidable (∃ c ∈ raw, c = '\n' ∨ c = '\r') :=
  List.decidableBEx (fun c => c = '\n' ∨ c = '\r') raw

def FindQuery.parse (raw : Text) : Except FindQueryError FindQuery :=
  if nonempty : raw = [] then
    .error .empty
  else if singleLine : ∃ c ∈ raw, c = '\n' ∨ c = '\r' then
    .error .multiLine
  else if bounded : utf8Len raw > maxQueryBytes then
    .error (.tooLong (utf8Len raw) maxQueryBytes)
  else
    .ok { text := raw, nonempty, singleLine, bounded }

structure FindOptions where
  caseSensitive : Bool
deriving DecidableEq

structure FindResults where
  found : List SourceRange
  truncated : Bool
deriving DecidableEq

inductive FindScan where
  | completed (results : FindResults)
  | cancelled
deriving DecidableEq

/-- `char_indices`: every character with the byte it starts at. -/
def charIndices : Nat → Text → List (Nat × Char)
  | _, [] => []
  | byte, c :: rest => (byte, c) :: charIndices (byte + c.utf8Size) rest

/-- What the scan carries through its windows. -/
structure ScanState where
  found : List SourceRange
  checksSinceCancelPoll : Nat
  polls : Nat
  resumeFrom : Nat

inductive WindowOutcome where
  | cancelled
  | truncated (found : List SourceRange)
  | finished (state : ScanState)

/-- Counts one more attempt; every `cancelCheckInterval`th asks whether to stop. -/
def countAttempt (isCancelled : Cancellation) (state : ScanState) : Option ScanState :=
  if state.checksSinceCancelPoll + 1 ≥ cancelCheckInterval then
    if isCancelled state.polls then none
    else some { state with checksSinceCancelPoll := 0, polls := state.polls + 1 }
  else
    some { state with checksSinceCancelPoll := state.checksSinceCancelPoll + 1 }

section Scanning

variable (toLowercase : Char → List Char)

/-- Two characters match when equal or, ignoring case, when their lowercasings are equal. A
lowercasing may be several characters; `toLowercase` is the standard library's table.
-/
def charsMatch (caseSensitive : Bool) (haystack query : Char) : Bool :=
  if caseSensitive then
    haystack == query
  else
    haystack == query || toLowercase haystack == toLowercase query

/-- The characters behind a match of the whole query at the front of `chars`. -/
def tryMatch (query : Text) (caseSensitive : Bool) (chars : List (Nat × Char))
    : Option (List (Nat × Char)) :=
  if query.length > chars.length then
    none
  else if (chars.zip query).all fun ((_, h), q) => charsMatch toLowercase caseSensitive h q then
    some (chars.drop query.length)
  else
    none

theorem tryMatch_shorter (query : FindQuery) {caseSensitive : Bool}
    {chars remaining : List (Nat × Char)}
    (matched : tryMatch toLowercase query.text caseSensitive chars = some remaining)
    : remaining.length < chars.length := by
  have positive := List.length_pos_iff.mpr query.nonempty
  unfold tryMatch at matched
  split at matched
  · cases matched
  · split at matched
    · cases matched
      rw [List.length_drop]
      omega
    · cases matched

variable (isCancelled : Cancellation) (query : FindQuery) (options : FindOptions)

/-- One window from the character at `chars`' front on: `windowEnd` bounds where a match may
start, `textLen` is the length of the text read for the window.
-/
def scanWindow (windowStart windowEnd textLen : Nat)
    : List (Nat × Char) → ScanState → WindowOutcome
  | [], state => .finished state
  | (relByte, c) :: rest, state =>
      let absByte := windowStart + relByte
      if absByte ≥ windowEnd then
        .finished state
      else
        match countAttempt isCancelled state with
        | none => .cancelled
        | some state =>
            match _matched : tryMatch toLowercase query.text options.caseSensitive
                ((relByte, c) :: rest) with
            | some remaining =>
                let endAbs := windowStart + (remaining.head?.map Prod.fst).getD textLen
                if state.found.length ≥ maxMatches then
                  .truncated state.found
                else
                  scanWindow windowStart windowEnd textLen remaining {
                    state with
                    found := state.found ++ [⟨absByte, endAbs⟩]
                    resumeFrom := max state.resumeFrom endAbs }
            | none => scanWindow windowStart windowEnd textLen rest state
termination_by chars => chars.length
decreasing_by
  · exact tryMatch_shorter toLowercase query _matched
  · simp

/-- The largest byte at or before `byte` that the buffer accepts as an offset. -/
def floorCharBoundary (buffer : RopeBuffer) (byte : Nat) : Nat :=
  lowerTo (fun offset => (buffer.validateOffset offset).isOk) (min byte buffer.lenBytes)

/-- Where the search of the window from `start` on ends. -/
def windowEnd (buffer : RopeBuffer) (start total : Nat) : Nat :=
  floorCharBoundary buffer (min (start + windowCoreBytes) total)

/-- Where the text that is read for a window that ends at `stop` ends. -/
def fetchEnd (buffer : RopeBuffer) (stop total : Nat) : Nat :=
  floorCharBoundary buffer (min (stop + windowSlackBytes) total)

/-- The window loop. Nothing is returned when a window cannot be read, which panics, and when a
window does not advance, which repeats it for ever.
-/
def scanWindows (buffer : RopeBuffer) (total windowSearchStart : Nat) (state : ScanState)
    : Option FindScan :=
  if windowSearchStart < total then
    if isCancelled state.polls then
      some .cancelled
    else
      let windowSearchEnd := windowEnd buffer windowSearchStart total
      match buffer.text ⟨windowSearchStart, fetchEnd buffer windowSearchEnd total⟩ with
      | .error _ => none
      | .ok text =>
          match scanWindow toLowercase isCancelled query options windowSearchStart windowSearchEnd
              (utf8Len text) (charIndices 0 text)
              { state with polls := state.polls + 1, resumeFrom := windowSearchEnd } with
          | .cancelled => some .cancelled
          | .truncated found => some (.completed ⟨found, true⟩)
          | .finished next =>
              if windowSearchStart < next.resumeFrom then
                scanWindows buffer total next.resumeFrom next
              else
                none
  else
    some (.completed ⟨state.found, false⟩)
termination_by total - windowSearchStart

def scanBounded (buffer : RopeBuffer) (scanStart total : Nat) : Option FindScan :=
  scanWindows toLowercase isCancelled query options buffer total scanStart ⟨[], 0, 0, scanStart⟩

/-- Every non-overlapping occurrence of the query, in source order. -/
def scan (buffer : RopeBuffer) : Option FindScan :=
  scanBounded toLowercase isCancelled query options buffer 0 buffer.lenBytes

/-- Like `scan`, for the matches that lie in the range. -/
def scanRange (buffer : RopeBuffer) (range : SourceRange)
    : Except BufferError (Option FindScan) := do
  buffer.validateRange range
  buffer.validateOffset range.start
  buffer.validateOffset range.stop
  return scanBounded toLowercase isCancelled query options buffer range.start range.stop

end Scanning

-- One greedy scan from left to right

section Greedy

variable (toLowercase : Char → List Char) (query : FindQuery) (options : FindOptions)

/-- The query's characters match the text's first ones. -/
def Matches (matched : Text) : Prop :=
  List.Forall₂ (fun h q => charsMatch toLowercase options.caseSensitive h q = true)
    matched query.text

/-- The matches of a text whose first byte is at `position`: each starts at the first place at or
behind the end of the one before it where the whole query matches.
-/
inductive GreedyScan : Nat → Text → List SourceRange → Prop
  | done {position : Nat} {text : Text}
      (nowhere : ∀ skipped matched rest, text = skipped ++ (matched ++ rest)
        → ¬Matches toLowercase query options matched)
      : GreedyScan position text []
  | found {position : Nat} {skipped matched rest : Text} {ranges : List SourceRange}
      (here : Matches toLowercase query options matched)
      (first : ∀ front other back, skipped ++ (matched ++ rest) = front ++ (other ++ back)
        → front.length < skipped.length → ¬Matches toLowercase query options other)
      (later : GreedyScan (position + utf8Len skipped + utf8Len matched) rest ranges)
      : GreedyScan position (skipped ++ (matched ++ rest))
          (⟨position + utf8Len skipped, position + utf8Len skipped + utf8Len matched⟩ :: ranges)

variable {toLowercase query options}

theorem Matches.length {matched : Text} (found : Matches toLowercase query options matched)
    : matched.length = query.text.length :=
  List.Forall₂.length_eq found

theorem Matches.ne_nil {matched : Text} (found : Matches toLowercase query options matched)
    : matched ≠ [] := by
  rintro rfl
  exact query.nonempty (List.length_eq_zero_iff.mp found.length.symm)

/-- A text has one greedy scan, by induction on the scan. -/
theorem GreedyScan.unique {position : Nat} {text : Text} {ranges others : List SourceRange}
    (scan : GreedyScan toLowercase query options position text ranges)
    (other : GreedyScan toLowercase query options position text others) : ranges = others := by
  induction scan generalizing others with
  | done nowhere =>
      cases other with
      | done => rfl
      | found here => exact absurd here (nowhere _ _ _ rfl)
  | @found position skipped matched rest ranges here first later ih =>
      generalize shape : skipped ++ (matched ++ rest) = text at other
      cases other with
      | done nowhere => exact absurd here (nowhere _ _ _ shape.symm)
      | @found _ skipped' matched' rest' others here' first' later' =>
          have notBefore : ¬skipped'.length < skipped.length :=
            fun before => first _ _ _ shape before here'
          have notBehind : ¬skipped.length < skipped'.length :=
            fun before => first' _ _ _ shape.symm before here
          obtain ⟨rfl, tail⟩ := List.append_inj shape (by omega)
          obtain ⟨rfl, rfl⟩ := List.append_inj tail (here.length.trans here'.length.symm)
          rw [ih later']

variable (toLowercase query options)

def startsWithQuery (text : Text) : Bool :=
  decide (query.text.length ≤ text.length)
  && (text.zip query.text).all fun (h, q) => charsMatch toLowercase options.caseSensitive h q

/-- The greedy scan as a function. -/
def greedy (position : Nat) (text : Text) : List SourceRange :=
  match text with
  | [] => []
  | c :: rest =>
      if startsWithQuery toLowercase query options (c :: rest) then
        let matched := (c :: rest).take query.text.length
        ⟨position, position + utf8Len matched⟩
          :: greedy (position + utf8Len matched) ((c :: rest).drop query.text.length)
      else
        greedy (position + c.utf8Size) rest
termination_by text.length
decreasing_by
  · have positive := List.length_pos_iff.mpr query.nonempty
    rw [List.length_drop]
    simp only [List.length_cons]
    omega
  · simp

theorem greedy_of_match (position : Nat) {matched : Text} (rest : Text)
    (here : startsWithQuery toLowercase query options (matched ++ rest) = true)
    (size : matched.length = query.text.length)
    : greedy toLowercase query options position (matched ++ rest)
      = ⟨position, position + utf8Len matched⟩
        :: greedy toLowercase query options (position + utf8Len matched) rest := by
  have positive := List.length_pos_iff.mpr query.nonempty
  cases matched with
  | nil =>
      rw [List.length_nil] at size
      omega
  | cons c tail =>
      have taken : (c :: (tail ++ rest)).take query.text.length = c :: tail := by
        rw [← size]
        exact List.take_left
      have dropped : (c :: (tail ++ rest)).drop query.text.length = rest := by
        rw [← size]
        exact List.drop_left
      rw [List.cons_append] at here ⊢
      rw [greedy, if_pos here, taken, dropped]

theorem greedy_of_no_match (position : Nat) {c : Char} {rest : Text}
    (fails : startsWithQuery toLowercase query options (c :: rest) = false)
    : greedy toLowercase query options position (c :: rest)
      = greedy toLowercase query options (position + c.utf8Size) rest := by
  rw [greedy, if_neg (by simp [fails])]

variable {toLowercase query options}

theorem startsWithQuery_iff (text : Text)
    : startsWithQuery toLowercase query options text = true
      ↔ query.text.length ≤ text.length
        ∧ Matches toLowercase query options (text.take query.text.length) := by
  have zipped : text.zip query.text = (text.take query.text.length).zip query.text := by
    calc text.zip query.text
        = (text.zip query.text).take query.text.length :=
          (List.take_of_length_le (by rw [List.length_zip]; exact Nat.min_le_right _ _)).symm
      _ = (text.take query.text.length).zip (query.text.take query.text.length) :=
          List.take_zipWith
      _ = (text.take query.text.length).zip query.text := by rw [List.take_length]
  rw [startsWithQuery, Bool.and_eq_true, decide_eq_true_eq, zipped]
  constructor
  · rintro ⟨long, all⟩
    refine ⟨long, List.forall₂_iff_zip.mpr ⟨by simp [long], ?_⟩⟩
    intro h q member
    exact List.all_eq_true.mp all (h, q) member
  · rintro ⟨long, matched⟩
    refine ⟨long, List.all_eq_true.mpr ?_⟩
    rintro ⟨h, q⟩ member
    exact (List.forall₂_iff_zip.mp matched).2 member

theorem startsWithQuery_append {matched : Text} (rest : Text)
    (here : Matches toLowercase query options matched)
    : startsWithQuery toLowercase query options (matched ++ rest) = true := by
  rw [startsWithQuery_iff, ← here.length, List.take_left]
  exact ⟨by simp, here⟩

/-- A character at which no match starts is passed over. -/
theorem GreedyScan.skip {position : Nat} {c : Char} {rest : Text} {ranges : List SourceRange}
    (fails : startsWithQuery toLowercase query options (c :: rest) = false)
    (scan : GreedyScan toLowercase query options (position + c.utf8Size) rest ranges)
    : GreedyScan toLowercase query options position (c :: rest) ranges := by
  have notHere : ∀ matched back, c :: rest = matched ++ back
      → ¬Matches toLowercase query options matched := by
    intro matched back split here
    have starts := startsWithQuery_append back here
    rw [← split, fails] at starts
    cases starts
  generalize start : position + c.utf8Size = next at scan
  cases scan with
  | done nowhere =>
      refine .done ?_
      intro skipped matched back split
      cases skipped with
      | nil => exact notHere matched back split
      | cons head tail => exact nowhere tail matched back (List.cons.inj split).2
  | @found _ skipped matched rest ranges here first later =>
      have assembled : GreedyScan toLowercase query options position
          ((c :: skipped) ++ (matched ++ rest))
          (⟨position + utf8Len (c :: skipped),
            position + utf8Len (c :: skipped) + utf8Len matched⟩ :: ranges) := by
        refine .found here ?_ ?_
        · intro front other back split shorter
          cases front with
          | nil => exact notHere other back split
          | cons head tail =>
              exact first tail other back (List.cons.inj split).2
                (by simpa using shorter)
        · rw [utf8Len_cons, ← Nat.add_assoc position, start]
          exact later
      rw [utf8Len_cons, ← Nat.add_assoc position, start] at assembled
      exact assembled

variable (toLowercase query options) in
theorem greedy_scan (position : Nat) (text : Text)
    : GreedyScan toLowercase query options position text
        (greedy toLowercase query options position text) := by
  fun_induction greedy toLowercase query options position text with
  | case1 position =>
      refine .done ?_
      intro skipped matched rest split here
      have none : matched = [] := by
        simp only [List.nil_eq, List.append_eq_nil_iff] at split
        exact split.2.1
      exact here.ne_nil none
  | case2 position c rest starts matched ih =>
      obtain ⟨_, here⟩ := (startsWithQuery_iff (c :: rest)).mp starts
      have split : c :: rest = [] ++ (matched ++ (c :: rest).drop query.text.length) := by
        simp [matched]
      have scan : GreedyScan toLowercase query options position
          ([] ++ (matched ++ (c :: rest).drop query.text.length)) _ :=
        .found here (fun _ _ _ _ shorter => absurd shorter (by simp)) ih
      rwa [← split] at scan
  | case3 position c rest fails ih =>
      exact GreedyScan.skip (by simpa using fails) ih

end Greedy

-- One window

@[simp] theorem length_charIndices (byte : Nat) (text : Text)
    : (charIndices byte text).length = text.length := by
  induction text generalizing byte with
  | nil => rfl
  | cons c rest ih => simp [charIndices, ih]

theorem map_snd_charIndices (byte : Nat) (text : Text)
    : (charIndices byte text).map Prod.snd = text := by
  induction text generalizing byte with
  | nil => rfl
  | cons c rest ih => simp [charIndices, ih]

theorem drop_charIndices (byte count : Nat) (text : Text)
    : (charIndices byte text).drop count
      = charIndices (byte + utf8Len (text.take count)) (text.drop count) := by
  induction text generalizing byte count with
  | nil => simp [charIndices]
  | cons c rest ih =>
      cases count with
      | zero => simp [charIndices]
      | succ count => simp [charIndices, ih, Nat.add_assoc]

theorem head_charIndices (byte : Nat) (text : Text)
    : ((charIndices byte text).head?.map Prod.fst).getD (byte + utf8Len text) = byte := by
  cases text with
  | nil => simp [charIndices]
  | cons c rest => simp [charIndices]

section Window

variable (toLowercase : Char → List Char) (query : FindQuery) (options : FindOptions)

/-- A match attempt sees the query at the front of the text it is given. -/
theorem tryMatch_charIndices (byte : Nat) (text : Text)
    : tryMatch toLowercase query.text options.caseSensitive (charIndices byte text)
      = if startsWithQuery toLowercase query options text then
          some (charIndices (byte + utf8Len (text.take query.text.length))
            (text.drop query.text.length))
        else
          none := by
  have same : ((charIndices byte text).zip query.text).all
        (fun ((_, h), q) => charsMatch toLowercase options.caseSensitive h q)
      = (text.zip query.text).all
        (fun (h, q) => charsMatch toLowercase options.caseSensitive h q) := by
    conv_rhs => rw [← map_snd_charIndices byte text]
    rw [List.zip_map_left, List.all_map]
    rfl
  rw [tryMatch, length_charIndices, same, drop_charIndices, startsWithQuery]
  by_cases short : query.text.length > text.length
  · rw [if_pos short, decide_eq_false (Nat.not_le.mpr short), Bool.false_and]
    rfl
  · rw [if_neg short, decide_eq_true (Nat.le_of_not_lt short), Bool.true_and]

variable {toLowercase query options}

/-- Behind the window's text nothing more is needed to see a match that starts inside it. -/
theorem startsWithQuery_prefix {text : Text} (beyond : Text)
    (enough : beyond = [] ∨ query.text.length ≤ text.length)
    : startsWithQuery toLowercase query options (text ++ beyond)
      = startsWithQuery toLowercase query options text := by
  rcases enough with rfl | enough
  · rw [List.append_nil]
  · rw [Bool.eq_iff_iff, startsWithQuery_iff, startsWithQuery_iff,
      List.take_append_of_le_length enough, List.length_append]
    constructor
    · rintro ⟨_, here⟩
      exact ⟨enough, here⟩
    · rintro ⟨_, here⟩
      exact ⟨by omega, here⟩

theorem utf8Len_le_four_mul (text : Text) : utf8Len text ≤ 4 * text.length := by
  induction text with
  | nil => simp
  | cons c rest ih =>
      have size := Char.utf8Size_le_four c
      simp only [utf8Len_cons, List.length_cons]
      omega

/-- Answers that never say to stop. -/
def neverCancelled : Cancellation := fun _ => false

theorem countAttempt_never (state : ScanState)
    : ∃ checks polls, countAttempt neverCancelled state
        = some { state with checksSinceCancelPoll := checks, polls } := by
  unfold countAttempt
  split
  · exact ⟨_, _, rfl⟩
  · exact ⟨_, _, rfl⟩

/-- Where a window leaves off: nothing was lost or truncated, and what the greedy scan still finds
starts where the next window does.
-/
def LeavesOff (toLowercase : Char → List Char) (query : FindQuery) (options : FindOptions)
    (windowEnd position : Nat) (text : Text) (found : List SourceRange) : WindowOutcome → Prop
  | .cancelled => False
  | .truncated kept =>
      kept = (found ++ greedy toLowercase query options position text).take maxMatches
      ∧ maxMatches < (found ++ greedy toLowercase query options position text).length
  | .finished next =>
      next.found.length ≤ maxMatches
      ∧ windowEnd ≤ next.resumeFrom
      ∧ ∃ front left, text = front ++ left
          ∧ position + utf8Len front = next.resumeFrom
          ∧ found ++ greedy toLowercase query options position text
            = next.found ++ greedy toLowercase query options next.resumeFrom left

/-- A step over the front of the text that keeps what will have been found. -/
theorem LeavesOff.advance {windowEnd position : Nat} (front : Text) {text : Text}
    {found : List SourceRange} (more : List SourceRange) {outcome : WindowOutcome}
    (same : found ++ greedy toLowercase query options position (front ++ text)
      = more ++ greedy toLowercase query options (position + utf8Len front) text)
    (rest : LeavesOff toLowercase query options windowEnd (position + utf8Len front) text more
      outcome)
    : LeavesOff toLowercase query options windowEnd position (front ++ text) found outcome := by
  cases outcome with
  | cancelled => exact rest
  | truncated kept =>
      unfold LeavesOff at rest ⊢
      rw [same]
      exact rest
  | finished next =>
      obtain ⟨few, past, passed, left, split, reached, total⟩ := rest
      refine ⟨few, past, front ++ passed, left, ?_, ?_, ?_⟩
      · rw [split, List.append_assoc]
      · rw [utf8Len_append, ← reached, Nat.add_assoc]
      · rw [same, total]

/-- A window scans greedily, by recursion on the text it has left. The byte to resume from is the
window's end until a match runs past it, and then the end of that match.
-/
theorem scanWindow_leavesOff {windowStart windowEnd : Nat} (text : Text) {byte : Nat}
    (beyond : Text) {state : ScanState}
    (enough : beyond = []
      ∨ windowEnd + 4 * query.text.length ≤ windowStart + byte + utf8Len text)
    (boundary : windowStart + byte ≤ windowEnd
      → Boundary text (windowEnd - (windowStart + byte)))
    (resume : state.resumeFrom = max windowEnd (windowStart + byte))
    (few : state.found.length ≤ maxMatches)
    : LeavesOff toLowercase query options windowEnd (windowStart + byte) (text ++ beyond)
        state.found
        (scanWindow toLowercase neverCancelled query options windowStart windowEnd
          (byte + utf8Len text) (charIndices byte text) state) := by
  induction size : text.length using Nat.strongRecOn generalizing text byte state with
  | ind size ih =>
      cases text with
      | nil =>
          have atStart : state.resumeFrom = windowStart + byte := by
            rcases Nat.le_total (windowStart + byte) windowEnd with below | above
            · have atEnd := (boundary below).le
              simp only [utf8Len_nil] at atEnd
              omega
            · omega
          rw [charIndices, scanWindow]
          exact ⟨few, by omega, [], beyond, rfl, by simp [atStart], by rw [atStart]; rfl⟩
      | cons c rest =>
          rw [charIndices, scanWindow]
          dsimp only
          split
          next past =>
            have atStart : state.resumeFrom = windowStart + byte := by omega
            exact ⟨few, by omega, [], c :: rest ++ beyond, rfl, by simp [atStart],
              by rw [atStart]⟩
          next inside =>
            obtain ⟨checks, polls, counted⟩ := countAttempt_never state
            have seen : startsWithQuery toLowercase query options (c :: rest ++ beyond)
                = startsWithQuery toLowercase query options (c :: rest) := by
              apply startsWithQuery_prefix
              rcases enough with none | room
              · exact .inl none
              · have bytes := utf8Len_le_four_mul (c :: rest)
                exact .inr (by omega)
            have tried := tryMatch_charIndices toLowercase query options byte (c :: rest)
            rw [charIndices] at tried
            simp only [counted]
            cases starts : startsWithQuery toLowercase query options (c :: rest) with
            | true =>
                obtain ⟨long, _⟩ := (startsWithQuery_iff (c :: rest)).mp starts
                rw [if_pos starts] at tried
                split
                next remaining matched =>
                  rw [tried] at matched
                  cases matched
                  have cut : (c :: rest).take query.text.length
                      ++ (c :: rest).drop query.text.length = c :: rest :=
                    List.take_append_drop _ _
                  have taken : ((c :: rest).take query.text.length).length
                      = query.text.length := by
                    rw [List.length_take]
                    omega
                  have left : ((c :: rest).drop query.text.length).length < (c :: rest).length := by
                    have positive := List.length_pos_iff.mpr query.nonempty
                    rw [List.length_drop]
                    simp only [List.length_cons]
                    omega
                  generalize (c :: rest).take query.text.length = matched at cut taken tried ⊢
                  generalize (c :: rest).drop query.text.length = tail at cut left tried ⊢
                  rw [← cut] at seen starts enough boundary ⊢
                  have bytes : byte + utf8Len (matched ++ tail)
                      = byte + utf8Len matched + utf8Len tail := by
                    rw [utf8Len_append, Nat.add_assoc]
                  have next := greedy_of_match toLowercase query options (windowStart + byte)
                    (tail ++ beyond) (by rw [← List.append_assoc, seen, starts]) taken
                  rw [bytes, head_charIndices, List.append_assoc]
                  split
                  next full =>
                    have all : state.found.length = maxMatches := by omega
                    refine ⟨?_, ?_⟩
                    · rw [← all, List.take_left]
                    · rw [next, List.length_append, List.length_cons]
                      omega
                  next room =>
                    refine LeavesOff.advance matched
                      (state.found ++ [⟨windowStart + byte,
                        windowStart + (byte + utf8Len matched)⟩]) ?_ ?_
                    · rw [next, ← Nat.add_assoc, List.append_cons]
                    · rw [Nat.add_assoc windowStart byte]
                      refine ih _ (size ▸ left) tail ?_ ?_ ?_ ?_ rfl
                      · rcases enough with none | room
                        · exact .inl none
                        · exact .inr (by omega)
                      · intro below
                        have cut := Boundary.drop matched (boundary (by omega)) (by omega)
                        rwa [Nat.sub_sub, Nat.add_assoc] at cut
                      · dsimp only
                        omega
                      · simp only [List.length_append, List.length_singleton]
                        omega
                next failed =>
                  rw [tried] at failed
                  cases failed
            | false =>
                rw [if_neg (by simp [starts])] at tried
                split
                next remaining matched =>
                  rw [tried] at matched
                  cases matched
                next failed =>
                  have later : utf8Len (c :: rest) = c.utf8Size + utf8Len rest := utf8Len_cons c rest
                  have passed := greedy_of_no_match toLowercase query options
                    (windowStart + byte) (seen.trans starts)
                  have within : c.utf8Size ≤ windowEnd - (windowStart + byte) :=
                    (boundary (by omega)).first_le (by omega)
                  have one : utf8Len [c] = c.utf8Size := by simp
                  have whole : c :: rest ++ beyond = [c] ++ (rest ++ beyond) := rfl
                  rw [later, ← Nat.add_assoc byte, whole]
                  refine LeavesOff.advance [c] state.found ?_ ?_
                  · rw [one]
                    exact congrArg _ passed
                  · rw [one, Nat.add_assoc windowStart byte]
                    refine ih _ (by rw [← size, List.length_cons]; omega) rest ?_ ?_ ?_ few rfl
                    · rcases enough with none | room
                      · exact .inl none
                      · exact .inr (by omega)
                    · intro below
                      have cut := Boundary.drop [c] (boundary (by omega)) (by omega)
                      rwa [one, Nat.sub_sub, Nat.add_assoc] at cut
                    · dsimp only
                      omega

end Window

-- The window loop

theorem floorCharBoundary_eq (buffer : RopeBuffer) {byte : Nat} (inside : byte ≤ buffer.lenBytes)
    : floorCharBoundary buffer byte = floorBoundary buffer.rope byte := by
  have stops : (fun offset => (buffer.validateOffset offset).isOk)
      = fun offset => decide (Boundary buffer.rope offset) := by
    funext offset
    have valid := RopeBuffer.validateOffset_ok_iff buffer offset
    cases outcome : buffer.validateOffset offset with
    | ok done => simp [Except.isOk, Except.toBool, valid.mp outcome]
    | error problem =>
        have invalid : ¬Boundary buffer.rope offset := by
          rw [← valid, outcome]
          nofun
        simp [Except.isOk, Except.toBool, invalid]
  rw [floorCharBoundary, stops, Nat.min_eq_left inside]
  rfl

theorem length_le_utf8Len (text : Text) : text.length ≤ utf8Len text := by
  induction text with
  | nil => simp
  | cons c rest ih =>
      have size := Char.utf8Size_pos c
      simp only [utf8Len_cons, List.length_cons]
      omega

section Loop

variable (toLowercase : Char → List Char) (query : FindQuery) (options : FindOptions)
variable (buffer : RopeBuffer)

/-- The results a scan keeps of everything it could find. -/
def FindResults.of (all : List SourceRange) : FindResults where
  found := all.take maxMatches
  truncated := decide (maxMatches < all.length)

/-- A window ends behind its start, and what is read of it behind that end is enough for any
match.
-/
theorem window_bounds {start total : Nat} (ends : Boundary buffer.rope total)
    (inside : start < total)
    : let searched := windowEnd buffer start total
      let fetched := fetchEnd buffer searched total
      Boundary buffer.rope searched ∧ Boundary buffer.rope fetched
      ∧ start < searched ∧ searched ≤ fetched ∧ fetched ≤ total
      ∧ (fetched = total ∨ searched + 4 * query.text.length ≤ fetched) := by
  have within : total ≤ buffer.lenBytes := ends.le
  have small : utf8Len query.text ≤ maxQueryBytes := Nat.le_of_not_gt query.bounded
  have short := length_le_utf8Len query.text
  have room : windowSlackBytes = 4 * maxQueryBytes + 8 := rfl
  have core : 3 < windowCoreBytes := by decide
  dsimp only [windowEnd, fetchEnd]
  rw [floorCharBoundary_eq buffer (by omega : min (start + windowCoreBytes) total ≤ _)]
  have near := floorBoundary_near buffer.rope
    (by exact Nat.le_trans (Nat.min_le_right _ _) within :
      min (start + windowCoreBytes) total ≤ utf8Len buffer.rope)
  have below := floorBoundary_le buffer.rope (min (start + windowCoreBytes) total)
  have found := boundary_floorBoundary buffer.rope (min (start + windowCoreBytes) total)
  have behind : start < floorBoundary buffer.rope (min (start + windowCoreBytes) total) := by
    rcases Nat.le_total total (start + windowCoreBytes) with last | more
    · rw [Nat.min_eq_right last, floorBoundary_of_boundary ends]
      exact inside
    · omega
  generalize floorBoundary buffer.rope (min (start + windowCoreBytes) total) = searched
    at near below found behind ⊢
  rw [floorCharBoundary_eq buffer (by omega : min (searched + windowSlackBytes) total ≤ _)]
  refine ⟨found, boundary_floorBoundary _ _, behind, le_floorBoundary found (by omega), ?_, ?_⟩
  · exact Nat.le_trans (floorBoundary_le _ _) (Nat.min_le_right _ _)
  · rcases Nat.le_total total (searched + windowSlackBytes) with last | more
    · rw [Nat.min_eq_right last, floorBoundary_of_boundary ends]
      exact .inl rfl
    · have close := floorBoundary_near buffer.rope
        (by exact Nat.le_trans more within :
          searched + windowSlackBytes ≤ utf8Len buffer.rope)
      rw [Nat.min_eq_left more]
      exact .inr (by omega)

/-- From any boundary on the windows find what one greedy scan of the rest finds, by induction on
the rest.
-/
theorem scanWindows_greedy {total : Nat} (ends : Boundary buffer.rope total) {start : Nat}
    (starts : Boundary buffer.rope start) (within : start ≤ total) {state : ScanState}
    (few : state.found.length ≤ maxMatches)
    : scanWindows toLowercase neverCancelled query options buffer total start state
      = some (.completed (.of (state.found
          ++ greedy toLowercase query options start (substring buffer.rope start total)))) := by
  induction left : total - start using Nat.strongRecOn generalizing start state with
  | ind left ih =>
      rw [scanWindows]
      split
      next inside =>
        obtain ⟨windowBoundary, fetchBoundary, behind, covered, bounded, enough⟩ :=
          window_bounds query buffer ends inside
        dsimp only
        generalize windowEnd buffer start total = searched at *
        generalize fetchEnd buffer searched total = fetched at *
        have read := RopeBuffer.text_eq (by omega : start ≤ fetched) starts fetchBoundary
        have size := utf8Len_substring starts fetchBoundary (by omega)
        have whole := substring_append_substring starts fetchBoundary ends (by omega) bounded
        have window : LeavesOff toLowercase query options searched (start + 0)
            (substring buffer.rope start fetched ++ substring buffer.rope fetched total)
            state.found
            (scanWindow toLowercase neverCancelled query options start searched
              (0 + utf8Len (substring buffer.rope start fetched))
              (charIndices 0 (substring buffer.rope start fetched))
              { state with polls := state.polls + 1, resumeFrom := searched }) := by
          apply scanWindow_leavesOff
          · rcases enough with rfl | room
            · exact .inl (substring_self ends)
            · exact .inr (by omega)
          · intro _
            exact starts.substring windowBoundary fetchBoundary (by omega) covered
          · dsimp only
            omega
          · exact few
        rw [Nat.add_zero, Nat.zero_add, whole] at window
        rw [read]
        simp only [neverCancelled, Bool.false_eq_true, if_false]
        split
        next cancelled =>
          rw [cancelled] at window
          exact window.elim
        next kept truncated =>
          rw [truncated] at window
          obtain ⟨rfl, more⟩ := window
          rw [FindResults.of, decide_eq_true more]
        next next finished =>
          rw [finished] at window
          obtain ⟨few, past, front, rest, split, reached, total⟩ := window
          obtain ⟨cut, ordered, tail⟩ := substring_split starts ends within split
          rw [reached] at cut ordered tail
          rw [if_pos (by omega), ih _ (by omega) cut ordered few rfl, total, tail]
      next past =>
        obtain rfl : start = total := by omega
        rw [substring_self ends, greedy, List.append_nil, FindResults.of,
          List.take_of_length_le few, decide_eq_false (by omega)]

end Loop

/-- A scan of a range finds what one greedy scan of its text from left to right finds, kept up to
`maxMatches` and marked as truncated exactly when there is one more; a scan of the document does
so for its whole text.
-/
theorem scan_greedy (toLowercase : Char → List Char) (query : FindQuery) (options : FindOptions)
    (buffer : RopeBuffer)
    : (∀ range, buffer.validateRange range = .ok () →
        ∃ text all,
          buffer.text range = .ok text
          ∧ GreedyScan toLowercase query options range.start text all
          ∧ scanRange toLowercase neverCancelled query options buffer range
            = .ok (some (.completed {
                found := all.take maxMatches
                truncated := decide (maxMatches < all.length) })))
      ∧ ∃ all,
          GreedyScan toLowercase query options 0 buffer.fullText all
          ∧ scan toLowercase neverCancelled query options buffer
            = some (.completed {
                found := all.take maxMatches
                truncated := decide (maxMatches < all.length) }) := by
  have bounded : ∀ {start stop}, start ≤ stop → Boundary buffer.rope start
      → Boundary buffer.rope stop →
      scanBounded toLowercase neverCancelled query options buffer start stop
        = some (.completed (.of
            (greedy toLowercase query options start (substring buffer.rope start stop)))) :=
    fun ordered first last =>
      scanWindows_greedy toLowercase query options buffer last first ordered
        (Nat.zero_le maxMatches)
  constructor
  · intro range valid
    obtain ⟨ordered, first, last⟩ := (RopeBuffer.validateRange_ok_iff buffer range).mp valid
    refine ⟨_, _, RopeBuffer.text_eq ordered first last, greedy_scan toLowercase query options _ _,
      ?_⟩
    rw [scanRange, valid, (RopeBuffer.validateOffset_ok_iff _ _).mpr first,
      (RopeBuffer.validateOffset_ok_iff _ _).mpr last, bounded ordered first last]
    rfl
  · refine ⟨_, greedy_scan toLowercase query options 0 _, ?_⟩
    have whole := bounded (Nat.zero_le _) (Boundary.zero buffer.rope)
      (Boundary.utf8Len buffer.rope)
    rw [substring_whole] at whole
    exact whole

end Hane.Editing
