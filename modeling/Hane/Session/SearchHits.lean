import Hane.Document.Boundaries
import Hane.Foundations.Checked

/-! The excerpt a search shows around one match of a line. It is at most `maxSearchContextBytes`
long and is centred on the match as far as character boundaries allow.
-/

namespace Hane.Session

open Hane.Document Hane.Foundations

def maxSearchContextBytes : Nat := 1024

structure SearchHit where
  range : SourceRange
  lineNumber : Nat
  contextRange : SourceRange
  contextSource : Text
deriving DecidableEq

/-- A slice that does not end on ordered character boundaries panics. -/
inductive SlicePanic where
  | slice
deriving DecidableEq

def lineContentLen (line : Text) : Nat :=
  if line.getLast? = some '\n' then
    let content := line.dropLast
    if content.getLast? = some '\r' then utf8Len content - 1 else utf8Len content
  else
    utf8Len line

/-- `&text[start..stop]`. -/
def sliceOf (text : Text) (start stop : Nat) : Checked SlicePanic Text :=
  match slice? text start stop with
  | some content => .ok content
  | none => .error (.refused .slice)

/-- `while goesOn(byte) { byte -= 1 }`. -/
def lowerWhile (goesOn : Nat → Bool) (byte : Nat) : Checked SlicePanic Nat :=
  let reached := lowerTo (fun offset => !goesOn offset) byte
  if goesOn reached then .error .overflow else .ok reached

/-- Where the context starts before it is moved to a character boundary. -/
def contextStartByte (sourceLen matchStart matchLen : Nat) : Checked SlicePanic Nat :=
  if sourceLen ≤ maxSearchContextBytes then
    return 0
  else if maxSearchContextBytes ≤ matchLen then
    return matchStart
  else do
    let spare ← subWord maxSearchContextBytes matchLen
    return matchStart - spare / 2

/-- A context that stops before the match is stretched to the match's end, as far as its size
allows.
-/
def coverMatch (source : Text) (contextStart stopByte matchEnd : Nat)
    : Checked SlicePanic Nat :=
  if matchEnd ≤ utf8Len source ∧ stopByte < matchEnd then
    lowerWhile
      (fun byte => decide (contextStart + maxSearchContextBytes < byte)
        || !decide (Boundary source byte))
      matchEnd
  else
    return stopByte

def makeHit (line : Text) (lineOffset lineNumber matchStart matchEnd : Nat)
    : Checked SlicePanic (Option SearchHit) :=
  if ¬Boundary line matchStart ∨ ¬Boundary line matchEnd then
    return none
  else if matchEnd > lineContentLen line then
    return none
  else do
    let source ← sliceOf line 0 (lineContentLen line)
    let boundary := fun byte => decide (Boundary source byte)
    let available := min maxSearchContextBytes (utf8Len source)
    let matchLen ← subWord matchEnd matchStart
    let startByte ← contextStartByte (utf8Len source) matchStart matchLen
    let contextStart ← lowerWhile (fun byte => decide (0 < byte) && !boundary byte) startByte
    let stopByte ← lowerWhile (fun byte => decide (contextStart < byte) && !boundary byte)
      (min (contextStart + available) (utf8Len source))
    let contextEnd ← coverMatch source contextStart stopByte matchEnd
    let contextLen ← subWord contextEnd contextStart
    if contextLen > maxSearchContextBytes then
      return none
    else
      let contextSource ← sliceOf source contextStart contextEnd
      return some {
        range := ⟨lineOffset + matchStart, lineOffset + matchEnd⟩
        lineNumber
        contextRange := ⟨lineOffset + contextStart, lineOffset + contextEnd⟩
        contextSource
      }

-- What the loops reach

theorem exists_lineContent (line : Text)
    : ∃ source terminator, line = source ++ terminator
        ∧ utf8Len source = lineContentLen line := by
  rcases List.eq_nil_or_concat' line with rfl | ⟨content, last, rfl⟩
  · exact ⟨[], [], rfl, rfl⟩
  · by_cases feed : last = '\n'
    · subst feed
      rcases List.eq_nil_or_concat' content with rfl | ⟨front, before, rfl⟩
      · exact ⟨[], ['\n'], rfl, by simp [lineContentLen]⟩
      · by_cases carriage : before = '\r'
        · subst carriage
          have size : ('\r' : Char).utf8Size = 1 := rfl
          exact ⟨front, ['\r', '\n'], by simp, by simp [lineContentLen, size]⟩
        · exact ⟨front ++ [before], ['\n'], by simp, by simp [lineContentLen, carriage]⟩
    · exact ⟨content ++ [last], [], by simp, by simp [lineContentLen, feed]⟩

section Lowering

variable {source : Text}

/-- A count down that does not go below a boundary reaches the nearest one. -/
theorem lowerWhile_above {low byte : Nat} (boundary : Boundary source low) (below : low ≤ byte)
    : lowerWhile (fun offset => decide (low < offset) && !decide (Boundary source offset)) byte
      = .ok (floorBoundary source byte) := by
  have stops : ∀ offset, (!(decide (low < offset) && !decide (Boundary source offset))) = true
      ↔ offset ≤ low ∨ Boundary source offset := by
    intro offset
    simp
  have reached : lowerTo
      (fun offset => !(decide (low < offset) && !decide (Boundary source offset))) byte
      = floorBoundary source byte := by
    apply Nat.le_antisymm
    · have stopped := (stops _).mp (stops_lowerTo
        (fun offset => !(decide (low < offset) && !decide (Boundary source offset)))
        ((stops 0).mpr (.inl (Nat.zero_le low))) byte)
      have above := le_lowerTo
        (fun offset => !(decide (low < offset) && !decide (Boundary source offset)))
        ((stops low).mpr (.inr boundary)) below
      apply le_floorBoundary _ (lowerTo_le _ byte)
      rcases stopped with atLow | found
      · rwa [Nat.le_antisymm atLow above]
      · exact found
    · exact le_lowerTo _ ((stops _).mpr (.inr (boundary_floorBoundary source byte)))
        (floorBoundary_le source byte)
  have found := boundary_floorBoundary source byte
  simp only [lowerWhile, reached, found, decide_true, Bool.not_true, Bool.and_false,
    Bool.false_eq_true, if_false]

theorem lowerWhile_cut {cut byte : Nat} (past : cut ≤ byte)
    : lowerWhile (fun offset => decide (cut < offset) || !decide (Boundary source offset)) byte
      = .ok (floorBoundary source cut) := by
  have stops : ∀ offset, (!(decide (cut < offset) || !decide (Boundary source offset))) = true
      ↔ offset ≤ cut ∧ Boundary source offset := by
    intro offset
    simp
  have found := boundary_floorBoundary source cut
  have inside := floorBoundary_le source cut
  have reached : lowerTo
      (fun offset => !(decide (cut < offset) || !decide (Boundary source offset))) byte
      = floorBoundary source cut := by
    apply Nat.le_antisymm
    · obtain ⟨below, boundary⟩ := (stops _).mp (stops_lowerTo
        (fun offset => !(decide (cut < offset) || !decide (Boundary source offset)))
        ((stops 0).mpr ⟨Nat.zero_le cut, Boundary.zero source⟩) byte)
      exact le_floorBoundary boundary below
    · exact le_lowerTo _ ((stops _).mpr ⟨inside, found⟩) (Nat.le_trans inside past)
  have kept : decide (cut < floorBoundary source cut) = false := by
    simpa using inside
  simp only [lowerWhile, reached, found, kept, decide_true, Bool.not_true, Bool.or_false,
    Bool.false_eq_true, if_false]

end Lowering

-- The excerpt

section Excerpt

variable {source : Text} {matchStart matchEnd : Nat}

/-- The byte the context would start at if every byte were a boundary. -/
def centredStart (sourceLen matchStart matchLen : Nat) : Nat :=
  if sourceLen ≤ maxSearchContextBytes then 0
  else if maxSearchContextBytes ≤ matchLen then matchStart
  else matchStart - (maxSearchContextBytes - matchLen) / 2

theorem contextStartByte_eq (sourceLen matchStart matchLen : Nat)
    : contextStartByte sourceLen matchStart matchLen
      = .ok (centredStart sourceLen matchStart matchLen) := by
  unfold contextStartByte centredStart
  split
  · rfl
  · split
    · rfl
    · rename_i short
      rw [subWord, if_pos (by omega)]
      rfl

theorem centredStart_le (sourceLen matchStart matchLen : Nat)
    : centredStart sourceLen matchStart matchLen ≤ matchStart := by
  unfold centredStart
  split
  · omega
  · split <;> omega

variable (source matchStart matchEnd) in
def contextStart : Nat :=
  floorBoundary source (centredStart (utf8Len source) matchStart (matchEnd - matchStart))

variable (source matchStart matchEnd) in
def contextEnd : Nat :=
  floorBoundary source
    (min (contextStart source matchStart matchEnd + min maxSearchContextBytes (utf8Len source))
      (utf8Len source))

theorem contextStart_le : contextStart source matchStart matchEnd ≤ matchStart :=
  Nat.le_trans (floorBoundary_le source _) (centredStart_le _ _ _)

variable (matchEnd) in
theorem contextStart_le_contextEnd (first : Boundary source matchStart)
    : contextStart source matchStart matchEnd ≤ contextEnd source matchStart matchEnd := by
  have before : contextStart source matchStart matchEnd ≤ matchStart := contextStart_le
  have inside := first.le
  apply le_floorBoundary
  · exact boundary_floorBoundary source _
  · omega

variable (source matchStart matchEnd) in
theorem contextEnd_le
    : contextEnd source matchStart matchEnd ≤ utf8Len source
      ∧ contextEnd source matchStart matchEnd
        ≤ contextStart source matchStart matchEnd + maxSearchContextBytes := by
  have reached : contextEnd source matchStart matchEnd
      ≤ min (contextStart source matchStart matchEnd
          + min maxSearchContextBytes (utf8Len source)) (utf8Len source) :=
    floorBoundary_le source _
  omega

theorem contextStart_of_long (first : Boundary source matchStart)
    (large : maxSearchContextBytes < utf8Len source)
    (long : maxSearchContextBytes ≤ matchEnd - matchStart)
    : contextStart source matchStart matchEnd = matchStart := by
  rw [contextStart, centredStart, if_neg (by omega), if_pos long,
    floorBoundary_of_boundary first]

variable (matchStart) in
/-- Stretching the context changes nothing: it happens only when the room left after the
context's start ends before the match does.
-/
theorem coverMatch_eq (last : Boundary source matchEnd)
    : coverMatch source (contextStart source matchStart matchEnd)
        (contextEnd source matchStart matchEnd) matchEnd
      = .ok (contextEnd source matchStart matchEnd) := by
  have inside := last.le
  unfold coverMatch
  split
  · rename_i short
    have cut : contextStart source matchStart matchEnd
        + min maxSearchContextBytes (utf8Len source) < matchEnd := by
      by_contra room
      have reached : matchEnd ≤ contextEnd source matchStart matchEnd :=
        le_floorBoundary last (by omega)
      omega
    rw [lowerWhile_cut (by omega), contextEnd]
    congr 2
    omega
  · rfl

theorem makeHit_eq {terminator : Text} (lineOffset lineNumber : Nat)
    (content : utf8Len source = lineContentLen (source ++ terminator))
    (first : Boundary source matchStart) (last : Boundary source matchEnd)
    (ordered : matchStart ≤ matchEnd)
    : ∃ contextSource,
        slice? source (contextStart source matchStart matchEnd)
            (contextEnd source matchStart matchEnd)
          = some contextSource
        ∧ makeHit (source ++ terminator) lineOffset lineNumber matchStart matchEnd
          = .ok (some {
              range := ⟨lineOffset + matchStart, lineOffset + matchEnd⟩
              lineNumber
              contextRange := ⟨lineOffset + contextStart source matchStart matchEnd,
                lineOffset + contextEnd source matchStart matchEnd⟩
              contextSource }) := by
  have inside := last.le
  have starts := boundary_floorBoundary source
    (centredStart (utf8Len source) matchStart (matchEnd - matchStart))
  have before : contextStart source matchStart matchEnd ≤ matchStart := contextStart_le
  have forward := contextStart_le_contextEnd matchEnd first
  have limits := contextEnd_le source matchStart matchEnd
  have sliced := slice?_eq forward starts (boundary_floorBoundary source _)
  refine ⟨_, sliced, ?_⟩
  have whole : slice? (source ++ terminator) 0 (lineContentLen (source ++ terminator))
      = some source := by
    rw [← content]
    simpa using slice?_append [] source terminator
  have cutStart : lowerWhile (fun byte => decide (0 < byte) && !decide (Boundary source byte))
      (centredStart (utf8Len source) matchStart (matchEnd - matchStart))
      = .ok (contextStart source matchStart matchEnd) :=
    lowerWhile_above (Boundary.zero source) (Nat.zero_le _)
  have cutStop : lowerWhile
      (fun byte => decide (contextStart source matchStart matchEnd < byte)
        && !decide (Boundary source byte))
      (min (contextStart source matchStart matchEnd
        + min maxSearchContextBytes (utf8Len source)) (utf8Len source))
      = .ok (contextEnd source matchStart matchEnd) :=
    lowerWhile_above starts (by omega)
  have adjusted := coverMatch_eq matchStart last
  rw [makeHit, if_neg (by
    simp only [first.append_left terminator, last.append_left terminator, not_true, or_self,
      not_false_eq_true]), if_neg (by omega)]
  simp only [sliceOf, whole, bind, Except.bind, subWord, if_pos ordered, contextStartByte_eq,
    cutStart, cutStop, adjusted, if_pos forward, sliced, pure, Except.pure]
  rw [if_neg (by omega)]

end Excerpt

-- What a hit shows of its match

/-- The excerpt lies in the content of the line, is bounded, starts at or before the match and
holds all of it; of a match above the limit it holds nothing else, and as much as fits.
-/
structure SearchHit.Shows (hit : SearchHit) (line : Text)
    (lineOffset lineNumber matchStart matchEnd start stop : Nat) : Prop where
  range : hit.range = ⟨lineOffset + matchStart, lineOffset + matchEnd⟩
  number : hit.lineNumber = lineNumber
  context : hit.contextRange = ⟨lineOffset + start, lineOffset + stop⟩
  source : slice? line start stop = some hit.contextSource
  content : stop ≤ lineContentLen line
  bounded : stop ≤ start + maxSearchContextBytes
  before : start ≤ matchStart
  whole : matchEnd - matchStart ≤ maxSearchContextBytes → matchEnd ≤ stop
  filled : maxSearchContextBytes < matchEnd - matchStart
    → start = matchStart ∧ stop ≤ matchEnd ∧ start + maxSearchContextBytes ≤ stop + 3

/-- The context's start finds a character boundary that still leaves room for the match. -/
def MatchFits (line : Text) (matchStart matchEnd : Nat) : Prop :=
  lineContentLen line ≤ maxSearchContextBytes
  ∨ maxSearchContextBytes ≤ matchEnd - matchStart
  ∨ ∃ byte, Boundary line byte
      ∧ matchEnd ≤ byte + maxSearchContextBytes
      ∧ byte ≤ matchStart - (maxSearchContextBytes - (matchEnd - matchStart)) / 2

section Shows

variable {line : Text} {lineOffset lineNumber matchStart matchEnd : Nat}

/-- The excerpt of a match covers it exactly when there is room for it behind the excerpt's
start.
-/
theorem matchFits_iff {source terminator : Text}
    (content : utf8Len source = lineContentLen (source ++ terminator))
    (first : Boundary source matchStart) (last : Boundary source matchEnd)
    (ordered : matchStart ≤ matchEnd)
    : MatchFits (source ++ terminator) matchStart matchEnd
      ↔ (matchEnd - matchStart ≤ maxSearchContextBytes
        → matchEnd ≤ contextEnd source matchStart matchEnd) := by
  have inside := last.le
  have starts := boundary_floorBoundary source
    (centredStart (utf8Len source) matchStart (matchEnd - matchStart))
  have before : contextStart source matchStart matchEnd ≤ matchStart := contextStart_le
  have limits := contextEnd_le source matchStart matchEnd
  rw [MatchFits, ← content]
  constructor
  · intro fits short
    apply le_floorBoundary last
    by_cases large : utf8Len source ≤ maxSearchContextBytes
    · omega
    · by_cases long : maxSearchContextBytes ≤ matchEnd - matchStart
      · have starting := contextStart_of_long first (by omega) long
        omega
      · rcases fits with small | whole | ⟨byte, boundary, room, centred⟩
        · omega
        · omega
        · have found : Boundary source byte := boundary.of_append_left (by omega)
          have reached : byte ≤ contextStart source matchStart matchEnd := by
            rw [contextStart, centredStart, if_neg large, if_neg long]
            exact le_floorBoundary found centred
          omega
  · intro covered
    by_cases large : utf8Len source ≤ maxSearchContextBytes
    · exact .inl large
    · by_cases long : maxSearchContextBytes ≤ matchEnd - matchStart
      · exact .inr (.inl long)
      · refine .inr (.inr ⟨contextStart source matchStart matchEnd,
          starts.append_left terminator, ?_, ?_⟩)
        · have reached := covered (by omega)
          omega
        · have lowered := floorBoundary_le source
            (centredStart (utf8Len source) matchStart (matchEnd - matchStart))
          simpa only [contextStart, centredStart, if_neg large, if_neg long] using lowered

/-- A match above the limit fills the excerpt up to the last character that fits. -/
theorem contextEnd_of_long {source : Text} (first : Boundary source matchStart)
    (last : Boundary source matchEnd)
    (long : maxSearchContextBytes < matchEnd - matchStart)
    : contextEnd source matchStart matchEnd ≤ matchEnd
      ∧ contextStart source matchStart matchEnd + maxSearchContextBytes
        ≤ contextEnd source matchStart matchEnd + 3 := by
  have inside := last.le
  have starting := contextStart_of_long first (by omega) (by omega : _ ≤ matchEnd - matchStart)
  have limits := contextEnd_le source matchStart matchEnd
  have near : matchStart + maxSearchContextBytes
      ≤ floorBoundary source (matchStart + maxSearchContextBytes) + 3 :=
    floorBoundary_near source (by omega)
  have stopping : contextEnd source matchStart matchEnd
      = floorBoundary source (matchStart + maxSearchContextBytes) := by
    rw [contextEnd, starting]
    congr 1
    omega
  omega

/-- A match inside the content of its line always has a hit: no adjustment underflows and no
slice ends inside a character. The hit shows the match exactly when there is room for it behind a
character boundary the context may start at.
-/
theorem makeHit_shows_iff (line : Text) (lineOffset lineNumber matchStart matchEnd : Nat)
    (first : Boundary line matchStart) (last : Boundary line matchEnd)
    (ordered : matchStart ≤ matchEnd) (inside : matchEnd ≤ lineContentLen line)
    : ∃ hit,
        makeHit line lineOffset lineNumber matchStart matchEnd = .ok (some hit)
        ∧ ((∃ start stop,
              hit.Shows line lineOffset lineNumber matchStart matchEnd start stop)
          ↔ MatchFits line matchStart matchEnd) := by
  obtain ⟨source, terminator, rfl, content⟩ := exists_lineContent line
  have first : Boundary source matchStart := first.of_append_left (by omega)
  have last : Boundary source matchEnd := last.of_append_left (by omega)
  obtain ⟨contextSource, sliced, made⟩ :=
    makeHit_eq lineOffset lineNumber content first last ordered
  have limits := contextEnd_le source matchStart matchEnd
  refine ⟨_, made, ?_⟩
  rw [matchFits_iff content first last ordered]
  constructor
  · rintro ⟨start, stop, shows⟩ short
    have stops := congrArg SourceRange.stop shows.context
    have covered := shows.whole short
    simp only at stops
    omega
  · intro covered
    exact ⟨contextStart source matchStart matchEnd, contextEnd source matchStart matchEnd, {
      range := rfl
      number := rfl
      context := rfl
      source := slice?_append_right sliced
      content := by omega
      bounded := limits.2
      before := contextStart_le
      whole := covered
      filled := fun long =>
        ⟨contextStart_of_long first (by omega) (Nat.le_of_lt long),
          contextEnd_of_long first last long⟩ }⟩

/-- Witness: a match of two characters in a short line. -/
theorem makeHit_shows_needle
    : ∃ hit,
        makeHit ['a', 'あ', 'b', 'c', '\r', '\n'] 10 2 4 6 = .ok (some hit)
        ∧ ((∃ start stop, hit.Shows ['a', 'あ', 'b', 'c', '\r', '\n'] 10 2 4 6 start stop)
          ↔ MatchFits ['a', 'あ', 'b', 'c', '\r', '\n'] 4 6) :=
  makeHit_shows_iff _ 10 2 4 6 (by decide +kernel) (by decide +kernel) (by decide)
    (by decide +kernel)

/-- A match two bytes below the limit behind a character of three bytes. -/
def crowdedLine : Text := 'あ' :: List.replicate 1022 'a'

/-- Witness: the excerpt of the crowded line starts at its first character, so it stops one byte
before the match does.
-/
theorem makeHit_cuts_match
    : ¬∃ hit start stop,
        makeHit crowdedLine 0 1 3 1025 = .ok (some hit)
        ∧ hit.Shows crowdedLine 0 1 3 1025 start stop := by
  rintro ⟨hit, start, stop, made, shows⟩
  have content : utf8Len crowdedLine = lineContentLen (crowdedLine ++ []) := by decide +kernel
  have first : Boundary crowdedLine 3 := by decide +kernel
  have last : Boundary crowdedLine 1025 := by decide +kernel
  obtain ⟨contextSource, _, cut⟩ := makeHit_eq 0 1 content first last (by decide)
  have stopped : contextEnd crowdedLine 3 1025 = 1024 := by decide +kernel
  rw [List.append_nil, made] at cut
  cases cut
  have stops := congrArg SourceRange.stop shows.context
  have covered := shows.whole (by decide)
  simp only at stops
  omega

end Shows

end Hane.Session
