import Hane.Document.Boundaries
import Hane.Foundations.Acceptors
import Hane.Foundations.Utf8Bytes
import Hane.Markdown.Syntax
import Mathlib.Data.List.DropRight
import Mathlib.Logic.Function.Basic

/-! Bare URLs in running text. The scan decides the extent of a candidate in one pass; it finds
what a scan of whole candidates finds.
-/

namespace Hane.Markdown

open Hane.Document Hane.Foundations

-- Characters

/-- `char::is_control`. -/
def isControl (c : Char) : Bool := c.toNat < 0x20 || (0x7F ≤ c.toNat && c.toNat < 0xA0)

/-- The characters that end a candidate, besides white space and control characters. The third to
the sixth are the quotation marks, the backtick and the backslash.
-/
def urlTerminators : List Char :=
  ['<', '>', '\x27', '\x22', '\x60', '\x5c', '。', '、', '！', '？', '：', '；', '（', '）', '「',
    '」', '『', '』', '【', '】', '〈', '〉', '《', '》']

def isUrlTerminator (ch : Char) : Bool :=
  isWhitespace ch || isControl ch || urlTerminators.contains ch

/-- The kind of a bracket and whether it opens. -/
def bracket : Char → Option (Fin 3 × Bool)
  | '(' => some (0, true)
  | ')' => some (0, false)
  | '[' => some (1, true)
  | ']' => some (1, false)
  | '{' => some (2, true)
  | '}' => some (2, false)
  | _ => none

/-- No bracket of any kind is open. -/
def noDepth : Fin 3 → Nat := fun _ => 0

/-- The depths of the three kinds of bracket behind a character; none at a closing bracket that
matches nothing.
-/
def depthBehind (depth : Fin 3 → Nat) (ch : Char) : Option (Fin 3 → Nat) :=
  match bracket ch with
  | none => some depth
  | some (kind, opens) =>
      if opens then
        some (Function.update depth kind (depth kind + 1))
      else if depth kind = 0 then
        none
      else
        some (Function.update depth kind (depth kind - 1))

-- Candidates

/-- The first loop of `trim_bare_url`: the offset of the first unmatched closing bracket, or the
length.
-/
def cutFrom (depth : Fin 3 → Nat) (offset : Nat) : Text → Nat
  | [] => offset
  | ch :: rest =>
      match depthBehind depth ch with
      | none => offset
      | some depth => cutFrom depth (offset + ch.utf8Size) rest

def isTrailingPunctuation (ch : Char) : Bool :=
  ['.', ',', ':', ';', '!', '?', '*', '_', '~'].contains ch

def isOpeningBracket (ch : Char) : Bool := ['(', '[', '{'].contains ch

/-- `strip_suffix` with the opening brackets. -/
def stripOpeningBracket (text : Text) : Text :=
  if text.getLast?.any isOpeningBracket then text.dropLast else text

theorem stripOpeningBracket_isPrefix (text : Text) : stripOpeningBracket text <+: text := by
  unfold stripOpeningBracket
  split
  · exact List.dropLast_prefix text
  · exact List.prefix_refl text

/-- One round of the second loop of `trim_bare_url`. -/
def trimRound (trimmed : Text) : Text :=
  stripOpeningBracket (trimmed.rdropWhile isTrailingPunctuation)

theorem trimRound_isPrefix (trimmed : Text) : trimRound trimmed <+: trimmed :=
  (stripOpeningBracket_isPrefix _).trans (List.rdropWhile_prefix _ trimmed)

theorem trimRound_eq_of_utf8Len {trimmed : Text}
    (same : utf8Len (trimRound trimmed) = utf8Len trimmed) : trimRound trimmed = trimmed := by
  obtain ⟨dropped, whole⟩ := trimRound_isPrefix trimmed
  have total := congrArg utf8Len whole
  rw [utf8Len_append] at total
  have none := (utf8Len_eq_zero_iff dropped).mp (by omega)
  rwa [none, List.append_nil] at whole

/-- The second loop of `trim_bare_url`. -/
def trimTail (trimmed : Text) : Text :=
  if utf8Len (trimRound trimmed) = utf8Len trimmed then trimmed else trimTail (trimRound trimmed)
termination_by trimmed.length
decreasing_by
  rename_i shorter
  refine Nat.lt_of_le_of_ne (trimRound_isPrefix trimmed).length_le fun same => shorter ?_
  rw [(trimRound_isPrefix trimmed).eq_of_length same]

def trimBareUrl (candidate : Text) : Option Text :=
  (slice? candidate 0 (cutFrom noDepth 0 candidate)).map trimTail

/-- The length of the candidate at the start of a text, from one pass over it. -/
def extentFrom (depth : Fin 3 → Nat) (offset : Nat) : Text → Nat
  | [] => offset
  | ch :: rest =>
      if isUrlTerminator ch then
        offset
      else
        match depthBehind depth ch with
        | none => offset
        | some depth => extentFrom depth (offset + ch.utf8Size) rest

def bareUrlExtent (rest : Text) : Nat := extentFrom noDepth 0 rest

-- The scan

def schemes : List Text := ["https://".toList, "http://".toList]

def eqIgnoreAsciiCase (left right : Text) : Bool := left.map Char.toLower == right.map Char.toLower

def schemeLen (rest : Text) : Option Nat :=
  schemes.findSome? fun scheme =>
    if (slice? rest 0 (utf8Len scheme)).any (eqIgnoreAsciiCase · scheme) then
      some (utf8Len scheme)
    else
      none

/-- What the URL parser says about a text it accepts. -/
structure Url where
  scheme : String
  host : Option String

def endsAuthority (ch : Char) : Bool := ['/', '?', '#'].contains ch

/-- An absolute URL with a host and no white space or control character. -/
def isExternalHttpUrl (url : Text) : Bool :=
  match schemeLen url with
  | none => false
  | some length =>
      if url.any fun ch => isWhitespace ch || isControl ch then
        false
      else
        let authority := ((slice? url length (utf8Len url)).getD []).takeWhile (!endsAuthority ·)
        !authority.isEmpty && authority.head? != some '@' && authority.head? != some ':'

section Scan

-- The URL parser the program links.
variable (parseUrl : Text → Option Url)

def isValidBareUrl (candidate : Text) : Bool :=
  isExternalHttpUrl candidate
  && (parseUrl candidate).any fun parsed =>
      ["http", "https"].contains parsed.scheme && parsed.host.isSome

/-- The character in front of a scheme makes it part of another word. -/
def blocksUrl (prev : Char) : Bool := prev.isAlphanum || ['+', '-', '.', '@'].contains prev

def utf8Bytes (text : Text) : List UInt8 := text.flatMap String.utf8EncodeChar

/-- The loop of `scan_bare_urls` from a byte of the slice on. The source slices at that byte, which
panics inside a character.
-/
def scanFrom (source : Text) (sliceStart : Nat) (slice : Text) (index : Nat)
    : Option (List (Nat × Nat)) :=
  if inside : index < (utf8Bytes slice).length then
    if (utf8Bytes slice)[index] ≠ 0x68 ∧ (utf8Bytes slice)[index] ≠ 0x48 then
      scanFrom source sliceStart slice (index + 1)
    else
      (slice? slice index (utf8Len slice)).bind fun rest =>
        if schemeLen rest = none then
          scanFrom source sliceStart slice (index + 1)
        else
          (slice? source 0 (sliceStart + index)).bind fun before =>
            ((slice? rest 0 (bareUrlExtent rest)).bind trimBareUrl).bind fun candidate =>
              (scanFrom source sliceStart slice (index + max (utf8Len candidate) 1)).map
                fun found =>
                  if !before.getLast?.any blocksUrl && isValidBareUrl parseUrl candidate then
                    (index, utf8Len candidate) :: found
                  else
                    found
  else
    some []
termination_by (utf8Bytes slice).length - index

/-- The offset and the length of each bare URL in a slice of the source. -/
def scanBareUrls (source : Text) (sliceStart : Nat) (slice : Text) : Option (List (Nat × Nat)) :=
  scanFrom parseUrl source sliceStart slice 0

/-- The scan by whole candidates: where a scheme starts, the text up to the first terminator,
trimmed. It goes on behind what the trimming left.
-/
def scanCandidates (before : Text) (offset : Nat) (rest : Text) : Option (List (Nat × Nat)) :=
  if rest = [] then
    some []
  else if schemeLen rest = none then
    scanCandidates (before ++ rest.take 1) (offset + utf8Len (rest.take 1)) (rest.drop 1)
  else
    (trimBareUrl (rest.takeWhile (!isUrlTerminator ·))).bind fun candidate =>
      (scanCandidates (before ++ rest.take (max candidate.length 1))
        (offset + utf8Len (rest.take (max candidate.length 1)))
        (rest.drop (max candidate.length 1))).map
        fun found =>
          if !before.getLast?.any blocksUrl && isValidBareUrl parseUrl candidate then
            (offset, utf8Len candidate) :: found
          else
            found
termination_by rest.length
decreasing_by all_goals
  have filled := List.length_pos_iff.mpr ‹_›
  simp only [List.length_drop]
  omega

end Scan

-- Trimming

theorem slice?_start (front back : Text) : slice? (front ++ back) 0 (utf8Len front) = some front := by
  have sliced := slice?_append [] front back
  rwa [utf8Len_nil, Nat.zero_add] at sliced

/-- The cut is behind the longest beginning whose closing brackets all match something. -/
theorem cutFrom_eq (depth : Fin 3 → Nat) (offset : Nat) (candidate : Text)
    : cutFrom depth offset candidate
      = offset + utf8Len (accepted depthBehind depth candidate) := by
  induction candidate generalizing depth offset with
  | nil => rfl
  | cons ch rest ih =>
      unfold cutFrom accepted
      cases depthBehind depth ch with
      | none => rfl
      | some next =>
          simp only [ih, utf8Len_cons]
          omega

theorem extentFrom_eq (depth : Fin 3 → Nat) (offset : Nat) (rest : Text)
    : extentFrom depth offset rest
      = offset
        + utf8Len (accepted depthBehind depth (rest.takeWhile (!isUrlTerminator ·))) := by
  rw [← accepted_guard]
  induction rest generalizing depth offset with
  | nil => rfl
  | cons ch rest ih =>
      unfold extentFrom accepted
      by_cases stop : isUrlTerminator ch = true
      · simp [stop]
      · simp only [if_neg stop]
        cases depthBehind depth ch with
        | none => rfl
        | some next =>
            simp only [ih, utf8Len_cons]
            omega

theorem trimBareUrl_eq (candidate : Text)
    : trimBareUrl candidate = some (trimTail (accepted depthBehind noDepth candidate)) := by
  obtain ⟨back, whole⟩ := accepted_isPrefix depthBehind noDepth candidate
  have sliced := slice?_start (accepted depthBehind noDepth candidate) back
  rw [whole] at sliced
  rw [trimBareUrl, cutFrom_eq, Nat.zero_add, sliced, Option.map_some]

/-- Cutting at the one-pass extent makes no difference to what the trimming leaves. -/
theorem trimBareUrl_extent (rest : Text)
    : (slice? rest 0 (bareUrlExtent rest)).bind trimBareUrl
      = trimBareUrl (rest.takeWhile (!isUrlTerminator ·)) := by
  have begins := accepted_isPrefix depthBehind noDepth (rest.takeWhile (!isUrlTerminator ·))
  obtain ⟨back, whole⟩ := begins.trans (List.takeWhile_prefix _)
  have sliced := slice?_start (accepted depthBehind noDepth (rest.takeWhile (!isUrlTerminator ·))) back
  rw [whole] at sliced
  have again := accepted_of_isPrefix depthBehind (List.prefix_refl
    (accepted depthBehind noDepth (rest.takeWhile (!isUrlTerminator ·))))
  rw [bareUrlExtent, extentFrom_eq, Nat.zero_add, sliced, Option.bind_some, trimBareUrl_eq,
    trimBareUrl_eq, again]

theorem trimTail_isPrefix (trimmed : Text) : trimTail trimmed <+: trimmed := by
  induction trimmed using trimTail.induct with
  | case1 trimmed same =>
      exact ⟨[], by rw [trimTail, if_pos same, List.append_nil]⟩
  | case2 trimmed shorter ih =>
      rw [trimTail, if_neg shorter]
      exact ih.trans (trimRound_isPrefix trimmed)

theorem trimRound_trimTail (trimmed : Text) : trimRound (trimTail trimmed) = trimTail trimmed := by
  induction trimmed using trimTail.induct with
  | case1 trimmed same =>
      rw [trimTail, if_pos same]
      exact trimRound_eq_of_utf8Len same
  | case2 trimmed shorter ih =>
      rw [trimTail, if_neg shorter]
      exact ih

theorem trimBareUrl_isPrefix {candidate trimmed : Text}
    (trims : trimBareUrl candidate = some trimmed) : trimmed <+: candidate := by
  rw [trimBareUrl_eq] at trims
  obtain rfl := Option.some.inj trims
  exact (trimTail_isPrefix _).trans (accepted_isPrefix _ _ _)

theorem trimTail_of_settled {trimmed : Text} (settled : trimRound trimmed = trimmed)
    : trimTail trimmed = trimmed := by
  rw [trimTail, if_pos (congrArg utf8Len settled)]

theorem last_of_settled {trimmed : Text} (settled : trimRound trimmed = trimmed) {last : Char}
    (ends : trimmed.getLast? = some last)
    : isTrailingPunctuation last = false ∧ isOpeningBracket last = false := by
  have whole : trimmed.rdropWhile isTrailingPunctuation = trimmed := by
    have begins := List.rdropWhile_prefix isTrailingPunctuation (l := trimmed)
    refine begins.eq_of_length (Nat.le_antisymm begins.length_le ?_)
    calc trimmed.length = (trimRound trimmed).length := (congrArg List.length settled).symm
      _ ≤ (trimmed.rdropWhile isTrailingPunctuation).length :=
        (stripOpeningBracket_isPrefix _).length_le
  obtain ⟨front, rfl⟩ := List.getLast?_eq_some_iff.mp ends
  constructor
  · have kept := List.rdropWhile_eq_self_iff.mp whole (by simp)
    simpa using kept
  · by_contra opens
    rw [trimRound, whole, stripOpeningBracket, if_pos (by simpa using opens),
      List.dropLast_concat] at settled
    have length := congrArg List.length settled
    simp at length

-- Bytes of a text

theorem utf8Bytes_append (front back : Text)
    : utf8Bytes (front ++ back) = utf8Bytes front ++ utf8Bytes back :=
  List.flatMap_append

theorem length_utf8Bytes (text : Text) : (utf8Bytes text).length = utf8Len text := by
  induction text with
  | nil => rfl
  | cons c rest ih =>
      change (String.utf8EncodeChar c ++ utf8Bytes rest).length = _
      rw [List.length_append, ih, String.length_utf8EncodeChar, utf8Len_cons]

theorem utf8Bytes_getElem? (front tail : Text) {c : Char} {place : Nat}
    (inside : place < c.utf8Size)
    : (utf8Bytes (front ++ c :: tail))[utf8Len front + place]?
      = (String.utf8EncodeChar c)[place]? := by
  have size := String.length_utf8EncodeChar c
  rw [utf8Bytes_append, ← length_utf8Bytes, List.getElem?_append_right (by omega),
    Nat.add_sub_cancel_left]
  exact List.getElem?_append_left (by omega)

/-- The scan looks at a character that may start a scheme. -/
def LeadsScheme (c : Char) : Prop := c = 'h' ∨ c = 'H'

theorem passes_of_not_leads {c : Char} {byte : UInt8} (other : ¬LeadsScheme c)
    (member : byte ∈ String.utf8EncodeChar c) : byte ≠ 0x68 ∧ byte ≠ 0x48 := by
  constructor
  · rintro rfl
    exact other (.inl (Char.toNat_inj.mp (toNat_of_mem_encode member (by decide))))
  · rintro rfl
    exact other (.inr (Char.toNat_inj.mp (toNat_of_mem_encode member (by decide))))

theorem toLower_leads {c : Char} (lower : c.toLower = 'h') : LeadsScheme c := by
  unfold Char.toLower at lower
  split at lower
  · rename_i capital
    right
    have value := congrArg (fun c : Char => c.val.toNat) lower
    simp only [UInt32.toNat_add, ge_iff_le, UInt32.le_iff_toNat_le] at value capital
    refine Char.toNat_inj.mp ?_
    change c.val.toNat = 72
    change (c.val.toNat + 32) % 2 ^ 32 = 104 at value
    change 65 ≤ c.val.toNat ∧ c.val.toNat ≤ 90 at capital
    omega
  · exact .inl lower

theorem schemeLen_starts {rest : Text} {length : Nat} (found : schemeLen rest = some length)
    : ∃ c tail, rest = c :: tail ∧ LeadsScheme c := by
  obtain ⟨scheme, member, stands⟩ := List.exists_of_findSome?_eq_some found
  have begins : ∃ others, scheme = 'h' :: others := by
    rcases List.mem_cons.mp member with rfl | member
    · exact ⟨_, rfl⟩
    · obtain rfl := List.mem_singleton.mp member
      exact ⟨_, rfl⟩
  obtain ⟨others, rfl⟩ := begins
  split at stands
  · rename_i same
    obtain ⟨content, sliced, agrees⟩ := (Option.any_eq_true _ _).mp same
    obtain ⟨front, back, rfl, start, -⟩ := exists_of_slice? sliced
    obtain rfl := (utf8Len_eq_zero_iff front).mp start.symm
    have lowered : content.map Char.toLower = _ := beq_iff_eq.mp agrees
    cases content with
    | nil => cases lowered
    | cons c content =>
        obtain ⟨first, -⟩ := List.cons.inj lowered
        exact ⟨c, content ++ back, rfl, toLower_leads first⟩
  · cases stands

-- One step of the scan

section Steps

variable {parseUrl : Text → Option Url} {source : Text} {sliceStart : Nat}

theorem scanFrom_pass {slice : Text} {index : Nat} {byte : UInt8}
    (read : (utf8Bytes slice)[index]? = some byte) (other : byte ≠ 0x68 ∧ byte ≠ 0x48)
    : scanFrom parseUrl source sliceStart slice index
      = scanFrom parseUrl source sliceStart slice (index + 1) := by
  obtain ⟨inside, rfl⟩ := List.getElem?_eq_some_iff.mp read
  rw [scanFrom, dif_pos inside, if_pos other]

/-- The scan passes the bytes of a character that starts no scheme, by induction on those left. -/
theorem scanFrom_skip (parseUrl : Text → Option Url) (source : Text) (sliceStart : Nat)
    (front tail : Text) {c : Char} (other : ¬LeadsScheme c) {left : Nat}
    (inside : left ≤ c.utf8Size)
    : scanFrom parseUrl source sliceStart (front ++ c :: tail)
        (utf8Len front + (c.utf8Size - left))
      = scanFrom parseUrl source sliceStart (front ++ c :: tail)
        (utf8Len front + c.utf8Size) := by
  induction left with
  | zero => rfl
  | succ left ih =>
      have size := String.length_utf8EncodeChar c
      have within : c.utf8Size - (left + 1) < (String.utf8EncodeChar c).length := by omega
      have read := utf8Bytes_getElem? front tail
        (show c.utf8Size - (left + 1) < c.utf8Size by omega)
      rw [List.getElem?_eq_getElem within] at read
      rw [scanFrom_pass read (passes_of_not_leads other (List.getElem_mem within)),
        ← ih (by omega)]
      congr 1
      omega

theorem scanFrom_look {head front tail after : Text} {c : Char} (leads : LeadsScheme c)
    : scanFrom parseUrl (head ++ (front ++ (c :: tail ++ after))) (utf8Len head)
        (front ++ c :: tail) (utf8Len front)
      = if schemeLen (c :: tail) = none then
          scanFrom parseUrl (head ++ (front ++ (c :: tail ++ after))) (utf8Len head)
            (front ++ c :: tail) (utf8Len front + 1)
        else
          (trimBareUrl ((c :: tail).takeWhile (!isUrlTerminator ·))).bind fun candidate =>
            (scanFrom parseUrl (head ++ (front ++ (c :: tail ++ after))) (utf8Len head)
              (front ++ c :: tail) (utf8Len front + max (utf8Len candidate) 1)).map
              fun found =>
                if !(head ++ front).getLast?.any blocksUrl && isValidBareUrl parseUrl candidate
                then
                  (utf8Len front, utf8Len candidate) :: found
                else
                  found := by
  have read := utf8Bytes_getElem? front tail (Char.utf8Size_pos c)
  have first : ∃ byte, (String.utf8EncodeChar c)[0]? = some byte
      ∧ ¬(byte ≠ 0x68 ∧ byte ≠ 0x48) := by
    rcases leads with rfl | rfl
    · exact ⟨0x68, rfl, by decide⟩
    · exact ⟨0x48, rfl, by decide⟩
  obtain ⟨byte, first, look⟩ := first
  rw [first, Nat.add_zero] at read
  obtain ⟨inside, rfl⟩ := List.getElem?_eq_some_iff.mp read
  have rest : slice? (front ++ c :: tail) (utf8Len front) (utf8Len (front ++ c :: tail))
      = some (c :: tail) := by
    have sliced := slice?_append front (c :: tail) []
    rwa [List.append_nil, ← utf8Len_append] at sliced
  have before : slice? (head ++ (front ++ (c :: tail ++ after))) 0 (utf8Len head + utf8Len front)
      = some (head ++ front) := by
    rw [← List.append_assoc, ← utf8Len_append]
    exact slice?_start _ _
  rw [scanFrom, dif_pos inside, if_neg look, rest, Option.bind_some, before, Option.bind_some,
    trimBareUrl_extent]

end Steps

/-- The scan over the bytes of a slice is the scan by whole candidates, by induction on the length
of what is left of the slice.
-/
theorem scanFrom_eq (parseUrl : Text → Option Url) (head front rest after : Text)
    : scanFrom parseUrl (head ++ (front ++ (rest ++ after))) (utf8Len head) (front ++ rest)
        (utf8Len front)
      = scanCandidates parseUrl (head ++ front) (utf8Len front) rest := by
  induction size : rest.length using Nat.strong_induction_on generalizing front rest with
  | _ length ih =>
      cases rest with
      | nil =>
          rw [scanFrom, dif_neg (by rw [List.append_nil, length_utf8Bytes]; omega),
            scanCandidates, if_pos rfl]
      | cons c tail =>
          have goesOn (passed later : Text) (split : passed ++ later = c :: tail)
              (filled : passed ≠ [])
              : scanFrom parseUrl (head ++ (front ++ (c :: tail ++ after))) (utf8Len head)
                  (front ++ c :: tail) (utf8Len front + utf8Len passed)
                = scanCandidates parseUrl (head ++ front ++ passed)
                  (utf8Len front + utf8Len passed) later := by
            have positive := List.length_pos_iff.mpr filled
            have total := congrArg List.length split
            rw [List.length_append, size] at total
            have next := ih later.length (by omega) (front ++ passed) later rfl
            simp only [utf8Len_append, List.append_assoc] at next
            rw [← split]
            simpa only [List.append_assoc] using next
          have single := goesOn [c] tail rfl (by simp)
          rw [scanCandidates, if_neg (List.cons_ne_nil c tail)]
          by_cases leads : LeadsScheme c
          · have lead : c.utf8Size = 1 := by
              rcases leads with rfl | rfl <;> rfl
            rw [scanFrom_look leads]
            by_cases none : schemeLen (c :: tail) = none
            · rw [if_pos none, if_pos none]
              simpa [lead] using single
            · rw [if_neg none, if_neg none]
              obtain ⟨candidate, trimmed⟩ : ∃ candidate,
                  trimBareUrl ((c :: tail).takeWhile (!isUrlTerminator ·)) = some candidate :=
                ⟨_, trimBareUrl_eq _⟩
              have begins := trimBareUrl_isPrefix trimmed
              obtain ⟨later, split⟩ := begins.trans (List.takeWhile_prefix _)
              rw [trimmed, Option.bind_some, Option.bind_some]
              have passed : utf8Len ((c :: tail).take (max candidate.length 1))
                  = max (utf8Len candidate) 1 := by
                cases candidate with
                | nil => simp [lead]
                | cons first others =>
                    have positive := Char.utf8Size_pos first
                    rw [Nat.max_eq_left (by simp), ← split, List.take_left,
                      Nat.max_eq_left (by rw [utf8Len_cons]; omega)]
              have next := goesOn _ _
                (List.take_append_drop (max candidate.length 1) (c :: tail)) (by simp)
              rw [passed] at next
              rw [next, passed]
          · have none : schemeLen (c :: tail) = none := by
              by_contra found
              obtain ⟨length, found⟩ := Option.ne_none_iff_exists'.mp found
              obtain ⟨_, _, same, first⟩ := schemeLen_starts found
              obtain ⟨rfl, -⟩ := List.cons.inj same
              exact leads first
            have skipped := scanFrom_skip parseUrl (head ++ (front ++ (c :: tail ++ after)))
              (utf8Len head) front tail leads (Nat.le_refl c.utf8Size)
            rw [Nat.sub_self, Nat.add_zero] at skipped
            rw [if_pos none, skipped]
            simpa using single

-- What is found

/-- Spans of a text at an offset: in order, apart, and none of them empty. -/
structure SpansOf (offset : Nat) (text : Text) (found : List (Nat × Nat)) : Prop where
  inside : ∀ span ∈ found, ∃ front url back,
    text = front ++ (url ++ back)
    ∧ url ≠ []
    ∧ span = (offset + utf8Len front, utf8Len url)
  ordered : found.Pairwise fun first second => first.1 + first.2 ≤ second.1

theorem SpansOf.behind {offset : Nat} {passed later : Text} {found : List (Nat × Nat)}
    (spans : SpansOf (offset + utf8Len passed) later found)
    : SpansOf offset (passed ++ later) found where
  inside := by
    intro span member
    obtain ⟨front, url, back, rfl, filled, rfl⟩ := spans.inside span member
    refine ⟨passed ++ front, url, back, (List.append_assoc _ _ _).symm, filled, ?_⟩
    rw [utf8Len_append, Nat.add_assoc]
  ordered := spans.ordered

theorem SpansOf.cons {offset : Nat} {url later : Text} {found : List (Nat × Nat)}
    (filled : url ≠ []) (spans : SpansOf (offset + utf8Len url) later found)
    : SpansOf offset (url ++ later) ((offset, utf8Len url) :: found) where
  inside := by
    intro span member
    rcases List.mem_cons.mp member with rfl | member
    · exact ⟨[], url, later, rfl, filled, rfl⟩
    · exact spans.behind.inside span member
  ordered := by
    refine List.pairwise_cons.mpr ⟨?_, spans.ordered⟩
    intro span member
    obtain ⟨front, _, _, _, _, rfl⟩ := spans.inside span member
    exact Nat.le_add_right _ _

theorem isValidBareUrl_filled {parseUrl : Text → Option Url} {candidate : Text}
    (valid : isValidBareUrl parseUrl candidate = true) : candidate ≠ [] := by
  rintro rfl
  rw [isValidBareUrl, Bool.and_eq_true] at valid
  have external := valid.1
  unfold isExternalHttpUrl at external
  split at external
  · cases external
  · rename_i found
    obtain ⟨_, _, impossible, _⟩ := schemeLen_starts found
    cases impossible

/-- The scan by whole candidates finds spans of the text, by induction on its length. -/
theorem scanCandidates_spans (parseUrl : Text → Option Url) (before : Text) (offset : Nat)
    (rest : Text)
    : ∃ found, scanCandidates parseUrl before offset rest = some found
      ∧ SpansOf offset rest found := by
  induction size : rest.length using Nat.strong_induction_on generalizing before offset rest with
  | _ length ih =>
      rw [scanCandidates]
      by_cases empty : rest = []
      · subst empty
        exact ⟨[], rfl, ⟨by simp, List.Pairwise.nil⟩⟩
      · have filled := List.length_pos_iff.mpr empty
        rw [if_neg empty]
        by_cases none : schemeLen rest = none
        · obtain ⟨found, scanned, spans⟩ := ih (rest.drop 1).length
            (by rw [List.length_drop]; omega) (before ++ rest.take 1)
            (offset + utf8Len (rest.take 1)) (rest.drop 1) rfl
          refine ⟨found, by rw [if_pos none, scanned], ?_⟩
          have behind := spans.behind
          rwa [List.take_append_drop] at behind
        · obtain ⟨candidate, trimmed⟩ : ∃ candidate,
              trimBareUrl (rest.takeWhile (!isUrlTerminator ·)) = some candidate :=
            ⟨_, trimBareUrl_eq _⟩
          obtain ⟨later, split⟩ :=
            (trimBareUrl_isPrefix trimmed).trans (List.takeWhile_prefix _)
          obtain ⟨found, scanned, spans⟩ := ih (rest.drop (max candidate.length 1)).length
            (by rw [List.length_drop]; omega) (before ++ rest.take (max candidate.length 1))
            (offset + utf8Len (rest.take (max candidate.length 1)))
            (rest.drop (max candidate.length 1)) rfl
          refine ⟨_, by rw [if_neg none, trimmed, Option.bind_some, scanned, Option.map_some], ?_⟩
          split
          · rename_i taken
            have url := isValidBareUrl_filled (Bool.and_eq_true_iff.mp taken).2
            have long := List.length_pos_iff.mpr url
            rw [Nat.max_eq_left long, ← split, List.take_left, List.drop_left] at spans
            rw [← split]
            exact spans.cons url
          · have behind := spans.behind
            rwa [List.take_append_drop] at behind

/-- The scan of any slice of a source ends, with the spans the scan by whole candidates finds:
in order, apart, not empty, and between character boundaries of the slice. The extent of a
candidate cuts where the trimming would, and the trimming is idempotent.
-/
theorem scanBareUrls_reference (parseUrl : Text → Option Url) (before slice after : Text)
    : (∃ found,
        scanBareUrls parseUrl (before ++ (slice ++ after)) (utf8Len before) slice = some found
        ∧ scanCandidates parseUrl before 0 slice = some found
        ∧ (∀ span ∈ found,
            0 < span.2
            ∧ Boundary slice span.1
            ∧ Boundary slice (span.1 + span.2)
            ∧ span.1 + span.2 ≤ utf8Len slice)
        ∧ found.Pairwise fun first second => first.1 + first.2 ≤ second.1)
      ∧ (∀ rest,
          (slice? rest 0 (bareUrlExtent rest)).bind trimBareUrl
          = trimBareUrl (rest.takeWhile (!isUrlTerminator ·)))
      ∧ ∀ candidate, ∃ trimmed,
          trimBareUrl candidate = some trimmed
          ∧ trimBareUrl trimmed = some trimmed
          ∧ ∀ last ∈ trimmed.getLast?,
              isTrailingPunctuation last = false ∧ isOpeningBracket last = false := by
  refine ⟨?_, trimBareUrl_extent, ?_⟩
  · obtain ⟨found, scanned, spans⟩ := scanCandidates_spans parseUrl before 0 slice
    have same := scanFrom_eq parseUrl before [] slice after
    simp only [List.nil_append, List.append_nil, utf8Len_nil] at same
    refine ⟨found, same.trans scanned, scanned, ?_, spans.ordered⟩
    intro span member
    obtain ⟨front, url, back, rfl, filled, rfl⟩ := spans.inside span member
    have size : utf8Len url ≠ 0 := fun none => filled ((utf8Len_eq_zero_iff url).mp none)
    have first := Boundary.of_append front (url ++ back)
    have last := Boundary.of_append (front ++ url) back
    rw [utf8Len_append, List.append_assoc] at last
    simp only [Nat.zero_add, utf8Len_append]
    exact ⟨by omega, first, last, by omega⟩
  · intro candidate
    have settled := trimRound_trimTail (accepted depthBehind noDepth candidate)
    have again := accepted_of_isPrefix depthBehind
      (trimTail_isPrefix (accepted depthBehind noDepth candidate))
    refine ⟨_, trimBareUrl_eq candidate, ?_, fun last ends => last_of_settled settled ends⟩
    rw [trimBareUrl_eq, again, trimTail_of_settled settled]

end Hane.Markdown
