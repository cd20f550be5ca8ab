import Hane.Foundations.Utf8Bytes
import Hane.Session.SearchStream

/-! What a run of the search reader returns: the same for every split of the source and every buffer
size, valid UTF-8 without NUL, and the input with its lone CRs turned into LFs.
-/

namespace Hane.Session

open Hane.Foundations

-- The validator accepts UTF-8

namespace Utf8Validator

/-- All bytes are pushed, and the last character is complete. -/
def accepts : Utf8Validator → List UInt8 → Bool
  | validator, [] => validator.isComplete
  | validator, byte :: rest =>
      match validator.push byte with
      | none => false
      | some next => next.accepts rest

/-- A continuation byte that is owed has to be within its bounds. -/
theorem accepts_owed {validator : Utf8Validator} (owed : 0 < validator.remaining) (byte : UInt8)
    (rest : List UInt8)
    : accepts validator (byte :: rest) = true
      ↔ (validator.nextMin ≤ byte ∧ byte ≤ validator.nextMax)
        ∧ accepts ⟨validator.remaining - 1, 0x80, 0xBF⟩ rest = true := by
  rw [accepts, push, if_pos owed]
  by_cases outside : byte < validator.nextMin ∨ byte > validator.nextMax
  · rw [if_pos outside]
    refine iff_of_false Bool.false_ne_true fun inside => ?_
    rcases outside with low | high
    · exact absurd inside.1.1 (UInt8.not_le.mpr low)
    · exact absurd inside.1.2 (UInt8.not_le.mpr high)
  · rw [if_neg outside]
    obtain ⟨low, high⟩ := not_or.mp outside
    exact ⟨fun accepted => ⟨⟨UInt8.not_lt.mp low, UInt8.not_lt.mp high⟩, accepted⟩, And.right⟩

theorem not_accepts_owed {validator : Utf8Validator} (owed : 0 < validator.remaining)
    : accepts validator [] = false := by
  rw [accepts, isComplete, beq_eq_false_iff_ne]
  rintro none_
  rw [none_] at owed
  exact absurd owed (by decide)

/-- The validator owes `count` continuation bytes behind a lead byte and bounds the first. -/
def Owes (validator : Utf8Validator) (lead : UInt8) (count : UInt8) : Prop :=
  ∃ low high, validator.push lead = some ⟨count, low, high⟩
    ∧ ∀ second, (low ≤ second ∧ second ≤ high) ↔ SecondByte lead second

theorem accepts_continuation {count : UInt8} (some_ : 0 < count) (bytes : List UInt8)
    : accepts ⟨count, 0x80, 0xBF⟩ bytes = true
      ↔ ∃ byte rest, bytes = byte :: rest ∧ ContinuationByte byte
          ∧ accepts ⟨count - 1, 0x80, 0xBF⟩ rest = true := by
  cases bytes with
  | nil =>
      rw [not_accepts_owed some_]
      exact iff_of_false Bool.false_ne_true fun ⟨_, _, wrong, _⟩ => nomatch wrong
  | cons byte rest =>
      rw [accepts_owed some_]
      constructor
      · exact fun ⟨next, accepted⟩ => ⟨byte, rest, rfl, next, accepted⟩
      · rintro ⟨_, _, ⟨⟩, next, accepted⟩
        exact ⟨next, accepted⟩

theorem Owes.accepts {validator : Utf8Validator} {lead count : UInt8}
    (owes : validator.Owes lead count) (some_ : 0 < count) (rest : List UInt8)
    : validator.accepts (lead :: rest) = true
      ↔ ∃ second behind, rest = second :: behind ∧ SecondByte lead second
          ∧ Utf8Validator.accepts ⟨count - 1, 0x80, 0xBF⟩ behind = true := by
  obtain ⟨low, high, pushed, bounds⟩ := owes
  rw [Utf8Validator.accepts, pushed]
  simp only
  cases rest with
  | nil =>
      rw [not_accepts_owed some_]
      exact iff_of_false Bool.false_ne_true fun ⟨_, _, wrong, _⟩ => nomatch wrong
  | cons second behind =>
      rw [accepts_owed some_, bounds]
      constructor
      · exact fun ⟨next, accepted⟩ => ⟨second, behind, rfl, next, accepted⟩
      · rintro ⟨_, _, ⟨⟩, next, accepted⟩
        exact ⟨next, accepted⟩

variable {validator : Utf8Validator} (complete : validator.isComplete = true)
include complete

theorem push_complete (byte : UInt8)
    : validator.push byte
      = if byte ≤ 0x7F then some validator
        else if 0xC2 ≤ byte ∧ byte ≤ 0xDF then some ⟨1, 0x80, 0xBF⟩
        else if byte = 0xE0 then some ⟨2, 0xA0, 0xBF⟩
        else if (0xE1 ≤ byte ∧ byte ≤ 0xEC) ∨ (0xEE ≤ byte ∧ byte ≤ 0xEF) then
          some ⟨2, 0x80, 0xBF⟩
        else if byte = 0xED then some ⟨2, 0x80, 0x9F⟩
        else if byte = 0xF0 then some ⟨3, 0x90, 0xBF⟩
        else if 0xF1 ≤ byte ∧ byte ≤ 0xF3 then some ⟨3, 0x80, 0xBF⟩
        else if byte = 0xF4 then some ⟨3, 0x80, 0x8F⟩
        else none := by
  rw [push, if_neg]
  rw [eq_of_beq complete]
  decide

/-- What a lead byte makes the validator expect, by the ranges it tells apart. -/
theorem push_lead (lead : UInt8)
    : (lead ≤ 0x7F ∧ validator.push lead = some validator)
      ∨ ((0xC2 ≤ lead ∧ lead ≤ 0xDF) ∧ validator.Owes lead 1)
      ∨ ((0xE0 ≤ lead ∧ lead ≤ 0xEF) ∧ validator.Owes lead 2)
      ∨ ((0xF0 ≤ lead ∧ lead ≤ 0xF4) ∧ validator.Owes lead 3)
      ∨ (validator.push lead = none ∧ ¬lead ≤ 0x7F ∧ ¬(0xC2 ≤ lead ∧ lead ≤ 0xF4)) := by
  have pushed := push_complete complete lead
  have bounds : ∀ second, SecondByte lead second
      ↔ (0x80 ≤ second ∧ second ≤ 0xBF) ∧ (lead = 0xE0 → 0xA0 ≤ second)
        ∧ (lead = 0xED → second ≤ 0x9F) ∧ (lead = 0xF0 → 0x90 ≤ second)
        ∧ (lead = 0xF4 → second ≤ 0x8F) :=
    fun second => ⟨fun b => ⟨b.1, b.2, b.3, b.4, b.5⟩, fun ⟨a, b, c, d, e⟩ => ⟨a, b, c, d, e⟩⟩
  have owes : ∀ {count low high : UInt8}, validator.push lead = some ⟨count, low, high⟩ →
      (∀ second : UInt8, (low ≤ second ∧ second ≤ high)
        ↔ (0x80 ≤ second ∧ second ≤ 0xBF) ∧ (lead = 0xE0 → 0xA0 ≤ second)
          ∧ (lead = 0xED → second ≤ 0x9F) ∧ (lead = 0xF0 → 0x90 ≤ second)
          ∧ (lead = 0xF4 → second ≤ 0x8F)) →
      validator.Owes lead count :=
    fun found same => ⟨_, _, found, fun second => (same second).trans (bounds second).symm⟩
  split_ifs at pushed with ascii two e0 plain ed f0 four f4
  · exact .inl ⟨ascii, pushed⟩
  · refine .inr (.inl ⟨two, owes pushed fun second => ?_⟩)
    simp only [UInt8.le_iff_toNat_le, ← UInt8.toNat_inj, UInt8.reduceToNat] at two ⊢
    omega
  · refine .inr (.inr (.inl ⟨?_, owes pushed fun second => ?_⟩))
    all_goals
      simp only [UInt8.le_iff_toNat_le, ← UInt8.toNat_inj, UInt8.reduceToNat] at e0 ⊢
      omega
  · refine .inr (.inr (.inl ⟨?_, owes pushed fun second => ?_⟩))
    all_goals
      simp only [UInt8.le_iff_toNat_le, ← UInt8.toNat_inj, UInt8.reduceToNat] at plain ⊢
      omega
  · refine .inr (.inr (.inl ⟨?_, owes pushed fun second => ?_⟩))
    all_goals
      simp only [UInt8.le_iff_toNat_le, ← UInt8.toNat_inj, UInt8.reduceToNat] at ed ⊢
      omega
  · refine .inr (.inr (.inr (.inl ⟨?_, owes pushed fun second => ?_⟩)))
    all_goals
      simp only [UInt8.le_iff_toNat_le, ← UInt8.toNat_inj, UInt8.reduceToNat] at f0 ⊢
      omega
  · refine .inr (.inr (.inr (.inl ⟨?_, owes pushed fun second => ?_⟩)))
    all_goals
      simp only [UInt8.le_iff_toNat_le, ← UInt8.toNat_inj, UInt8.reduceToNat] at four ⊢
      omega
  · refine .inr (.inr (.inr (.inl ⟨?_, owes pushed fun second => ?_⟩)))
    all_goals
      simp only [UInt8.le_iff_toNat_le, ← UInt8.toNat_inj, UInt8.reduceToNat] at f4 ⊢
      omega
  · refine .inr (.inr (.inr (.inr ⟨pushed, ascii, ?_⟩)))
    simp only [UInt8.le_iff_toNat_le, ← UInt8.toNat_inj, UInt8.reduceToNat]
      at ascii two e0 plain ed f0 four f4 ⊢
    omega

theorem owes_of_lead (lead : UInt8)
    : (lead ≤ 0x7F → validator.push lead = some validator)
      ∧ (0xC2 ≤ lead ∧ lead ≤ 0xDF → validator.Owes lead 1)
      ∧ (0xE0 ≤ lead ∧ lead ≤ 0xEF → validator.Owes lead 2)
      ∧ (0xF0 ≤ lead ∧ lead ≤ 0xF4 → validator.Owes lead 3) := by
  rcases push_lead complete lead with
    ⟨leads, found⟩ | ⟨leads, found⟩ | ⟨leads, found⟩ | ⟨leads, found⟩ | ⟨found, leads⟩
  all_goals
    refine ⟨?_, ?_, ?_, ?_⟩ <;> intro other
  all_goals first
    | exact found
    | simp only [UInt8.le_iff_toNat_le, UInt8.reduceToNat] at leads other
      omega

omit complete in
/-- The validator accepts exactly valid UTF-8, from any state between two characters, by induction
on the length.
-/
theorem accepts_iff (bytes : List UInt8) {validator : Utf8Validator}
    (complete : validator.isComplete = true)
    : validator.accepts bytes = true ↔ ValidUtf8 bytes := by
  constructor
  · intro accepted
    induction len : bytes.length using Nat.strongRecOn generalizing bytes validator with
    | ind len ih =>
        cases bytes with
        | nil => exact validUtf8_nil
        | cons lead rest =>
            subst len
            rcases push_lead complete lead with
              ⟨leads, found⟩ | ⟨leads, owes⟩ | ⟨leads, owes⟩ | ⟨leads, owes⟩ | ⟨none_, _⟩
            · rw [accepts, found] at accepted
              exact (Utf8Sequence.one leads).validUtf8_append
                (ih _ (by simp) rest complete accepted rfl)
            · obtain ⟨second, behind, rfl, next, accepted⟩ :=
                (owes.accepts (by decide) rest).mp accepted
              exact (Utf8Sequence.two leads next).validUtf8_append
                (ih _ (by simp only [List.length_cons]; omega) behind (by decide) accepted rfl)
            · obtain ⟨second, _, rfl, next, accepted⟩ :=
                (owes.accepts (by decide) rest).mp accepted
              obtain ⟨third, behind, rfl, last, accepted⟩ :=
                (accepts_continuation (by decide) _).mp accepted
              exact (Utf8Sequence.three leads next last).validUtf8_append
                (ih _ (by simp only [List.length_cons]; omega) behind (by decide) accepted rfl)
            · obtain ⟨second, _, rfl, next, accepted⟩ :=
                (owes.accepts (by decide) rest).mp accepted
              obtain ⟨third, _, rfl, more, accepted⟩ :=
                (accepts_continuation (by decide) _).mp accepted
              obtain ⟨fourth, behind, rfl, last, accepted⟩ :=
                (accepts_continuation (by decide) _).mp accepted
              exact (Utf8Sequence.four leads next more last).validUtf8_append
                (ih _ (by simp only [List.length_cons]; omega) behind (by decide) accepted rfl)
            · rw [accepts, none_] at accepted
              cases accepted
  · intro valid
    refine ValidUtf8.induction
      (motive := fun bytes => ∀ validator : Utf8Validator, validator.isComplete = true →
        validator.accepts bytes = true)
      (fun _ complete => complete) (fun first rest formed ih validator complete => ?_) valid
      validator complete
    cases formed with
    | @one lead leads =>
        obtain ⟨found, -⟩ := owes_of_lead complete lead
        rw [List.singleton_append, accepts, found leads]
        exact ih _ complete
    | @two lead second leads next =>
        obtain ⟨-, owes, -⟩ := owes_of_lead complete lead
        exact ((owes leads).accepts (by decide) _).mpr
          ⟨second, rest, rfl, next, ih _ (by decide)⟩
    | @three lead second third leads next last =>
        obtain ⟨-, -, owes, -⟩ := owes_of_lead complete lead
        exact ((owes leads).accepts (by decide) _).mpr ⟨second, third :: rest, rfl, next,
          (accepts_continuation (by decide) _).mpr ⟨third, rest, rfl, last, ih _ (by decide)⟩⟩
    | @four lead second third fourth leads next more last =>
        obtain ⟨-, -, -, owes⟩ := owes_of_lead complete lead
        exact ((owes leads).accepts (by decide) _).mpr
          ⟨second, third :: fourth :: rest, rfl, next,
            (accepts_continuation (by decide) _).mpr ⟨third, fourth :: rest, rfl, more,
              (accepts_continuation (by decide) _).mpr
                ⟨fourth, rest, rfl, last, ih _ (by decide)⟩⟩⟩

end Utf8Validator

-- The text that is read

def loneCrToLf : List UInt8 → List UInt8
  | [] => []
  | byte :: rest =>
      (if byte = carriageReturn ∧ rest.head? ≠ some lineFeed then lineFeed else byte)
        :: loneCrToLf rest

theorem loneCrToLf_other {byte : UInt8} (other : byte ≠ carriageReturn) (rest : List UInt8)
    : loneCrToLf (byte :: rest) = byte :: loneCrToLf rest := by
  rw [loneCrToLf, if_neg fun lone => other lone.1]

theorem validateByte_ok {utf8 next : Utf8Validator} {byte : UInt8}
    (valid : validateByte utf8 byte = .ok next)
    : byte ≠ 0 ∧ utf8.push byte = some next := by
  unfold validateByte at valid
  split at valid
  · cases valid
  · next visible =>
      split at valid
      · next pushed =>
          cases valid
          exact ⟨visible, pushed⟩
      · cases valid

theorem takeByte_ok {lineBytes : Nat} {utf8 : Utf8Validator} {byte : UInt8} {out : List UInt8}
    {next : Scan} (taken : Scan.takeByte lineBytes utf8 byte = .ok (out, next))
    : byte ≠ 0 ∧ utf8.push byte = some next.utf8
      ∧ ((byte = carriageReturn ∧ out = [] ∧ next.pendingCr = true)
        ∨ (byte ≠ carriageReturn ∧ out = [byte] ∧ next.pendingCr = false)) := by
  unfold Scan.takeByte at taken
  split at taken
  · cases taken
  · split at taken
    · cases taken
    · next valid =>
        obtain ⟨visible, pushed⟩ := validateByte_ok valid
        split at taken
        · next feed =>
            cases taken
            exact ⟨visible, pushed, .inr ⟨by rw [feed]; decide, by rw [feed], rfl⟩⟩
        · split at taken
          · next carriage =>
              cases taken
              exact ⟨visible, pushed, .inl ⟨carriage, rfl, rfl⟩⟩
          · next other =>
              cases taken
              exact ⟨visible, pushed, .inr ⟨other, rfl, rfl⟩⟩

/-- What a run that succeeds says about the bytes and about the text. -/
structure Reads (utf8 : Utf8Validator) (bytes : List UInt8) : Prop where
  accepted : utf8.accepts bytes = true
  visible : (0 : UInt8) ∉ bytes

theorem Reads.cons {utf8 next : Utf8Validator} {byte : UInt8} {rest : List UInt8}
    (visible : byte ≠ 0) (pushed : utf8.push byte = some next) (reads : Reads next rest)
    : Reads utf8 (byte :: rest) where
  accepted := by
    rw [Utf8Validator.accepts, pushed]
    exact reads.accepted
  visible := by
    rw [List.mem_cons, not_or]
    exact ⟨visible.symm, reads.visible⟩

def Scan.waiting (scan : Scan) (bytes : List UInt8) : List UInt8 :=
  if scan.pendingCr then carriageReturn :: bytes else bytes

theorem Scan.waiting_pending {scan : Scan} (pending : scan.pendingCr = true) (bytes : List UInt8)
    : scan.waiting bytes = carriageReturn :: bytes :=
  if_pos pending

theorem Scan.waiting_settled {scan : Scan} (settled : ¬scan.pendingCr = true) (bytes : List UInt8)
    : scan.waiting bytes = bytes :=
  if_neg settled

theorem takeByte_text {lineBytes : Nat} {utf8 : Utf8Validator} {byte : UInt8} {out : List UInt8}
    {next : Scan} {rest : List UInt8} (taken : Scan.takeByte lineBytes utf8 byte = .ok (out, next))
    (reads : Reads next.utf8 rest)
    : out ++ loneCrToLf (next.waiting rest) = loneCrToLf (byte :: rest)
      ∧ Reads utf8 (byte :: rest) := by
  obtain ⟨visible, pushed, kind⟩ := takeByte_ok taken
  refine ⟨?_, reads.cons visible pushed⟩
  rcases kind with ⟨rfl, rfl, pending⟩ | ⟨other, rfl, settled⟩
  · rw [List.nil_append, Scan.waiting_pending pending]
  · rw [Scan.waiting_settled (Bool.eq_false_iff.mp settled), loneCrToLf_other other]
    rfl

theorem finishUtf8_ok {utf8 : Utf8Validator} {out : List UInt8}
    (done : Scan.finishUtf8 utf8 = .ok out)
    : out = [] ∧ Reads utf8 [] := by
  unfold Scan.finishUtf8 at done
  split at done
  · next complete =>
      cases done
      exact ⟨rfl, complete, List.not_mem_nil⟩
  · cases done

/-- A run that succeeds writes the text with its lone CRs turned into LFs, by induction on the
bytes.
-/
theorem scanner_run_ok {bytes : List UInt8} {scan : Scan} {out : List UInt8}
    (done : scanner.run scan bytes = .ok out)
    : out = loneCrToLf (scan.waiting bytes) ∧ Reads scan.utf8 bytes := by
  induction bytes generalizing scan out with
  | nil =>
      rw [Transducer.run] at done
      change scan.finish = .ok out at done
      unfold Scan.finish at done
      split at done
      · next pending =>
          split at done
          · cases done
          · obtain ⟨more, ended, rfl⟩ := putBefore_eq_ok_iff.mp done
            obtain ⟨rfl, reads⟩ := finishUtf8_ok ended
            rw [Scan.waiting_pending pending]
            exact ⟨rfl, reads⟩
      · next settled =>
          obtain ⟨rfl, reads⟩ := finishUtf8_ok done
          rw [Scan.waiting_settled settled]
          exact ⟨rfl, reads⟩
  | cons byte rest ih =>
      rw [Transducer.run, scanner_step] at done
      cases stepped : scan.step byte with
      | error failure =>
          rw [stepped] at done
          cases done
      | ok result =>
          obtain ⟨written, next⟩ := result
          rw [stepped] at done
          obtain ⟨more, behind, rfl⟩ := putBefore_eq_ok_iff.mp done
          obtain ⟨rfl, reads⟩ := ih behind
          unfold Scan.step at stepped
          split at stepped
          · next pending =>
              rw [Scan.waiting_pending pending]
              split at stepped
              · cases stepped
              · split at stepped
                · next feed =>
                    subst feed
                    split at stepped
                    · cases stepped
                    · next utf8 valid =>
                        cases stepped
                        obtain ⟨visible, pushed⟩ := validateByte_ok valid
                        refine ⟨?_, reads.cons visible pushed⟩
                        rw [loneCrToLf, loneCrToLf_other (by decide)]
                        simp [Scan.waiting]
                · next other =>
                    cases taken : Scan.takeByte 0 scan.utf8 byte with
                    | error failure =>
                        rw [taken] at stepped
                        cases stepped
                    | ok result =>
                        rw [taken] at stepped
                        cases stepped
                        obtain ⟨same, reads⟩ := takeByte_text taken reads
                        refine ⟨?_, reads⟩
                        rw [List.cons_append, same, loneCrToLf.eq_2 carriageReturn, if_pos]
                        exact ⟨rfl, fun feed => other (Option.some.inj feed)⟩
          · next settled =>
              rw [Scan.waiting_settled settled]
              exact takeByte_text stepped reads

/-- The bytes a source returns, up to its first empty read. -/
def sourceBytes (source : List (List UInt8)) : List UInt8 :=
  (source.takeWhile (· ≠ [])).flatten

/-- Reading a stream to its end gives what the scanner makes of its bytes, whatever the reads of
the source and the output buffers are. If it succeeds, the bytes are valid UTF-8 without NUL and
the text is theirs with every lone CR turned into LF; and the validator accepts exactly UTF-8.
-/
theorem read_stream (source : List (List UInt8)) (sizes : Nat → Nat)
    (positive : ∀ count, 0 < sizes count)
    : (∃ fuel,
          drain (fun count reader => SearchStreamReader.read count reader) sizes fuel 0 (.new source)
            = some (outcome (sourceBytes source)))
      ∧ (∀ text, outcome (sourceBytes source) = .ok text
        → text = loneCrToLf (sourceBytes source)
          ∧ ValidUtf8 (sourceBytes source)
          ∧ (0 : UInt8) ∉ sourceBytes source)
      ∧ ∀ bytes, Utf8Validator.default.accepts bytes = true ↔ ValidUtf8 bytes := by
  have accepts : ∀ bytes, Utf8Validator.default.accepts bytes = true ↔ ValidUtf8 bytes :=
    fun bytes => Utf8Validator.accepts_iff bytes rfl
  have left : (SearchStreamReader.new source).left = outcome (sourceBytes source) :=
    SearchStreamReader.left_eq rfl
  refine ⟨⟨(SearchStreamReader.new source).size + 1, ?_⟩, fun text done => ?_, accepts⟩
  · rw [← left]
    exact SearchStreamReader.readsFrom.drain positive 0 (fun wrong => nomatch wrong)
      (Nat.lt_succ_self _)
  · obtain ⟨same, reads⟩ := scanner_run_ok done
    exact ⟨same, (accepts _).mp reads.accepted, reads.visible⟩

/-- Witness: a CR at the end of one read with its LF in the next, and a lone CR, read into buffers
of one byte.
-/
theorem read_stream_crlf
    : (∃ fuel,
          drain (fun count reader => SearchStreamReader.read count reader) (fun _ => 1) fuel 0
              (.new [[97, 13], [10, 13], [98]])
            = some (outcome (sourceBytes [[97, 13], [10, 13], [98]])))
      ∧ (∀ text, outcome (sourceBytes [[97, 13], [10, 13], [98]]) = .ok text
        → text = loneCrToLf (sourceBytes [[97, 13], [10, 13], [98]])
          ∧ ValidUtf8 (sourceBytes [[97, 13], [10, 13], [98]])
          ∧ (0 : UInt8) ∉ sourceBytes [[97, 13], [10, 13], [98]])
      ∧ ∀ bytes, Utf8Validator.default.accepts bytes = true ↔ ValidUtf8 bytes :=
  read_stream [[97, 13], [10, 13], [98]] (fun _ => 1) fun _ => Nat.one_pos

end Hane.Session
