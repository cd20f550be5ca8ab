import Hane.Foundations.Transducers

/-! The reader that puts a file's bytes before the searcher: it validates them as UTF-8 without NUL,
bounds the length of a line and turns every lone CR into LF, in pieces of whatever size is asked
for.
-/

namespace Hane.Session

open Hane.Foundations

def maxSearcherHeapBytes : Nat := 1024 * 1024

def lineFeed : UInt8 := 10

def carriageReturn : UInt8 := 13

inductive StreamFailure where
  | nulByte
  | invalidUtf8
  | lineTooLong
deriving DecidableEq

-- The validator

/-- How many continuation bytes are owed, and the bounds of the next one. -/
structure Utf8Validator where
  remaining : UInt8
  nextMin : UInt8
  nextMax : UInt8
deriving DecidableEq

namespace Utf8Validator

def default : Utf8Validator := ⟨0, 0, 0⟩

/-- One byte; `none` when it is refused. -/
def push (validator : Utf8Validator) (byte : UInt8) : Option Utf8Validator :=
  if validator.remaining > 0 then
    if byte < validator.nextMin ∨ byte > validator.nextMax then none
    else some ⟨validator.remaining - 1, 0x80, 0xBF⟩
  else if byte ≤ 0x7F then some validator
  else if 0xC2 ≤ byte ∧ byte ≤ 0xDF then some ⟨1, 0x80, 0xBF⟩
  else if byte = 0xE0 then some ⟨2, 0xA0, 0xBF⟩
  else if (0xE1 ≤ byte ∧ byte ≤ 0xEC) ∨ (0xEE ≤ byte ∧ byte ≤ 0xEF) then some ⟨2, 0x80, 0xBF⟩
  else if byte = 0xED then some ⟨2, 0x80, 0x9F⟩
  else if byte = 0xF0 then some ⟨3, 0x90, 0xBF⟩
  else if 0xF1 ≤ byte ∧ byte ≤ 0xF3 then some ⟨3, 0x80, 0xBF⟩
  else if byte = 0xF4 then some ⟨3, 0x80, 0x8F⟩
  else none

def isComplete (validator : Utf8Validator) : Bool := validator.remaining == 0

end Utf8Validator

-- The reader

/-- The state of a reader that is never cancelled, over a source without errors. -/
structure SearchStreamReader where
  /-- What the next reads of the source return. An empty one, or none, is its end. -/
  source : List (List UInt8)
  /-- The bytes of the raw buffer from `raw_pos` to `raw_len`. -/
  raw : List UInt8
  pendingCr : Bool
  pendingEmit : Option UInt8
  sourceEof : Bool
  eofValidated : Bool
  currentLineBytes : Nat
  utf8 : Utf8Validator
deriving DecidableEq

/-- What one pass of the loop in `read` ends with: another pass, or the bytes written. -/
inductive Pass where
  | again (written : List UInt8) (reader : SearchStreamReader)
  | returned (written : List UInt8) (reader : SearchStreamReader)

def validateByte (utf8 : Utf8Validator) (byte : UInt8) : Except StreamFailure Utf8Validator :=
  if byte = 0 then
    .error .nulByte
  else
    match utf8.push byte with
    | some next => .ok next
    | none => .error .invalidUtf8

/-- The loop that validates a run of plain bytes. -/
def validateBytes : Utf8Validator → List UInt8 → Except StreamFailure Utf8Validator
  | utf8, [] => .ok utf8
  | utf8, byte :: rest =>
      match validateByte utf8 byte with
      | .ok next => validateBytes next rest
      | .error failure => .error failure

def isPlain (byte : UInt8) : Bool := byte != carriageReturn && byte != lineFeed

namespace SearchStreamReader

def new (source : List (List UInt8)) : SearchStreamReader where
  source
  raw := []
  pendingCr := false
  pendingEmit := none
  sourceEof := false
  eofValidated := false
  currentLineBytes := 0
  utf8 := .default

def fillRaw (reader : SearchStreamReader) : SearchStreamReader :=
  match reader.source with
  | [] => { reader with raw := [], sourceEof := true }
  | [] :: source => { reader with source, raw := [], sourceEof := true }
  | (byte :: more) :: source => { reader with source, raw := byte :: more }

def validateEof (reader : SearchStreamReader) : Except StreamFailure SearchStreamReader :=
  if reader.eofValidated then .ok reader
  else if reader.utf8.isComplete then .ok { reader with eofValidated := true }
  else .error .invalidUtf8

/-- The room of the current line, or `none` when the caller has to take what is written first. -/
def lineRoom (reader : SearchStreamReader) (written : List UInt8)
    : Except StreamFailure (Option Nat) :=
  if maxSearcherHeapBytes - reader.currentLineBytes = 0 then
    if written = [] then .error .lineTooLong else .ok none
  else
    .ok (some (maxSearcherHeapBytes - reader.currentLineBytes))

/-- What the reader does with a CR read before, now that it knows what comes behind it. -/
def settleCr (size : Nat) (written : List UInt8) (reader : SearchStreamReader)
    : Except StreamFailure Pass :=
  if reader.raw.head? = some lineFeed then
    match validateByte reader.utf8 lineFeed with
    | .error failure => .error failure
    | .ok utf8 =>
        if (written ++ [carriageReturn]).length < size then
          .ok (.again (written ++ [carriageReturn] ++ [lineFeed]) {
            reader with
            raw := reader.raw.tail, pendingCr := false, utf8, currentLineBytes := 0 })
        else
          .ok (.returned (written ++ [carriageReturn]) {
            reader with
            raw := reader.raw.tail, pendingCr := false, utf8, pendingEmit := some lineFeed })
  else
    .ok (.again (written ++ [lineFeed]) {
      reader with pendingCr := false, currentLineBytes := 0 })

/-- The line terminator behind a run of plain bytes. -/
def takeTerminator (written : List UInt8) (reader : SearchStreamReader) (terminator : UInt8)
    : Except StreamFailure Pass :=
  if terminator = lineFeed then
    match validateByte reader.utf8 lineFeed with
    | .error failure => .error failure
    | .ok utf8 =>
        .ok (.again (written ++ [lineFeed]) {
          reader with raw := reader.raw.tail, utf8, currentLineBytes := 0 })
  else
    match validateByte reader.utf8 carriageReturn with
    | .error failure => .error failure
    | .ok utf8 =>
        .ok (.again written {
          reader with
          raw := reader.raw.tail
          utf8
          currentLineBytes := reader.currentLineBytes + 1
          pendingCr := true })

/-- Copies the plain bytes up to a line terminator, or as many as there is room for. -/
def copyRun (size : Nat) (written : List UInt8) (room : Nat) (reader : SearchStreamReader)
    : Except StreamFailure Pass :=
  let scanLimit := min (min (size - written.length) room) reader.raw.length
  let scanned := reader.raw.take scanLimit
  let plain := scanned.takeWhile isPlain
  match validateBytes reader.utf8 plain with
  | .error failure => .error failure
  | .ok utf8 =>
      let copied := {
        reader with
        raw := reader.raw.drop plain.length
        currentLineBytes := reader.currentLineBytes + plain.length
        utf8 }
      match scanned.dropWhile isPlain with
      | terminator :: _ => takeTerminator (written ++ plain) copied terminator
      | [] => .ok (.again (written ++ plain) copied)

/-- One pass of the loop in `read`, for an output buffer of `size` bytes. -/
def pass (size : Nat) (written : List UInt8) (reader : SearchStreamReader)
    : Except StreamFailure Pass :=
  if size ≤ written.length then
    .ok (.returned written reader)
  else if reader.raw = [] ∧ reader.sourceEof = false then
    .ok (.again written reader.fillRaw)
  else if reader.pendingCr then
    match reader.lineRoom written with
    | .error failure => .error failure
    | .ok none => .ok (.returned written reader)
    | .ok (some _) => settleCr size written reader
  else if reader.raw = [] then
    match reader.validateEof with
    | .error failure => .error failure
    | .ok validated => .ok (.returned written validated)
  else
    match reader.lineRoom written with
    | .error failure => .error failure
    | .ok none => .ok (.returned written reader)
    | .ok (some room) => copyRun size written room reader

/-- The bytes the source has not returned yet. -/
def unreadSource (reader : SearchStreamReader) : List UInt8 :=
  if reader.sourceEof then [] else (reader.source.takeWhile (· ≠ [])).flatten

/-- The bytes the reader has not taken yet. -/
def unread (reader : SearchStreamReader) : List UInt8 := reader.raw ++ reader.unreadSource

/-- The bytes that may still be written: a CR that is settled later counts once more. -/
def size (reader : SearchStreamReader) : Nat :=
  2 * reader.unread.length + reader.pendingCr.toNat + reader.pendingEmit.toList.length

/-- The reads of the source that may still come. -/
def fills (reader : SearchStreamReader) : Nat :=
  if reader.sourceEof then 0 else reader.source.length + 1

/-- What the loop decreases in every pass. -/
def measure (reader : SearchStreamReader) : Nat :=
  2 * reader.unread.length + reader.pendingCr.toNat + reader.fills

-- What a pass takes

theorem fillRaw_unread {reader : SearchStreamReader} (taken : reader.raw = [])
    (more : reader.sourceEof = false)
    : reader.fillRaw.unread = reader.unread ∧ reader.fillRaw.fills < reader.fills := by
  unfold fillRaw unread unreadSource fills
  rw [taken, more]
  split
  · next none_ => simp [none_]
  · next source first => simp [first]
  · next byte rest source first => simp [first]

/-- The plain bytes at the front of what may be scanned, and what stops them, by induction on how
many may be.
-/
theorem exists_run (stops : UInt8 → Bool) {bytes : List UInt8} {limit : Nat}
    (inside : limit ≤ bytes.length)
    : ∃ plain behind,
        bytes = plain ++ behind ∧ (bytes.take limit).takeWhile stops = plain
        ∧ (∀ byte ∈ plain, stops byte = true)
        ∧ (((bytes.take limit).dropWhile stops = [] ∧ plain.length = limit)
          ∨ ∃ byte more rest,
              (bytes.take limit).dropWhile stops = byte :: more ∧ behind = byte :: rest
              ∧ stops byte = false ∧ plain.length < limit) := by
  induction limit generalizing bytes with
  | zero => exact ⟨[], bytes, rfl, rfl, by simp, .inl ⟨rfl, rfl⟩⟩
  | succ limit ih =>
      cases bytes with
      | nil => cases inside
      | cons byte rest =>
          rw [List.take_succ_cons]
          by_cases passes : stops byte = true
          · rw [List.takeWhile_cons_of_pos passes, List.dropWhile_cons_of_pos passes]
            obtain ⟨plain, behind, split, taken, all, ends⟩ := ih (Nat.le_of_succ_le_succ inside)
            refine ⟨byte :: plain, behind, by rw [split]; rfl, by rw [taken], ?_, ?_⟩
            · simpa only [List.forall_mem_cons] using ⟨passes, all⟩
            · simpa only [List.length_cons, Nat.add_right_cancel_iff, Nat.add_lt_add_iff_right]
                using ends
          · rw [List.takeWhile_cons_of_neg passes, List.dropWhile_cons_of_neg passes]
            exact ⟨[], byte :: rest, rfl, rfl, by simp, .inr ⟨byte, _, rest, rfl, rfl,
              Bool.eq_false_iff.mpr passes, Nat.succ_pos limit⟩⟩

/-- What `copyRun` does: it takes plain bytes, and then a terminator if one comes within the room
there is.
-/
theorem copyRun_cases {count room : Nat} {written : List UInt8} {reader : SearchStreamReader}
    (space : written.length < count) (open_ : 0 < room) (more : reader.raw ≠ [])
    : ∃ plain behind,
        reader.raw = plain ++ behind ∧ (∀ byte ∈ plain, isPlain byte = true)
        ∧ plain.length ≤ room
        ∧ ((0 < plain.length
            ∧ copyRun count written room reader
              = match validateBytes reader.utf8 plain with
                | .error failure => .error failure
                | .ok utf8 =>
                    .ok (.again (written ++ plain) {
                      reader with
                      raw := behind
                      currentLineBytes := reader.currentLineBytes + plain.length
                      utf8 }))
          ∨ ∃ byte rest,
              behind = byte :: rest ∧ isPlain byte = false ∧ plain.length < room
              ∧ copyRun count written room reader
                = match validateBytes reader.utf8 plain with
                  | .error failure => .error failure
                  | .ok utf8 =>
                      takeTerminator (written ++ plain) {
                        reader with
                        raw := behind
                        currentLineBytes := reader.currentLineBytes + plain.length
                        utf8 } byte) := by
  have positive := List.length_pos_iff.mpr more
  have inside : min (min (count - written.length) room) reader.raw.length ≤ reader.raw.length :=
    Nat.min_le_right _ _
  obtain ⟨plain, behind, split, taken, all, ends⟩ := exists_run isPlain inside
  have dropped : reader.raw.drop plain.length = behind := by
    rw [split, List.drop_left]
  refine ⟨plain, behind, split, all, ?_, ?_⟩
  · rcases ends with ⟨_, whole⟩ | ⟨_, _, _, _, _, _, fewer⟩ <;> omega
  · rcases ends with ⟨none_, whole⟩ | ⟨byte, later, rest, stopped, found, ends, fewer⟩
    · refine .inl ⟨by omega, ?_⟩
      simp only [copyRun, taken, none_, dropped]
    · refine .inr ⟨byte, rest, found, ends, by omega, ?_⟩
      simp only [copyRun, taken, stopped, dropped]

theorem takeTerminator_measure {written out : List UInt8} {reader next : SearchStreamReader}
    {byte : UInt8} {rest : List UInt8} (front : reader.raw = byte :: rest)
    (settled : reader.pendingCr = false)
    (again : takeTerminator written reader byte = .ok (.again out next))
    : next.measure < reader.measure := by
  unfold takeTerminator at again
  split at again
  · split at again
    · cases again
    · cases again
      simp only [measure, unread, unreadSource, fills, front, settled, List.tail_cons,
        List.cons_append, List.length_cons]
      omega
  · split at again
    · cases again
    · cases again
      simp only [measure, unread, unreadSource, fills, front, settled, List.tail_cons,
        List.cons_append, List.length_cons, Bool.toNat_true, Bool.toNat_false]
      omega

theorem settleCr_measure {count : Nat} {written out : List UInt8}
    {reader next : SearchStreamReader} (pending : reader.pendingCr = true)
    (again : settleCr count written reader = .ok (.again out next))
    : next.measure < reader.measure := by
  have shorter : reader.raw.tail.length ≤ reader.raw.length := by
    rw [List.length_tail]
    omega
  unfold settleCr at again
  split at again
  · split at again
    · cases again
    · split at again
      · cases again
        simp only [measure, unread, unreadSource, fills, pending, List.length_append,
          Bool.toNat_true, Bool.toNat_false]
        omega
      · cases again
  · cases again
    simp only [measure, unread, unreadSource, fills, pending, Bool.toNat_true, Bool.toNat_false]
    omega

theorem lineRoom_some {reader : SearchStreamReader} {written : List UInt8} {room : Nat}
    (found : reader.lineRoom written = .ok (some room))
    : 0 < room ∧ reader.currentLineBytes + room = maxSearcherHeapBytes := by
  unfold lineRoom at found
  split at found
  · split at found <;> cases found
  · cases found
    omega

theorem lineRoom_full {reader : SearchStreamReader} {written : List UInt8}
    (full : ∀ room, reader.lineRoom written ≠ .ok (some room))
    : maxSearcherHeapBytes ≤ reader.currentLineBytes
      ∧ reader.lineRoom written
        = if written = [] then .error .lineTooLong else .ok none := by
  unfold lineRoom at full ⊢
  by_cases none_ : maxSearcherHeapBytes - reader.currentLineBytes = 0
  · exact ⟨by omega, if_pos none_⟩
  · rw [if_neg none_] at full
    exact absurd rfl (full _)

theorem copyRun_measure {count room : Nat} {written out : List UInt8}
    {reader next : SearchStreamReader} (space : written.length < count) (open_ : 0 < room)
    (more : reader.raw ≠ []) (settled : reader.pendingCr = false)
    (again : copyRun count written room reader = .ok (.again out next))
    : next.measure < reader.measure := by
  obtain ⟨plain, behind, split, _, _, copied⟩ := copyRun_cases space open_ more
  rcases copied with ⟨some_, copied⟩ | ⟨byte, rest, front, _, _, copied⟩
  · rw [copied] at again
    split at again
    · cases again
    · cases again
      simp only [measure, unread, unreadSource, fills, split, List.length_append]
      omega
  · rw [copied] at again
    split at again
    · cases again
    · refine Nat.lt_of_lt_of_le (takeTerminator_measure front ?_ again) ?_
      · exact settled
      · simp only [measure, unread, unreadSource, fills, split, List.length_append]
        omega

/-- Every pass but the last takes a byte, settles a CR or reads the source. -/
theorem pass_measure {count : Nat} {written out : List UInt8} {reader next : SearchStreamReader}
    (again : pass count written reader = .ok (.again out next))
    : next.measure < reader.measure := by
  unfold pass at again
  split at again
  · cases again
  · next space =>
      split at again
      · next taken =>
          cases again
          obtain ⟨same, fewer⟩ := fillRaw_unread taken.1 taken.2
          have pending : reader.fillRaw.pendingCr = reader.pendingCr := by
            unfold fillRaw
            split <;> rfl
          rw [measure, measure, same, pending]
          omega
      · split at again
        · next pending =>
            split at again
            · cases again
            · cases again
            · exact settleCr_measure pending again
        · next settled =>
            split at again
            · split at again <;> cases again
            · next more =>
                split at again
                · cases again
                · cases again
                · next room found =>
                    obtain ⟨open_, _⟩ := lineRoom_some found
                    exact copyRun_measure (Nat.lt_of_not_le space) open_ more
                      (Bool.eq_false_iff.mpr settled) again

-- Reading

/-- The loop of `read`. -/
def readLoop (count : Nat) (written : List UInt8) (reader : SearchStreamReader)
    : Except StreamFailure (List UInt8 × SearchStreamReader) :=
  match _again : pass count written reader with
  | .error failure => .error failure
  | .ok (.returned out next) => .ok (out, next)
  | .ok (.again out next) => readLoop count out next
termination_by reader.measure
decreasing_by exact pass_measure _again

/-- `read` into an output buffer of `count` bytes. -/
def read (count : Nat) (reader : SearchStreamReader)
    : Except StreamFailure (List UInt8 × SearchStreamReader) :=
  if count = 0 then
    .ok ([], reader)
  else
    match reader.pendingEmit with
    | some byte =>
        readLoop count [byte] { reader with pendingEmit := none, currentLineBytes := 0 }
    | none => readLoop count [] reader

end SearchStreamReader

-- One byte at a time

/-- Where the reader is between two bytes, however they were read. -/
structure Scan where
  pendingCr : Bool
  lineBytes : Nat
  utf8 : Utf8Validator

namespace Scan

def initial : Scan := ⟨false, 0, .default⟩

/-- A byte with no CR before it. -/
def takeByte (lineBytes : Nat) (utf8 : Utf8Validator) (byte : UInt8)
    : Except StreamFailure (List UInt8 × Scan) :=
  if maxSearcherHeapBytes ≤ lineBytes then
    .error .lineTooLong
  else
    match validateByte utf8 byte with
    | .error failure => .error failure
    | .ok utf8 =>
        if byte = lineFeed then .ok ([lineFeed], ⟨false, 0, utf8⟩)
        else if byte = carriageReturn then .ok ([], ⟨true, lineBytes + 1, utf8⟩)
        else .ok ([byte], ⟨false, lineBytes + 1, utf8⟩)

/-- A CR is written when the byte behind it is known: as LF, or in front of an LF. -/
def step (scan : Scan) (byte : UInt8) : Except StreamFailure (List UInt8 × Scan) :=
  if scan.pendingCr then
    if maxSearcherHeapBytes ≤ scan.lineBytes then
      .error .lineTooLong
    else if byte = lineFeed then
      match validateByte scan.utf8 lineFeed with
      | .error failure => .error failure
      | .ok utf8 => .ok ([carriageReturn, lineFeed], ⟨false, 0, utf8⟩)
    else
      (takeByte 0 scan.utf8 byte).map fun (out, next) => (lineFeed :: out, next)
  else
    takeByte scan.lineBytes scan.utf8 byte

def finishUtf8 (utf8 : Utf8Validator) : Except StreamFailure (List UInt8) :=
  if utf8.isComplete then .ok [] else .error .invalidUtf8

def finish (scan : Scan) : Except StreamFailure (List UInt8) :=
  if scan.pendingCr then
    if maxSearcherHeapBytes ≤ scan.lineBytes then .error .lineTooLong
    else putBefore [lineFeed] (finishUtf8 scan.utf8)
  else
    finishUtf8 scan.utf8

end Scan

/-- What the bytes of a stream become, or how they fail. -/
def scanner : Transducer Scan UInt8 UInt8 StreamFailure where
  step := Scan.step
  finish := Scan.finish

theorem scanner_step (scan : Scan) (byte : UInt8) : scanner.step scan byte = scan.step byte := rfl

def outcome (bytes : List UInt8) : Except StreamFailure (List UInt8) := scanner.run .initial bytes

theorem feed_plain {plain : List UInt8} (all : ∀ byte ∈ plain, isPlain byte = true)
    {lineBytes : Nat} (room : lineBytes + plain.length ≤ maxSearcherHeapBytes)
    (utf8 : Utf8Validator)
    : scanner.feed ⟨false, lineBytes, utf8⟩ plain
      = match validateBytes utf8 plain with
        | .error failure => .error failure
        | .ok next => .ok (plain, ⟨false, lineBytes + plain.length, next⟩) := by
  induction plain generalizing lineBytes utf8 with
  | nil => rfl
  | cons byte rest ih =>
      rw [List.length_cons] at room
      obtain ⟨first, others⟩ := List.forall_mem_cons.mp all
      simp only [isPlain, Bool.and_eq_true, bne_iff_ne] at first
      have fits : ¬maxSearcherHeapBytes ≤ lineBytes := by omega
      rw [Transducer.feed, validateBytes]
      simp only [scanner_step, Scan.step, Scan.takeByte, if_neg fits]
      cases validateByte utf8 byte with
      | error failure => rfl
      | ok next =>
          have fits : lineBytes + 1 + rest.length ≤ maxSearcherHeapBytes := by omega
          have behind := ih others fits next
          simp only [if_neg first.1, if_neg first.2, List.length_cons]
          simp only [Bool.false_eq_true, if_false, behind]
          cases validateBytes next rest with
          | error failure => rfl
          | ok last => simp only [List.singleton_append, Nat.add_assoc, Nat.add_comm 1]

-- The reader against the scanner

namespace SearchStreamReader

/-- Where the scanner is. A line feed still to be emitted has ended the line. -/
def scan (reader : SearchStreamReader) : Scan where
  pendingCr := reader.pendingCr
  lineBytes := if reader.pendingEmit.isSome then 0 else reader.currentLineBytes
  utf8 := reader.utf8

def left (reader : SearchStreamReader) : Except StreamFailure (List UInt8) :=
  putBefore reader.pendingEmit.toList (scanner.run reader.scan reader.unread)

theorem left_eq {reader : SearchStreamReader} (emitted : reader.pendingEmit = none)
    : reader.left
      = scanner.run ⟨reader.pendingCr, reader.currentLineBytes, reader.utf8⟩ reader.unread := by
  simp [left, scan, emitted]

/-- The end is validated only when everything is taken. -/
def Kept (reader : SearchStreamReader) : Prop :=
  reader.eofValidated = true →
    reader.sourceEof = true ∧ reader.raw = [] ∧ reader.pendingCr = false
    ∧ reader.utf8.isComplete = true

/-- Behind `new` the reader goes on with `next`. -/
structure Advances (reader next : SearchStreamReader) (new : List UInt8) : Prop where
  left : reader.left = putBefore new next.left
  size : new.length + next.size ≤ reader.size
  kept : next.Kept

theorem Advances.trans {reader middle next : SearchStreamReader} {first second : List UInt8}
    (advanced : Advances reader middle first) (more : Advances middle next second)
    : Advances reader next (first ++ second) where
  left := by rw [advanced.left, more.left, putBefore_append]
  size := by
    have first := advanced.size
    have second := more.size
    rw [List.length_append]
    omega
  kept := more.kept

/-- A pass writes the front of what is left to read, and nothing at all only at the end. -/
def Sound (written : List UInt8) (reader : SearchStreamReader) : Except StreamFailure Pass → Prop
  | .error failure => reader.left = .error failure
  | .ok (.again out next) =>
      next.pendingEmit = none ∧ ∃ new, out = written ++ new ∧ Advances reader next new
  | .ok (.returned out next) =>
      (out = [] → next.left = .ok []) ∧ ∃ new, out = written ++ new ∧ Advances reader next new

theorem Advances.sound {written first : List UInt8} {reader middle : SearchStreamReader}
    {result : Except StreamFailure Pass} (advanced : Advances reader middle first)
    (behind : Sound (written ++ first) middle result)
    : Sound written reader result := by
  cases result with
  | error failure => exact advanced.left.trans (by rw [show middle.left = _ from behind]; rfl)
  | ok pass =>
      cases pass with
      | again out next =>
          obtain ⟨emitted, new, rfl, more⟩ := behind
          exact ⟨emitted, _, List.append_assoc .., advanced.trans more⟩
      | returned out next =>
          obtain ⟨ends, new, rfl, more⟩ := behind
          exact ⟨ends, _, List.append_assoc .., advanced.trans more⟩

theorem takeTerminator_sound {written : List UInt8} {reader : SearchStreamReader} {byte : UInt8}
    {rest : List UInt8} (front : reader.raw = byte :: rest) (settled : reader.pendingCr = false)
    (emitted : reader.pendingEmit = none)
    (room : reader.currentLineBytes < maxSearcherHeapBytes) (ends : isPlain byte = false)
    (open_ : reader.eofValidated = false)
    : Sound written reader (takeTerminator written reader byte) := by
  have fits : ¬maxSearcherHeapBytes ≤ reader.currentLineBytes := Nat.not_le_of_lt room
  have unread : reader.unread = byte :: (rest ++ reader.unreadSource) := by
    rw [SearchStreamReader.unread, front]
    rfl
  have left : reader.left = match Scan.takeByte reader.currentLineBytes reader.utf8 byte with
      | .error failure => .error failure
      | .ok (out, next) => putBefore out (scanner.run next (rest ++ reader.unreadSource)) := by
    rw [left_eq emitted, settled, unread, Transducer.run, scanner_step, Scan.step,
      if_neg Bool.false_ne_true]
    cases Scan.takeByte reader.currentLineBytes reader.utf8 byte <;> rfl
  have kind : byte = lineFeed ∨ byte = carriageReturn := by
    by_contra other
    obtain ⟨noFeed, noReturn⟩ := not_or.mp other
    simp [isPlain, noFeed, noReturn] at ends
  unfold takeTerminator
  rw [Scan.takeByte, if_neg fits] at left
  rcases kind with rfl | rfl
  · rw [if_pos rfl]
    cases valid : validateByte reader.utf8 lineFeed with
    | error failure =>
        rw [valid] at left
        exact left
    | ok utf8 =>
        rw [valid] at left
        refine ⟨emitted, [lineFeed], rfl, {
          left := left.trans ?_
          size := ?_
          kept := fun validated => absurd (open_.symm.trans validated) Bool.false_ne_true }⟩
        · simp [SearchStreamReader.left, scan, SearchStreamReader.unread, unreadSource, front,
            settled, emitted]
        · simp only [size, SearchStreamReader.unread, unreadSource, front, emitted, settled,
            List.tail_cons, List.cons_append, List.length_cons, List.length_nil]
          omega
  · rw [if_neg (by decide)]
    cases valid : validateByte reader.utf8 carriageReturn with
    | error failure =>
        rw [valid] at left
        exact left
    | ok utf8 =>
        rw [valid] at left
        refine ⟨emitted, [], (List.append_nil _).symm, {
          left := left.trans ?_
          size := ?_
          kept := fun validated => absurd (open_.symm.trans validated) Bool.false_ne_true }⟩
        · simp [SearchStreamReader.left, scan, SearchStreamReader.unread, unreadSource, front,
            emitted, carriageReturn, lineFeed]
        · simp only [size, SearchStreamReader.unread, unreadSource, front, emitted, settled,
            List.tail_cons, List.cons_append, List.length_cons, List.length_nil,
            Bool.toNat_true, Bool.toNat_false]
          omega

theorem copyRun_sound {count room : Nat} {written : List UInt8} {reader : SearchStreamReader}
    (space : written.length < count) (more : reader.raw ≠ []) (settled : reader.pendingCr = false)
    (emitted : reader.pendingEmit = none) (open_ : reader.eofValidated = false)
    (some_ : 0 < room) (limit : reader.currentLineBytes + room = maxSearcherHeapBytes)
    : Sound written reader (copyRun count written room reader) := by
  obtain ⟨plain, behind, split, all, short, copied⟩ := copyRun_cases space some_ more
  have fits : reader.currentLineBytes + plain.length ≤ maxSearcherHeapBytes := by omega
  have fed := feed_plain all fits reader.utf8
  have left : reader.left
      = match scanner.feed ⟨false, reader.currentLineBytes, reader.utf8⟩ plain with
        | .error failure => .error failure
        | .ok (out, next) => putBefore out (scanner.run next (behind ++ reader.unreadSource)) := by
    rw [left_eq emitted, settled, unread, split, List.append_assoc, Transducer.run_append]
    cases scanner.feed ⟨false, reader.currentLineBytes, reader.utf8⟩ plain <;> rfl
  rw [fed] at left
  cases valid : validateBytes reader.utf8 plain with
  | error failure =>
      rw [valid] at left
      rcases copied with ⟨_, copied⟩ | ⟨_, _, _, _, _, copied⟩
      · rw [copied, valid]
        exact left
      · rw [copied, valid]
        exact left
  | ok utf8 =>
      rw [valid] at left
      have advanced : Advances reader {
          reader with
          raw := behind
          currentLineBytes := reader.currentLineBytes + plain.length
          utf8 } plain := {
        left := left.trans (by
          simp [SearchStreamReader.left, scan, unread, unreadSource, settled, emitted])
        size := by
          simp only [size, unread, unreadSource, split, List.length_append]
          omega
        kept := fun validated => absurd (open_.symm.trans validated) Bool.false_ne_true }
      rcases copied with ⟨_, copied⟩ | ⟨byte, rest, front, ends, fewer, copied⟩
      · rw [copied, valid]
        exact ⟨emitted, plain, rfl, advanced⟩
      · rw [copied, valid]
        refine advanced.sound (takeTerminator_sound front ?_ ?_ ?_ ends ?_)
        · exact settled
        · exact emitted
        · simp only
          omega
        · exact open_

/-- A CR with no LF behind it is written as LF, at the end too. -/
theorem run_settled {lineBytes : Nat} {utf8 : Utf8Validator} {bytes : List UInt8}
    (fits : ¬maxSearcherHeapBytes ≤ lineBytes) (alone : bytes.head? ≠ some lineFeed)
    : scanner.run ⟨true, lineBytes, utf8⟩ bytes
      = putBefore [lineFeed] (scanner.run ⟨false, 0, utf8⟩ bytes) := by
  cases bytes with
  | nil => simp [Transducer.run, scanner, Scan.finish, fits]
  | cons byte rest =>
      have other : byte ≠ lineFeed := fun same => alone (congrArg some same)
      rw [Transducer.run, Transducer.run, scanner_step, scanner_step, Scan.step, Scan.step,
        if_pos rfl, if_neg fits, if_neg other, if_neg Bool.false_ne_true]
      cases Scan.takeByte 0 utf8 byte with
      | error failure => rfl
      | ok taken => exact putBefore_append [lineFeed] taken.1 _

theorem settleCr_sound {count : Nat} {written : List UInt8} {reader : SearchStreamReader}
    (pending : reader.pendingCr = true) (emitted : reader.pendingEmit = none)
    (kept : reader.Kept) (ready : reader.raw ≠ [] ∨ reader.sourceEof = true)
    (room : reader.currentLineBytes < maxSearcherHeapBytes)
    : Sound written reader (settleCr count written reader) := by
  have fits : ¬maxSearcherHeapBytes ≤ reader.currentLineBytes := Nat.not_le_of_lt room
  have open_ : reader.eofValidated = false := by
    by_contra validated
    obtain ⟨_, _, settled, _⟩ := kept (Bool.not_eq_false _ ▸ validated)
    rw [pending] at settled
    cases settled
  have left := left_eq emitted
  rw [pending] at left
  have never : ∀ {next : SearchStreamReader}, next.eofValidated = reader.eofValidated →
      next.Kept := by
    intro next same validated
    rw [same, open_] at validated
    cases validated
  unfold settleCr
  split
  · next front =>
      obtain ⟨rest, split⟩ := List.head?_eq_some_iff.mp front
      have unread : reader.unread = lineFeed :: (rest ++ reader.unreadSource) := by
        rw [SearchStreamReader.unread, split]
        rfl
      rw [unread, Transducer.run, scanner_step, Scan.step, if_pos rfl, if_neg fits, if_pos rfl]
        at left
      cases valid : validateByte reader.utf8 lineFeed with
      | error failure =>
          simp only [valid] at left
          exact left
      | ok utf8 =>
          simp only [valid] at left
          simp only
          split
          · refine ⟨emitted, [carriageReturn, lineFeed], by simp, {
              left := left.trans ?_
              size := ?_
              kept := never rfl }⟩
            · simp [SearchStreamReader.left, scan, SearchStreamReader.unread, unreadSource, split,
                emitted]
            · simp only [size, SearchStreamReader.unread, unreadSource, split, emitted, pending,
                List.tail_cons, List.cons_append, List.length_cons, List.length_nil,
                Bool.toNat_true, Bool.toNat_false]
              omega
          · refine ⟨by simp, [carriageReturn], rfl, {
              left := left.trans ?_
              size := ?_
              kept := never rfl }⟩
            · simp [SearchStreamReader.left, scan, SearchStreamReader.unread, unreadSource, split,
                ← putBefore_append]
            · simp only [size, SearchStreamReader.unread, unreadSource, split, emitted, pending,
                List.tail_cons, List.cons_append, List.length_cons, List.length_nil,
                Bool.toNat_true, Bool.toNat_false, Option.toList_some, Option.toList_none]
              omega
  · next other =>
      refine ⟨emitted, [lineFeed], rfl, {
        left := left.trans ?_
        size := ?_
        kept := never rfl }⟩
      · have alone : reader.unread.head? ≠ some lineFeed := by
          cases front : reader.raw with
          | nil =>
              have eof := ready.resolve_left (fun some_ => some_ front)
              simp [SearchStreamReader.unread, unreadSource, front, eof]
          | cons byte rest =>
              rw [front] at other
              rw [SearchStreamReader.unread, front]
              exact other
        rw [run_settled fits alone]
        simp [SearchStreamReader.left, scan, SearchStreamReader.unread, unreadSource, emitted]
      · simp only [size, SearchStreamReader.unread, unreadSource, emitted, pending,
          List.length_cons, List.length_nil, Bool.toNat_true, Bool.toNat_false]
        omega

theorem advances_self {reader : SearchStreamReader} (kept : reader.Kept)
    : Advances reader reader [] where
  left := (putBefore_nil _).symm
  size := Nat.le_of_eq (Nat.zero_add _)
  kept := kept

theorem fillRaw_advances {reader : SearchStreamReader} (kept : reader.Kept)
    (taken : reader.raw = []) (more : reader.sourceEof = false)
    : reader.fillRaw.pendingEmit = reader.pendingEmit ∧ Advances reader reader.fillRaw [] := by
  obtain ⟨unread, _⟩ := fillRaw_unread taken more
  have same : reader.fillRaw.pendingEmit = reader.pendingEmit
      ∧ reader.fillRaw.pendingCr = reader.pendingCr
      ∧ reader.fillRaw.scan = reader.scan
      ∧ reader.fillRaw.eofValidated = reader.eofValidated := by
    unfold fillRaw
    split <;> exact ⟨rfl, rfl, rfl, rfl⟩
  obtain ⟨emitted, pending, scanned, validated⟩ := same
  refine ⟨emitted, {
    left := by rw [left, left, emitted, scanned, unread, putBefore_nil]
    size := by
      rw [size, size, unread, emitted, pending]
      exact Nat.le_of_eq (Nat.zero_add _)
    kept := fun ended => ?_ }⟩
  rw [validated] at ended
  obtain ⟨eof, _⟩ := kept ended
  rw [more] at eof
  cases eof

/-- At the end everything is written, and the last character is complete. -/
theorem validateEof_sound {written : List UInt8} {reader : SearchStreamReader}
    (kept : reader.Kept) (emitted : reader.pendingEmit = none) (settled : reader.pendingCr = false)
    (taken : reader.raw = []) (eof : reader.sourceEof = true)
    : Sound written reader (match reader.validateEof with
        | .error failure => .error failure
        | .ok validated => .ok (.returned written validated)) := by
  have left : reader.left = Scan.finishUtf8 reader.utf8 := by
    rw [left_eq emitted, settled, unread, unreadSource, taken, if_pos eof]
    rfl
  unfold validateEof
  by_cases validated : reader.eofValidated = true
  · rw [if_pos validated]
    obtain ⟨_, _, _, complete⟩ := kept validated
    refine ⟨fun _ => ?_, [], (List.append_nil _).symm, advances_self kept⟩
    rw [left, Scan.finishUtf8, if_pos complete]
  · rw [if_neg validated]
    by_cases complete : reader.utf8.isComplete = true
    · rw [if_pos complete]
      refine ⟨fun _ => ?_, [], (List.append_nil _).symm, {
        left := (putBefore_nil _).symm
        size := Nat.le_of_eq (Nat.zero_add _)
        kept := fun _ => ⟨eof, taken, settled, complete⟩ }⟩
      show reader.left = .ok []
      rw [left, Scan.finishUtf8, if_pos complete]
    · rw [if_neg complete]
      show reader.left = .error .invalidUtf8
      rw [left, Scan.finishUtf8, if_neg complete]

/-- A pass that needs room on the line, which goes on as `next` when there is some. -/
theorem lineRoom_sound {written : List UInt8} {reader : SearchStreamReader}
    {next : Nat → Except StreamFailure Pass} (kept : reader.Kept)
    (full : maxSearcherHeapBytes ≤ reader.currentLineBytes → reader.left = .error .lineTooLong)
    (goesOn : ∀ room, 0 < room → reader.currentLineBytes + room = maxSearcherHeapBytes →
      Sound written reader (next room))
    : Sound written reader (match reader.lineRoom written with
        | .error failure => .error failure
        | .ok none => .ok (.returned written reader)
        | .ok (some room) => next room) := by
  by_cases open_ : ∃ room, reader.lineRoom written = .ok (some room)
  · obtain ⟨room, found⟩ := open_
    obtain ⟨some_, limit⟩ := lineRoom_some found
    rw [found]
    exact goesOn room some_ limit
  · obtain ⟨past, closed⟩ := lineRoom_full fun room found => open_ ⟨room, found⟩
    rw [closed]
    by_cases empty : written = []
    · rw [if_pos empty]
      exact full past
    · rw [if_neg empty]
      exact ⟨fun none_ => absurd none_ empty, [], (List.append_nil _).symm, advances_self kept⟩

theorem pass_sound {count : Nat} (positive : 0 < count) {written : List UInt8}
    {reader : SearchStreamReader} (kept : reader.Kept) (emitted : reader.pendingEmit = none)
    : Sound written reader (pass count written reader) := by
  unfold pass
  split
  · next full =>
      refine ⟨fun empty => ?_, [], (List.append_nil _).symm, advances_self kept⟩
      rw [empty] at full
      exact absurd full (Nat.not_le_of_lt positive)
  · next space =>
      split
      · next ready =>
          obtain ⟨same, advanced⟩ := fillRaw_advances kept ready.1 ready.2
          exact ⟨same.trans emitted, [], (List.append_nil _).symm, advanced⟩
      · next filled =>
          have ready : reader.raw ≠ [] ∨ reader.sourceEof = true := by
            by_cases taken : reader.raw = []
            · exact .inr (by simpa [taken] using filled)
            · exact .inl taken
          split
          · next pending =>
              refine lineRoom_sound kept (fun past => ?_) fun room some_ limit =>
                settleCr_sound pending emitted kept ready (by omega)
              rw [left_eq emitted, pending]
              cases reader.unread with
              | nil => simp [Transducer.run, scanner, Scan.finish, past]
              | cons byte rest => simp [Transducer.run, scanner, Scan.step, past]
          · next settled =>
              have settled := Bool.eq_false_iff.mpr settled
              split
              · next taken =>
                  exact validateEof_sound kept emitted settled taken
                    (ready.resolve_left fun some_ => some_ taken)
              · next more =>
                  have open_ : reader.eofValidated = false := by
                    by_contra validated
                    exact more (kept (Bool.not_eq_false _ ▸ validated)).2.1
                  refine lineRoom_sound kept (fun past => ?_) fun room some_ limit =>
                    copyRun_sound (Nat.lt_of_not_le space) more settled emitted open_ some_ limit
                  obtain ⟨byte, rest, front⟩ := List.exists_cons_of_ne_nil more
                  rw [left_eq emitted, settled, unread, front]
                  simp [Transducer.run, scanner, Scan.step, Scan.takeByte, past]

/-- What a read returns is the front of what is left to read, and is empty only at the end. -/
def ReadSound (written : List UInt8) (reader : SearchStreamReader)
    : Except StreamFailure (List UInt8 × SearchStreamReader) → Prop
  | .error failure => reader.left = .error failure
  | .ok (out, next) =>
      (out = [] → next.left = .ok []) ∧ ∃ new, out = written ++ new ∧ Advances reader next new

theorem Advances.readSound {written first : List UInt8} {reader middle : SearchStreamReader}
    {result : Except StreamFailure (List UInt8 × SearchStreamReader)}
    (advanced : Advances reader middle first)
    (behind : ReadSound (written ++ first) middle result)
    : ReadSound written reader result := by
  cases result with
  | error failure => exact advanced.left.trans (by rw [show middle.left = _ from behind]; rfl)
  | ok result =>
      obtain ⟨ends, more, same, later⟩ := behind
      exact ⟨ends, first ++ more, by rw [same, List.append_assoc], advanced.trans later⟩

/-- The loop keeps this, by induction on its passes. -/
theorem readLoop_sound {count : Nat} (positive : 0 < count) {written : List UInt8}
    {reader : SearchStreamReader} (kept : reader.Kept) (emitted : reader.pendingEmit = none)
    : ReadSound written reader (readLoop count written reader) := by
  have sound : Sound written reader (pass count written reader) :=
    pass_sound positive kept emitted
  induction written, reader using readLoop.induct count with
  | case1 written reader failure found =>
      rw [found] at sound
      rw [readLoop, found]
      exact sound
  | case2 written reader out next found =>
      rw [found] at sound
      rw [readLoop, found]
      exact sound
  | case3 written reader out next found ih =>
      rw [found] at sound
      obtain ⟨emitted, new, rfl, advanced⟩ := sound
      have behind := ih advanced.kept emitted
        (pass_sound positive advanced.kept emitted)
      rw [readLoop, found]
      simp only
      exact advanced.readSound behind

theorem read_sound {count : Nat} (positive : 0 < count) {reader : SearchStreamReader}
    (kept : reader.Kept)
    : ReadSound [] reader (reader.read count) := by
  unfold read
  rw [if_neg (Nat.pos_iff_ne_zero.mp positive)]
  cases emitted : reader.pendingEmit with
  | none => exact readLoop_sound positive kept emitted
  | some byte =>
      have advanced : Advances reader {
          reader with pendingEmit := none, currentLineBytes := 0 } [byte] := {
        left := by simp [left, scan, emitted, unread, unreadSource]
        size := by
          simp only [size, unread, unreadSource, emitted, Option.toList_some, Option.toList_none,
            List.length_cons, List.length_nil]
          omega
        kept := kept }
      have behind : ReadSound ([] ++ [byte]) _ _ := readLoop_sound positive advanced.kept rfl
      exact advanced.readSound behind

/-- Reads hand out what the scanner makes of the bytes. -/
theorem readsFrom : ReadsFrom (fun count reader => read count reader) Kept left size where
  failed kept positive found := by
    have sound := read_sound positive kept
    rw [found] at sound
    exact sound
  piece kept positive found := by
    have sound := read_sound positive kept
    rw [found] at sound
    obtain ⟨_, new, rfl, advanced⟩ := sound
    exact ⟨advanced.kept, advanced.left, advanced.size⟩
  ended kept positive found := by
    have sound := read_sound positive kept
    rw [found] at sound
    exact sound.1 rfl

end SearchStreamReader

end Hane.Session
