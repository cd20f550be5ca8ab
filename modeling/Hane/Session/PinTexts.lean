import Hane.Session.PinLists

/-! The text of the pins: what is written of good lists reads back, and what reads is good. -/

namespace Hane.Session

open Hane.Foundations

variable {α : Type} [DecidableEq α] {os : OsRules α}

-- The text reads back

/-- The byte of a hexadecimal digit. -/
def hexByte (value : UInt8) : UInt8 := UInt8.ofNat (hexDigit value).toNat

theorem hexDigit_spec
    : ∀ value : Fin 256,
        String.utf8EncodeChar (hexDigit (UInt8.ofNat value)) = [hexByte (UInt8.ofNat value)]
        ∧ hexDigit (UInt8.ofNat value) ≠ '\n'
        ∧ hexDigit (UInt8.ofNat value) ≠ '\r' := by
  decide +kernel

theorem nibble_hexByte
    : ∀ value : Fin 256,
        nibble (hexByte (UInt8.ofNat value >>> 4)) = some (UInt8.ofNat value >>> 4)
        ∧ nibble (hexByte (UInt8.ofNat value)) = some (UInt8.ofNat value &&& 15)
        ∧ (UInt8.ofNat value >>> 4) <<< 4 ||| (UInt8.ofNat value &&& 15)
            = UInt8.ofNat value := by
  decide +kernel

theorem utf8EncodeChar_hexDigit (byte : UInt8)
    : String.utf8EncodeChar (hexDigit byte) = [hexByte byte] := by
  simpa using (hexDigit_spec ⟨byte.toNat, byte.toNat_lt⟩).1

/-- The digits of bytes give them back, by induction over the bytes. -/
theorem decodeDigits_hex (bytes : List UInt8)
    : decodeDigits
          ((bytes.flatMap fun (byte : UInt8) => [hexDigit (byte >>> 4), hexDigit byte]).flatMap
            String.utf8EncodeChar)
        = some bytes := by
  induction bytes with
  | nil => rfl
  | cons byte rest ih =>
      obtain ⟨high, low, whole⟩ := nibble_hexByte ⟨byte.toNat, byte.toNat_lt⟩
      simp only [UInt8.ofNat_toNat] at high low whole
      simp only [List.flatMap_cons, utf8EncodeChar_hexDigit, List.cons_append, List.nil_append, decodeDigits, high, low, ih]
      simp only [Option.pure_def, Option.bind_eq_bind, Option.bind_some, whole]

omit [DecidableEq α] in
theorem decodeOs_encodeOs (value : List α) : decodeOs os (encodeOs os value) = some value := by
  simp only [decodeOs, encodeOs, decodeDigits_hex, Option.bind_eq_bind, Option.bind_some,
    os.fromUnits_units]

omit [DecidableEq α] in
theorem encodeOs_plain (value : List α) : ∀ c ∈ encodeOs os value, c ≠ '\n' ∧ c ≠ '\r' := by
  intro c member
  obtain ⟨byte, -, digit⟩ := List.mem_flatMap.mp member
  have plain : ∀ byte : UInt8, hexDigit byte ≠ '\n' ∧ hexDigit byte ≠ '\r' := fun byte => by
    simpa using (hexDigit_spec ⟨byte.toNat, byte.toNat_lt⟩).2
  rcases List.mem_cons.mp digit with rfl | digit
  · exact plain _
  · rw [List.mem_singleton.mp digit]
    exact plain _

/-- The lines of a text turn one list of work folders into another, whatever follows it. -/
structure RootsRead (os : OsRules α) (text : List Char) (before after : PinRoots α) : Prop where
  lines
    : ∀ rest, parseLines os before (lines (text ++ rest)) = parseLines os after (lines rest)

theorem RootsRead.nil (roots : PinRoots α) : RootsRead os [] roots roots := ⟨fun _ => rfl⟩

theorem RootsRead.append {first second : List Char} {before between after : PinRoots α}
    (head : RootsRead os first before between) (tail : RootsRead os second between after)
    : RootsRead os (first ++ second) before after :=
  ⟨fun rest => by rw [List.append_assoc, head.lines, tail.lines]⟩

theorem reads_line {tag : List Char} {value : List α} {before after : PinRoots α}
    (tagged : ∃ c more, tag = c :: more ∧ isWhitespace c = false)
    (plain : ∀ c ∈ tag, c ≠ '\n' ∧ c ≠ '\r' ∧ c ≠ ' ')
    (parses : parseTagged os (tag ++ ' ' :: encodeOs os value) tag value before = .ok after)
    : RootsRead os (tag ++ ' ' :: encodeOs os value ++ ['\n']) before after := by
  refine ⟨fun rest => ?_⟩
  have whole : ∀ c ∈ tag ++ ' ' :: encodeOs os value, c ≠ '\n' ∧ c ≠ '\r' := by
    intro c member
    rcases List.mem_append.mp member with inTag | member
    · exact ⟨(plain c inTag).1, (plain c inTag).2.1⟩
    · rcases List.mem_cons.mp member with rfl | inValue
      · decide
      · exact encodeOs_plain value c inValue
  have filled : trim (tag ++ ' ' :: encodeOs os value) ≠ [] := by
    obtain ⟨c, more, rfl, visible⟩ := tagged
    exact trim_ne_nil visible
  have split : Splitting.splitFirst [' '] (tag ++ ' ' :: encodeOs os value)
      = some (tag, encodeOs os value) := by
    have fresh : ' ' ∉ tag := fun member => (plain ' ' member).2.2 rfl
    have parts : Splitting.splitFirst [' '] (tag ++ [' '] ++ encodeOs os value) = _ :=
      Splitting.splitFirst_fresh (encodeOs os value) fresh
    rwa [List.append_assoc, List.singleton_append] at parts
  rw [List.append_assoc, List.singleton_append, lines_append_newline whole, parseLines, parseLine,
    if_neg filled, split]
  simp only [decodeOs_encodeOs, parses]
  rfl

theorem entryTag_spec (kind : PinKind)
    : (∃ c more, entryTag kind = c :: more ∧ isWhitespace c = false)
      ∧ ∀ c ∈ entryTag kind, c ≠ '\n' ∧ c ≠ '\r' ∧ c ≠ ' ' := by
  cases kind with
  | file => exact ⟨⟨'f', _, rfl, by decide⟩, by simp [entryTag]⟩
  | folder => exact ⟨⟨'f', _, rfl, by decide⟩, by simp [entryTag]⟩

/-- The line of an entry adds it to the last work folder. -/
theorem reads_entry {before : PinRoots α} {key : List α} {entries : List (PinnedEntry α)}
    {entry : PinnedEntry α} (valid : PinPath os entry.relativePath)
    (fresh
      : ∀ existing ∈ entries, os.samePath existing.relativePath entry.relativePath = false)
    : RootsRead os (renderEntry os entry) (before ++ [(key, entries)])
        (before ++ [(key, entries ++ [entry])]) := by
  have adds : ∀ line kind, parseEntry os line kind entry.relativePath (before ++ [(key, entries)])
      = .ok (before ++ [(key, entries ++ [⟨entry.relativePath, kind⟩])]) := by
    intro line kind
    have passes : (validatePinPath os entry.relativePath).isOk = true := by
      rw [validatePinPath_ok_iff.mpr valid]
      rfl
    have none : (entries.any fun existing =>
        os.samePath existing.relativePath entry.relativePath) = false := by
      simpa using fresh
    rw [parseEntry, if_pos passes, List.getLast?_concat]
    simp only [none, Bool.false_eq_true, if_false, List.dropLast_concat]
    rfl
  obtain ⟨path, kind⟩ := entry
  obtain ⟨tagged, plain⟩ := entryTag_spec kind
  cases kind with
  | file => exact reads_line tagged plain (adds _ .file)
  | folder => exact reads_line tagged plain (adds _ .folder)

/-- The lines of the entries add them in order, by induction over the entries. -/
theorem reads_entries {before : PinRoots α} {key : List α} {entries added : List (PinnedEntry α)}
    (good : GoodPins os (entries ++ added))
    : RootsRead os (added.flatMap (renderEntry os)) (before ++ [(key, entries)])
        (before ++ [(key, entries ++ added)]) := by
  induction added generalizing entries with
  | nil =>
      rw [List.append_nil]
      exact .nil _
  | cons entry rest ih =>
      have fresh := fun existing member =>
        (List.pairwise_append.mp good.distinct).2.2 existing member entry List.mem_cons_self
      have first : RootsRead os (renderEntry os entry) (before ++ [(key, entries)]) _ :=
        reads_entry (good.valid entry (by simp)) fresh
      have moved : entries ++ entry :: rest = entries ++ [entry] ++ rest :=
        List.append_cons entries entry rest
      rw [moved] at good ⊢
      exact first.append (ih good)

/-- The lines of a work folder add it with its entries. -/
theorem reads_root {before : PinRoots α} {root : List α × List (PinnedEntry α)}
    (good : GoodPins os root.2)
    : RootsRead os (renderRoot os root) before (before ++ [root]) := by
  have line : RootsRead os ("root".toList ++ ' ' :: encodeOs os root.1 ++ ['\n']) before
      (before ++ [(root.1, [])]) :=
    reads_line ⟨'r', _, rfl, by decide⟩ (by simp) rfl
  have entries : RootsRead os _ (before ++ [(root.1, [])]) (before ++ [(root.1, [] ++ root.2)]) :=
    reads_entries good
  simpa [renderRoot] using line.append entries

/-- The lines of the work folders add them in order, by induction over them. -/
theorem reads_roots {before roots : PinRoots α} (good : ∀ root ∈ roots, GoodPins os root.2)
    : RootsRead os (roots.flatMap (renderRoot os)) before (before ++ roots) := by
  induction roots generalizing before with
  | nil =>
      rw [List.append_nil]
      exact .nil before
  | cons root rest ih =>
      obtain ⟨first, others⟩ := List.forall_mem_cons.mp good
      rw [List.flatMap_cons, List.append_cons]
      exact (reads_root first).append (ih others)

/-- What is written reads back. -/
theorem parsePins_renderPins {roots : PinRoots α} (good : ∀ root ∈ roots, GoodPins os root.2)
    : parsePins os (renderPins os roots) = .ok roots := by
  have header : ∀ c ∈ pinsHeaderPrefix ++ pinsVersion, c ≠ '\n' ∧ c ≠ '\r' := by
    have letters : pinsHeaderPrefix ++ pinsVersion
        = ['h', 'a', 'n', 'e', '-', 'p', 'i', 'n', 's', ' ', '1'] := rfl
    simp [letters]
  have reads : RootsRead os (roots.flatMap (renderRoot os)) [] ([] ++ roots) := reads_roots good
  have read := reads.lines []
  rw [List.append_nil, List.nil_append] at read
  rw [parsePins, renderPins, lines_append_newline header]
  have starts : pinsHeaderPrefix.isPrefixOf (pinsHeaderPrefix ++ pinsVersion) = true := by decide
  have version : trim ((pinsHeaderPrefix ++ pinsVersion).drop pinsHeaderPrefix.length)
      = pinsVersion := by decide
  simp only [starts, if_true, version, ne_eq, not_true_eq_false, if_false, read]
  rfl

-- What is read is good

/-- Every list of the work folders is good. -/
def GoodRoots (os : OsRules α) (roots : PinRoots α) : Prop := ∀ root ∈ roots, GoodPins os root.2

theorem GoodPins.concat {entries : List (PinnedEntry α)} {entry : PinnedEntry α}
    (good : GoodPins os entries) (valid : PinPath os entry.relativePath)
    (fresh
      : ∀ existing ∈ entries, os.samePath existing.relativePath entry.relativePath = false)
    : GoodPins os (entries ++ [entry]) := by
  constructor
  · intro other member
    rcases List.mem_append.mp member with old | new
    · exact good.valid other old
    · rw [List.mem_singleton.mp new]
      exact valid
  · rw [List.pairwise_append]
    refine ⟨good.distinct, List.pairwise_singleton _ _, fun existing old other new => ?_⟩
    rw [List.mem_singleton.mp new]
    exact fresh existing old

theorem GoodRoots.parseEntry {line : List Char} {kind : PinKind} {relative : List α}
    {roots result : PinRoots α} (good : GoodRoots os roots)
    (parses : parseEntry os line kind relative roots = .ok result)
    : GoodRoots os result := by
  rw [Session.parseEntry] at parses
  split at parses
  next passes =>
    have valid : PinPath os relative := by
      cases checked : validatePinPath os relative with
      | ok => exact validatePinPath_ok_iff.mp checked
      | error error =>
          rw [checked] at passes
          cases passes
    cases last : roots.getLast? with
    | none =>
        rw [last] at parses
        cases parses
    | some root =>
        rw [last] at parses
        simp only at parses
        split at parses
        next => cases parses
        next fresh =>
          cases parses
          have present := List.mem_of_getLast? last
          intro other member
          rcases List.mem_append.mp member with old | new
          · exact good other (List.dropLast_subset roots old)
          · rw [List.mem_singleton.mp new]
            exact (good root present).concat valid (by simpa using fresh)
  next => cases parses

theorem GoodRoots.parseLine {line : List Char} {roots result : PinRoots α}
    (good : GoodRoots os roots) (parses : parseLine os roots line = .ok result)
    : GoodRoots os result := by
  rw [Session.parseLine] at parses
  split at parses
  next =>
    cases parses
    exact good
  next =>
    split at parses
    next => cases parses
    next tag value split =>
      split at parses
      next => cases parses
      next decoded _ =>
        rw [parseTagged] at parses
        split at parses
        next =>
          cases parses
          intro other member
          rcases List.mem_append.mp member with old | new
          · exact good other old
          · rw [List.mem_singleton.mp new]
            exact .nil
        next =>
          split at parses
          next => exact good.parseEntry parses
          next =>
            split at parses
            next => exact good.parseEntry parses
            next => cases parses

/-- Lines keep every list good, by induction over them. -/
theorem GoodRoots.parseLines {text : List (List Char)} {roots result : PinRoots α}
    (good : GoodRoots os roots) (parses : parseLines os roots text = .ok result)
    : GoodRoots os result := by
  induction text generalizing roots with
  | nil =>
      cases parses
      exact good
  | cons line rest ih =>
      rw [Session.parseLines] at parses
      cases step : Session.parseLine os roots line with
      | error error =>
          rw [step] at parses
          cases parses
      | ok next =>
          rw [step] at parses
          exact ih (good.parseLine step) parses

theorem goodRoots_parsePins {text : List Char} {roots : PinRoots α}
    (parses : parsePins os text = .ok roots)
    : GoodRoots os roots := by
  rw [parsePins] at parses
  split at parses
  next => cases parses
  next header rest _ =>
    split at parses
    next =>
      simp only at parses
      split at parses
      next => cases parses
      next =>
        have none : GoodRoots os [] := fun root member => absurd member List.not_mem_nil
        exact none.parseLines parses
    next => cases parses

theorem goodRoots_readAll {describe : Utf8Error} {file : Option ByteArray}
    {fault : Option String} {roots : PinRoots α}
    (reads : readAll os describe file fault = .ok roots)
    : GoodRoots os roots := by
  cases fault with
  | some reason => cases reads
  | none =>
      cases file with
      | none =>
          cases reads
          exact fun root member => absurd member List.not_mem_nil
      | some bytes =>
          simp only [readAll] at reads
          split at reads
          next => cases reads
          next => exact goodRoots_parsePins reads

theorem readAll_renderedBytes {describe : Utf8Error} {roots : PinRoots α}
    (good : GoodRoots os roots)
    : readAll os describe (some (renderedBytes os roots)) none = .ok roots := by
  have text : String.fromUTF8? (renderedBytes os roots)
      = some (String.ofList (renderPins os roots)) := by
    exact dif_pos (String.isValidUTF8 (String.ofList (renderPins os roots)))
  simp only [readAll, text, String.toList_ofList]
  exact parsePins_renderPins good

end Hane.Session
