import Hane.Foundations.Spans
import Hane.Update.ArchiveNames

/-! What the scan of an archive establishes: where its parts lie, what its names may be, and
that its arithmetic does not overflow.
-/

namespace Hane.Update.Archive

open Foundations

-- Reads at an offset

theorem Cursor.bind_ok_iff {α β : Type} (program : Cursor α) (next : α → Cursor β)
    (data rest : List UInt8) (result : β)
    : (program >>= next) data = .ok (result, rest)
      ↔ ∃ value middle, program data = .ok (value, middle)
          ∧ next value middle = .ok (result, rest) := by
  change (program data >>= fun step => next step.1 step.2) = _ ↔ _
  simp only [except_bind_ok_iff, Prod.exists]

theorem Cursor.pure_ok_iff {α : Type} (value result : α) (data rest : List UInt8)
    : (pure value : Cursor α) data = .ok (result, rest) ↔ value = result ∧ data = rest := by
  change Except.ok (value, data) = _ ↔ _
  simp

theorem Cursor.lift_ok_iff {α : Type} (program : Except UpdateError α) (result : α)
    (data rest : List UInt8)
    : (liftM program : Cursor α) data = .ok (result, rest)
      ↔ program = .ok result ∧ data = rest := by
  cases program with
  | error problem =>
      change (Except.error problem : Except UpdateError _) = _ ↔ _
      simp
  | ok value =>
      change Except.ok (value, data) = _ ↔ _
      simp

theorem Cursor.guard_ok_iff {α β : Type} (condition : Prop) [Decidable condition]
    (problem : UpdateError) (next : α → Cursor β) (program : Cursor β) (data rest : List UInt8)
    (result : β)
    : (if condition then throw problem >>= next else program) data = .ok (result, rest)
      ↔ ¬condition ∧ program data = .ok (result, rest) := by
  split
  · rename_i holds
    have stopped : (throw problem >>= next : Cursor β) data = .error problem := rfl
    simp [holds, stopped]
  · rename_i fails
    simp [fails]

theorem Cursor.take_at {data taken rest : List UInt8} {offset n : Nat}
    (ran : Cursor.take n (data.drop offset) = .ok (taken, rest))
    : taken = (data.drop offset).take n
      ∧ rest = data.drop (offset + n)
      ∧ n ≤ data.length - offset := by
  unfold Cursor.take at ran
  split at ran
  · cases ran
  · rename_i enough
    cases ran
    simp only [List.length_drop, not_lt] at enough
    exact ⟨rfl, List.drop_drop, enough⟩

theorem Cursor.u16_at {data rest : List UInt8} {offset value : Nat}
    (ran : Cursor.u16 (data.drop offset) = .ok (value, rest))
    : value = le16 data offset ∧ rest = data.drop (offset + 2) ∧ offset + 2 ≤ data.length := by
  simp only [Cursor.u16, bind_ok_iff, pure_ok_iff] at ran
  obtain ⟨taken, middle, took, rfl, rfl⟩ := ran
  obtain ⟨rfl, rfl, enough⟩ := take_at took
  exact ⟨rfl, rfl, by omega⟩

theorem Cursor.u32_at {data rest : List UInt8} {offset value : Nat}
    (ran : Cursor.u32 (data.drop offset) = .ok (value, rest))
    : value = le32 data offset ∧ rest = data.drop (offset + 4) ∧ offset + 4 ≤ data.length := by
  simp only [Cursor.u32, bind_ok_iff, pure_ok_iff] at ran
  obtain ⟨taken, middle, took, rfl, rfl⟩ := ran
  obtain ⟨rfl, rfl, enough⟩ := take_at took
  exact ⟨rfl, rfl, by omega⟩

theorem le16_lt (data : List UInt8) (offset : Nat) : le16 data offset < 2 ^ 16 :=
  leField_lt 2 data offset

theorem le32_lt (data : List UInt8) (offset : Nat) : le32 data offset < 2 ^ 32 :=
  leField_lt 4 data offset

-- Central records

/-- The lengths of the variable parts that a central record declares, after its fixed part. -/
def recordLength (data : List UInt8) : Nat :=
  46 + le16 data 28 + le16 data 30 + le16 data 32

/-- What the record at the front of some bytes holds. -/
structure HoldsRecord (data : List UInt8) (record : CentralRecord) : Prop where
  signature : le32 data 0 = sigCentral
  compressed : record.compressed = le32 data 20
  size : record.size = le32 data 24
  localOffset : record.localOffset = le32 data 42
  nameBytes : record.nameBytes = (data.drop 46).take (le16 data 28)
  complete : recordLength data ≤ data.length

/-- A record that was read is the one at the front of the data, and nothing more is consumed. -/
theorem readCentralRecord_ok {data rest : List UInt8} {record : CentralRecord}
    (ran : readCentralRecord data = .ok (record, rest))
    : HoldsRecord data record ∧ rest = data.drop (recordLength data) := by
  simp only [readCentralRecord, Cursor.bind_ok_iff, Cursor.guard_ok_iff, Cursor.pure_ok_iff]
    at ran
  obtain ⟨signature, _, atSignature, signed, madeBy, _, atMadeBy, needed, _, atNeeded, flags, _,
    atFlags, method, _, atMethod, time, _, atTime, date, _, atDate, crc, _, atCrc, compressed, _,
    atCompressed, size, _, atSize, nameLen, _, atNameLen, extraLen, _, atExtraLen, commentLen, _,
    atCommentLen, disk, _, atDisk, internal, _, atInternal, attributes, _, atAttributes,
    localOffset, _, atLocalOffset, nameBytes, _, atName, extra, _, atExtra, comment, _, atComment,
    rfl, rfl⟩ := ran
  obtain ⟨rfl, rfl, _⟩ := @Cursor.u32_at data _ 0 _ atSignature
  obtain ⟨rfl, rfl, _⟩ := Cursor.u16_at atMadeBy
  obtain ⟨rfl, rfl, _⟩ := Cursor.u16_at atNeeded
  obtain ⟨rfl, rfl, _⟩ := Cursor.u16_at atFlags
  obtain ⟨rfl, rfl, _⟩ := Cursor.u16_at atMethod
  obtain ⟨rfl, rfl, _⟩ := Cursor.u16_at atTime
  obtain ⟨rfl, rfl, _⟩ := Cursor.u16_at atDate
  obtain ⟨rfl, rfl, _⟩ := Cursor.u32_at atCrc
  obtain ⟨rfl, rfl, _⟩ := Cursor.u32_at atCompressed
  obtain ⟨rfl, rfl, _⟩ := Cursor.u32_at atSize
  obtain ⟨rfl, rfl, _⟩ := Cursor.u16_at atNameLen
  obtain ⟨rfl, rfl, _⟩ := Cursor.u16_at atExtraLen
  obtain ⟨rfl, rfl, _⟩ := Cursor.u16_at atCommentLen
  obtain ⟨rfl, rfl, _⟩ := Cursor.u16_at atDisk
  obtain ⟨rfl, rfl, _⟩ := Cursor.u16_at atInternal
  obtain ⟨rfl, rfl, _⟩ := Cursor.u32_at atAttributes
  obtain ⟨rfl, rfl, fixed⟩ := Cursor.u32_at atLocalOffset
  obtain ⟨rfl, rfl, named⟩ := Cursor.take_at atName
  obtain ⟨rfl, rfl, extended⟩ := Cursor.take_at atExtra
  obtain ⟨rfl, rfl, commented⟩ := Cursor.take_at atComment
  simp only [Nat.reduceAdd] at *
  refine ⟨⟨Classical.not_not.mp signed, rfl, rfl, rfl, rfl, ?_⟩, rfl⟩
  simp only [recordLength]
  omega

/-- What the checks of a central record leave: its numbers, and a name that is a valid path. -/
structure PassesChecks (limits : ArchiveLimits) (record : CentralRecord) (raw : CentralEntry)
    : Prop where
  compressed : raw.compressedSize = record.compressed
  size : raw.size = record.size
  localOffset : raw.localOffset = record.localOffset
  nameBytes : raw.nameBytes = record.nameBytes
  name : fromUtf8 record.nameBytes = some raw.name
  isDir : raw.isDir = endsWithSlash raw.name
  path : validateRelPath (trimEndSlashes raw.name) = .ok ()
  withinLimit : raw.size ≤ limits.maxEntryBytes.toNat

theorem checkName_ok {nameBytes : List UInt8} {name : String}
    (passed : checkName nameBytes = .ok name)
    : fromUtf8 nameBytes = some name ∧ validateRelPath (trimEndSlashes name) = .ok () := by
  unfold checkName at passed
  cases decoded : fromUtf8 nameBytes with
  | none =>
      rw [decoded] at passed
      cases passed
  | some text =>
      rw [decoded] at passed
      simp only [except_bind_ok_iff, except_guard_ok_iff] at passed
      obtain ⟨_, _, valid, _, same⟩ := passed
      cases same
      exact ⟨rfl, valid⟩

theorem checkCentralRecord_ok {limits : ArchiveLimits} {record : CentralRecord}
    {raw : CentralEntry} (passed : checkCentralRecord limits record = .ok raw)
    : PassesChecks limits record raw := by
  simp only [checkCentralRecord, except_bind_ok_iff, except_guard_ok_iff] at passed
  obtain ⟨_, _, method, _, _, _, _, _, name, named, _, _, _, _, _, sized, built⟩ := passed
  obtain ⟨decoded, valid⟩ := checkName_ok named
  simp only [checkSizes, except_guard_ok_iff] at sized
  cases built
  exact ⟨rfl, rfl, rfl, rfl, decoded, rfl, valid, Nat.not_lt.mp sized.1⟩

-- The directory as records

/-- The bytes of one whole central record and the entry that was read from them. -/
structure Describes (limits : ArchiveLimits) (record : List UInt8) (raw : CentralEntry)
    : Prop where
  signature : le32 record 0 = sigCentral
  length : record.length = recordLength record
  compressed : raw.compressedSize = le32 record 20
  size : raw.size = le32 record 24
  localOffset : raw.localOffset = le32 record 42
  nameBytes : raw.nameBytes = (record.drop 46).take (le16 record 28)
  name : fromUtf8 raw.nameBytes = some raw.name
  isDir : raw.isDir = endsWithSlash raw.name
  path : validateRelPath (trimEndSlashes raw.name) = .ok ()
  withinLimit : raw.size ≤ limits.maxEntryBytes.toNat

theorem readCentralEntry_ok {limits : ArchiveLimits} {data rest : List UInt8}
    {raw : CentralEntry} (ran : readCentralEntry limits data = .ok (raw, rest))
    : ∃ record, Describes limits record raw ∧ data = record ++ rest := by
  simp only [readCentralEntry, Cursor.bind_ok_iff, Cursor.lift_ok_iff] at ran
  obtain ⟨fields, middle, read, passed, rfl⟩ := ran
  obtain ⟨held, consumed⟩ := readCentralRecord_ok read
  have checked := checkCentralRecord_ok passed
  obtain ⟨length, stop⟩ : ∃ length, length = recordLength data := ⟨_, rfl⟩
  have fixed : 46 + le16 data 28 ≤ length := by
    simp only [stop, recordLength]
    omega
  have field16 : ∀ offset, offset + 2 ≤ 46 → le16 (data.take length) offset = le16 data offset :=
    fun offset inside => leField_take 2 data offset length (by omega)
  have field32 : ∀ offset, offset + 4 ≤ 46 → le32 (data.take length) offset = le32 data offset :=
    fun offset inside => leField_take 4 data offset length (by omega)
  have sameLength : recordLength (data.take length) = length := by
    rw [recordLength, field16 28 (by decide), field16 30 (by decide), field16 32 (by decide),
      stop, recordLength]
  have sameName : ((data.take length).drop 46).take (le16 data 28)
      = (data.drop 46).take (le16 data 28) := by
    rw [List.drop_take, List.take_take, Nat.min_eq_left (by omega)]
  refine ⟨data.take length, ?_, ?_⟩
  · exact {
      signature := (field32 0 (by decide)).trans held.signature
      length := by
        rw [sameLength, List.length_take, Nat.min_eq_left (stop ▸ held.complete)]
      compressed := by rw [field32 20 (by decide), checked.compressed, held.compressed]
      size := by rw [field32 24 (by decide), checked.size, held.size]
      localOffset := by rw [field32 42 (by decide), checked.localOffset, held.localOffset]
      nameBytes := by
        rw [field16 28 (by decide), sameName, checked.nameBytes, held.nameBytes]
      name := checked.nameBytes ▸ checked.name
      isDir := checked.isDir
      path := checked.path
      withinLimit := checked.withinLimit }
  · rw [consumed, ← stop, List.take_append_drop]

/-- The directory is the concatenation of its records, one for each entry, by induction on
their number.
-/
theorem readEntries_ok {limits : ArchiveLimits} {entries : Nat} {data rest : List UInt8}
    {central : List CentralEntry} (ran : readEntries limits entries data = .ok (central, rest))
    : central.length = entries
      ∧ ∃ records : List (List UInt8),
          List.Forall₂ (Describes limits) records central ∧ data = records.flatten ++ rest := by
  induction entries generalizing data central with
  | zero =>
      obtain ⟨rfl, rfl⟩ := (Cursor.pure_ok_iff ..).mp ran
      exact ⟨rfl, [], .nil, rfl⟩
  | succ entries ih =>
      simp only [readEntries, Cursor.bind_ok_iff, Cursor.pure_ok_iff] at ran
      obtain ⟨raw, middle, first, others, _, later, rfl, rfl⟩ := ran
      obtain ⟨record, described, split⟩ := readCentralEntry_ok first
      obtain ⟨counted, records, all, joined⟩ := ih later
      refine ⟨congrArg (· + 1) counted, record :: records, .cons described all, ?_⟩
      rw [split, joined, List.flatten_cons, List.append_assoc]

-- Local headers

theorem readExact_ok {bytes read : List UInt8} {offset n : Nat}
    (ran : readExact bytes offset n = .ok read)
    : read = (bytes.drop offset).take n ∧ offset + n ≤ bytes.length := by
  unfold readExact at ran
  split at ran
  · rename_i enough
    cases ran
    exact ⟨rfl, enough⟩
  · cases ran

/-- Where a verified entry lies: its local header with the same name, then its data, all before
the central directory.
-/
structure LiesBefore (bytes : List UInt8) (cdOffset : Nat) (raw : CentralEntry)
    (dataOffset : Nat) : Prop where
  signature : le32 bytes raw.localOffset = sigLocal
  nameLength : le16 bytes (raw.localOffset + 26) = raw.nameBytes.length
  name : (bytes.drop (raw.localOffset + 30)).take raw.nameBytes.length = raw.nameBytes
  dataStarts : dataOffset = raw.localOffset + 30 + raw.nameBytes.length
    + le16 bytes (raw.localOffset + 28)
  dataEnds : dataOffset + raw.compressedSize ≤ cdOffset

theorem verifyLocalHeader_ok {bytes : List UInt8} {raw : CentralEntry} {cdOffset dataOffset : Nat}
    (ran : verifyLocalHeader bytes raw cdOffset = .ok dataOffset)
    : LiesBefore bytes cdOffset raw dataOffset := by
  simp only [verifyLocalHeader, except_bind_ok_iff, except_guard_ok_iff, addWord_ok_iff,
    refusing_ok_iff] at ran
  obtain ⟨_, ⟨_, rfl⟩, _, header, read, _, fields, _, ⟨_, rfl⟩, rest, continued, _, named, _,
    ⟨_, rfl⟩, _, ⟨_, rfl⟩, inside, ended⟩ := ran
  obtain ⟨rfl, _⟩ := readExact_ok read
  obtain ⟨rfl, _⟩ := readExact_ok continued
  obtain rfl := Except.ok.inj ended
  have field16 : ∀ offset, offset + 2 ≤ 30
      → le16 ((bytes.drop raw.localOffset).take localHeaderLen) offset
        = le16 bytes (raw.localOffset + offset) := fun offset within =>
    (leField_take 2 _ offset _ within).trans (leField_drop ..)
  have field32 : le32 ((bytes.drop raw.localOffset).take localHeaderLen) 0
      = le32 bytes raw.localOffset :=
    (leField_take 4 _ 0 _ (by decide)).trans (leField_drop ..)
  simp only [checkLocalFields, except_guard_ok_iff, except_check_ok_iff, not_not,
    field16 26 (by decide), field32] at fields
  obtain ⟨signed, _, _, _, nameLength⟩ := fields
  simp only [checkLocalName, except_guard_ok_iff, not_not, List.take_take, field16 26 (by decide),
    nameLength] at named
  rw [Nat.min_eq_left (Nat.le_add_right ..)] at named
  have starts : raw.localOffset + localHeaderLen
        + (le16 ((bytes.drop raw.localOffset).take localHeaderLen) 26
          + le16 ((bytes.drop raw.localOffset).take localHeaderLen) 28)
      = raw.localOffset + 30 + raw.nameBytes.length + le16 bytes (raw.localOffset + 28) := by
    rw [field16 26 (by decide), field16 28 (by decide), nameLength, ← Nat.add_assoc]
    rfl
  exact ⟨signed, nameLength, named.1, starts, Nat.not_lt.mp inside⟩

/-- Sums of 32-bit offsets and 16-bit lengths do not overflow. -/
theorem verifyLocalHeader_fits {bytes : List UInt8} {raw : CentralEntry} {cdOffset : Nat}
    (offset : raw.localOffset < 2 ^ 32) (size : raw.compressedSize < 2 ^ 32)
    : Fits (verifyLocalHeader bytes raw cdOffset) := by
  unfold verifyLocalHeader
  apply Fits.bind (.add (by simp only [localHeaderLen]; omega))
  intro headerEnd summed
  obtain ⟨_, rfl⟩ := (addWord_ok_iff ..).mp summed
  apply Fits.guard
  intro _
  apply Fits.bind (.refusing _)
  intro header _
  apply Fits.bind (.refusing _)
  intro _ _
  have nameLen := le16_lt header 26
  have extraLen := le16_lt header 28
  apply Fits.bind (.add (by omega))
  intro variableLen summed
  obtain ⟨_, rfl⟩ := (addWord_ok_iff ..).mp summed
  apply Fits.bind (.refusing _)
  intro rest _
  apply Fits.bind (.refusing _)
  intro _ _
  apply Fits.bind (.add (by simp only [localHeaderLen]; omega))
  intro dataOffset summed
  obtain ⟨_, rfl⟩ := (addWord_ok_iff ..).mp summed
  apply Fits.bind (.add (by simp only [localHeaderLen]; omega))
  intro dataEnd _
  exact Fits.guard fun _ => Fits.ok _

-- Placements

/-- An entry with the bytes of its central record and the offset of its local header. -/
structure Placement where
  record : List UInt8
  localOffset : Nat
  entry : EntryInfo

namespace Placement

/-- The bytes from the local header to the end of the data. -/
def range (placement : Placement) : Nat × Nat :=
  (placement.localOffset, placement.entry.dataOffset + placement.entry.compressedSize)

def nameLength (placement : Placement) : Nat := le16 placement.record 28

def nameBytes (placement : Placement) : List UInt8 :=
  (placement.record.drop 46).take placement.nameLength

/-- The two headers of an entry agree about it, and its local header, its name and its data lie
before the central directory.
-/
structure Sits (bytes : List UInt8) (cdOffset : Nat) (placement : Placement) : Prop where
  centralSignature : le32 placement.record 0 = sigCentral
  recordLength : placement.record.length = recordLength placement.record
  offset : le32 placement.record 42 = placement.localOffset
  compressed : le32 placement.record 20 = placement.entry.compressedSize
  size : le32 placement.record 24 = placement.entry.size
  name : ∃ name, fromUtf8 placement.nameBytes = some name
    ∧ placement.entry.path = trimEndSlashes name ∧ placement.entry.isDir = endsWithSlash name
  localSignature : le32 bytes placement.localOffset = sigLocal
  sameLength : le16 bytes (placement.localOffset + 26) = placement.nameLength
  sameName : (bytes.drop (placement.localOffset + 30)).take placement.nameLength
    = placement.nameBytes
  dataStarts : placement.entry.dataOffset
    = placement.localOffset + 30 + placement.nameLength + le16 bytes (placement.localOffset + 28)
  dataEnds : placement.entry.dataOffset + placement.entry.compressedSize ≤ cdOffset

theorem Sits.nonempty {bytes : List UInt8} {cdOffset : Nat} {placement : Placement}
    (sits : placement.Sits bytes cdOffset) : placement.range.1 < placement.range.2 := by
  simp only [range, sits.dataStarts]
  omega

end Placement

/-- What is known of one entry after both of its headers were read. -/
structure Places (bytes : List UInt8) (limits : ArchiveLimits) (cdOffset : Nat)
    (raw : CentralEntry) (located : Located) (placement : Placement) : Prop where
  sits : placement.Sits bytes cdOffset
  entry : placement.entry = located.info
  range : placement.range = located.range
  declared : located.info.declared = raw.declared
  path : validateRelPath placement.entry.path = .ok ()
  withinLimit : placement.entry.size ≤ limits.maxEntryBytes.toNat

theorem locateEntry_ok {bytes : List UInt8} {limits : ArchiveLimits} {cdOffset : Nat}
    {record : List UInt8} {raw : CentralEntry} {located : Located}
    (described : Describes limits record raw)
    (ran : locateEntry bytes cdOffset raw = .ok located)
    : Places bytes limits cdOffset raw located ⟨record, raw.localOffset, located.info⟩ := by
  simp only [locateEntry, except_bind_ok_iff, addWord_ok_iff] at ran
  obtain ⟨dataOffset, verified, dataEnd, ⟨_, rfl⟩, built⟩ := ran
  obtain rfl := Except.ok.inj built
  have lies := verifyLocalHeader_ok verified
  have long : 46 + le16 record 28 ≤ record.length := by
    rw [described.length, recordLength]
    omega
  have nameLength : raw.nameBytes.length = le16 record 28 := by
    rw [described.nameBytes, List.length_take, List.length_drop]
    omega
  exact {
    sits := {
      centralSignature := described.signature
      recordLength := described.length
      offset := described.localOffset.symm
      compressed := described.compressed.symm
      size := described.size.symm
      name := by
        have named := described.name
        rw [described.nameBytes] at named
        exact ⟨raw.name, named, rfl, described.isDir⟩
      localSignature := lies.signature
      sameLength := lies.nameLength.trans nameLength
      sameName := by
        have same := lies.name
        rwa [nameLength, described.nameBytes] at same
      dataStarts := by
        have starts := lies.dataStarts
        rwa [nameLength] at starts
      dataEnds := lies.dataEnds }
    entry := rfl
    range := rfl
    declared := rfl
    path := described.path
    withinLimit := described.withinLimit }

theorem locateEntry_fits {bytes : List UInt8} {limits : ArchiveLimits} {cdOffset : Nat}
    {record : List UInt8} {raw : CentralEntry} (described : Describes limits record raw)
    : Fits (locateEntry bytes cdOffset raw) := by
  have offset : raw.localOffset < 2 ^ 32 := described.localOffset ▸ le32_lt record 42
  have size : raw.compressedSize < 2 ^ 32 := described.compressed ▸ le32_lt record 20
  apply Fits.bind (verifyLocalHeader_fits offset size)
  intro dataOffset verified
  have starts := (verifyLocalHeader_ok verified).dataStarts
  have sameLength := (verifyLocalHeader_ok verified).nameLength
  have short := le16_lt bytes (raw.localOffset + 26)
  have extraLen := le16_lt bytes (raw.localOffset + 28)
  apply Fits.bind (.add (by omega))
  intro dataEnd _
  exact Fits.ok _

/-- Every entry of the directory gets its placement, by induction over the records. -/
theorem locateEntries_ok {bytes : List UInt8} {limits : ArchiveLimits} {cdOffset : Nat}
    {records : List (List UInt8)} {central : List CentralEntry} {located : List Located}
    (described : List.Forall₂ (Describes limits) records central)
    (ran : locateEntries bytes cdOffset central = .ok located)
    : ∃ placements : List Placement,
        placements.map Placement.record = records
        ∧ placements.map Placement.entry = located.map Located.info
        ∧ placements.map Placement.range = located.map Located.range
        ∧ placements.map (fun placement => placement.entry.declared)
            = central.map CentralEntry.declared
        ∧ ∀ placement ∈ placements, placement.Sits bytes cdOffset
            ∧ validateRelPath placement.entry.path = .ok ()
            ∧ placement.entry.size ≤ limits.maxEntryBytes.toNat := by
  induction described generalizing located with
  | nil =>
      obtain rfl := Except.ok.inj ran
      exact ⟨[], rfl, rfl, rfl, rfl, fun _ held => absurd held List.not_mem_nil⟩
  | @cons record raw _ _ first _ ih =>
      simp only [locateEntries, except_bind_ok_iff] at ran
      obtain ⟨info, foundFirst, others, foundRest, built⟩ := ran
      obtain rfl := Except.ok.inj built
      have placed := locateEntry_ok first foundFirst
      obtain ⟨placements, sameRecords, sameEntries, sameRanges, sameNames, all⟩ := ih foundRest
      refine ⟨⟨record, raw.localOffset, info.info⟩ :: placements, ?_, ?_, ?_, ?_, ?_⟩
      · rw [List.map_cons, sameRecords]
      · rw [List.map_cons, List.map_cons, sameEntries]
      · rw [List.map_cons, List.map_cons, sameRanges, placed.range]
      · rw [List.map_cons, List.map_cons, sameNames, ← placed.declared]
      · intro placement held
        rcases List.mem_cons.mp held with rfl | later
        · exact ⟨placed.sits, placed.path, placed.withinLimit⟩
        · exact all placement later

theorem locateEntries_fits {bytes : List UInt8} {limits : ArchiveLimits} {cdOffset : Nat}
    {records : List (List UInt8)} {central : List CentralEntry}
    (described : List.Forall₂ (Describes limits) records central)
    : Fits (locateEntries bytes cdOffset central) := by
  induction described with
  | nil => exact Fits.ok _
  | cons first _ ih =>
      apply Fits.bind (locateEntry_fits first)
      intro located _
      apply Fits.bind ih
      intro others _
      exact Fits.ok _

/-- Ranges that pass are adjacent without overlap. -/
theorem checkRanges_ok {ranges : List (Nat × Nat)} (passed : checkRanges ranges = .ok ())
    : ranges.IsChain fun first second => first.2 ≤ second.1 := by
  induction ranges with
  | nil => exact .nil
  | cons first rest ih =>
      cases rest with
      | nil => exact .singleton first
      | cons second others =>
          simp only [checkRanges] at passed
          split at passed
          · cases passed
          · rename_i clear
            exact .cons_cons (Nat.not_lt.mp clear) (ih passed)

-- The end record

theorem isEndRecord_ok {tail : List UInt8} {pos : Nat}
    (ran : isEndRecord tail pos = .ok true)
    : le32 tail pos = sigEocd ∧ pos + 22 + le16 tail (pos + 20) = tail.length := by
  unfold isEndRecord at ran
  split at ran
  · rename_i signed
    simp only [except_bind_ok_iff, addWord_ok_iff] at ran
    obtain ⟨_, ⟨_, rfl⟩, _, ⟨_, rfl⟩, ended⟩ := ran
    exact ⟨signed, beq_iff_eq.mp (Except.ok.inj ended)⟩
  · cases Except.ok.inj ran

theorem isEndRecord_fits {tail : List UInt8} {pos : Nat} (small : pos < 2 ^ 32)
    : Fits (isEndRecord tail pos) := by
  unfold isEndRecord
  split
  · have comment := le16_lt tail (pos + 20)
    apply Fits.bind (.add (by simp only [eocdLen]; omega))
    intro fixedEnd summed
    obtain ⟨_, rfl⟩ := (addWord_ok_iff ..).mp summed
    apply Fits.bind (.add (by simp only [eocdLen]; omega))
    intro recordEnd _
    exact Fits.ok _
  · exact Fits.ok _

/-- A position that is found holds an end record, by induction on the positions left. -/
theorem findEocd_ok {tail : List UInt8} {last pos : Nat} (ran : findEocd tail last = .ok (some pos))
    : isEndRecord tail pos = .ok true ∧ pos ≤ last := by
  induction last with
  | zero =>
      simp only [findEocd, except_bind_ok_iff] at ran
      obtain ⟨found, asked, answered⟩ := ran
      cases found with
      | false => cases Except.ok.inj answered
      | true =>
          obtain rfl := Option.some.inj (Except.ok.inj answered)
          exact ⟨asked, le_rfl⟩
  | succ last ih =>
      simp only [findEocd, except_bind_ok_iff] at ran
      obtain ⟨found, asked, answered⟩ := ran
      cases found with
      | false =>
          obtain ⟨holds, before⟩ := ih answered
          exact ⟨holds, before.trans (Nat.le_succ _)⟩
      | true =>
          obtain rfl := Option.some.inj (Except.ok.inj answered)
          exact ⟨asked, le_rfl⟩

theorem findEocd_fits {tail : List UInt8} {last : Nat} (small : last < 2 ^ 32)
    : Fits (findEocd tail last) := by
  induction last with
  | zero =>
      apply Fits.bind (isEndRecord_fits small)
      intro found _
      exact Fits.ok _
  | succ last ih =>
      apply Fits.bind (isEndRecord_fits small)
      intro found _
      cases found with
      | false => exact ih (by omega)
      | true => exact Fits.ok _

/-- What the end record at an offset says about the archive. -/
structure EndsAt (bytes : List UInt8) (limits : ArchiveLimits) (endAt : Nat) (found : EndRecord)
    : Prop where
  signature : le32 bytes endAt = sigEocd
  endsArchive : endAt + 22 + le16 bytes (endAt + 20) = bytes.length
  entries : found.totalEntries = le16 bytes (endAt + 10)
  directorySize : found.cdSize = le32 bytes (endAt + 12)
  directoryAt : found.cdOffset = le32 bytes (endAt + 16)
  directoryEnds : found.cdOffset + found.cdSize = endAt
  entriesLimit : found.totalEntries ≤ limits.maxEntries.toNat
  archiveLimit : bytes.length ≤ limits.maxArchiveBytes.toNat

theorem checkEndRecord_ok {eocd : List UInt8} {limits : ArchiveLimits} {found : EndRecord}
    (passed : checkEndRecord eocd limits = .ok found)
    : found = ⟨le16 eocd 10, le32 eocd 12, le32 eocd 16⟩
      ∧ found.totalEntries ≤ limits.maxEntries.toNat := by
  simp only [checkEndRecord, except_guard_ok_iff] at passed
  obtain ⟨_, _, _, few, built⟩ := passed
  obtain rfl := Except.ok.inj built
  exact ⟨rfl, Nat.not_lt.mp few⟩

theorem readEndRecord_ok {bytes : List UInt8} {limits : ArchiveLimits} {found : EndRecord}
    (ran : readEndRecord bytes limits = .ok found)
    : ∃ endAt, EndsAt bytes limits endAt found := by
  simp only [readEndRecord, except_bind_ok_iff, except_guard_ok_iff, subWord_ok_iff,
    refusing_ok_iff] at ran
  obtain ⟨small, _, tailStart, ⟨_, starts⟩, tail, read, lastPos, ⟨_, rfl⟩, position, searched,
    ran⟩ := ran
  cases position with
  | none => cases ran
  | some eocdPos =>
      simp only [except_bind_ok_iff, except_guard_ok_iff, addWord_ok_iff, refusing_ok_iff,
        not_not] at ran
      obtain ⟨fields, checked, endAt, ⟨_, rfl⟩, _, ⟨_, rfl⟩, contiguous, _, ended⟩ := ran
      obtain rfl := Except.ok.inj ended
      obtain ⟨same, few⟩ := checkEndRecord_ok checked
      obtain ⟨holds, _⟩ := findEocd_ok searched
      obtain ⟨signed, ends⟩ := isEndRecord_ok holds
      obtain ⟨taken, inside⟩ := readExact_ok read
      have suffix : tail = bytes.drop tailStart := by
        rw [taken]
        apply List.take_of_length_le
        rw [List.length_drop]
        omega
      rw [suffix] at signed ends same
      simp only [le16, le32, leField_drop, List.length_drop] at signed ends same
      refine ⟨tailStart + eocdPos, signed, ?_, ?_, ?_, ?_, contiguous, few, Nat.not_lt.mp small⟩
      · simp only [le16, Nat.add_assoc] at ends ⊢
        omega
      · rw [same]
        simp only [le16, Nat.add_assoc]
      · rw [same]
        simp only [le32, Nat.add_assoc]
      · rw [same]
        simp only [le32, Nat.add_assoc]

/-- The tail has at most 22 + 65535 bytes, and the directory fields have 32 bits. -/
theorem readEndRecord_fits (bytes : List UInt8) (limits : ArchiveLimits)
    : Fits (readEndRecord bytes limits) := by
  have limit := limits.maxArchiveBytes.toNat_lt
  unfold readEndRecord
  apply Fits.guard
  intro small
  apply Fits.guard
  intro long
  apply Fits.bind (.sub (Nat.min_le_left ..))
  intro tailStart starts
  obtain ⟨_, rfl⟩ := (subWord_ok_iff ..).mp starts
  apply Fits.bind (.refusing _)
  intro tail read
  have tailLength : tail.length = min bytes.length (eocdLen + u16Max) := by
    obtain ⟨taken, inside⟩ := readExact_ok ((refusing_ok_iff ..).mp read)
    rw [taken, List.length_take, List.length_drop]
    omega
  have short : tail.length < 2 ^ 32 := by
    rw [tailLength]
    simp only [eocdLen, u16Max]
    omega
  apply Fits.bind (.sub (by rw [tailLength]; simp only [eocdLen, u16Max] at long ⊢; omega))
  intro lastPos last
  obtain ⟨_, rfl⟩ := (subWord_ok_iff ..).mp last
  apply Fits.bind (findEocd_fits (by omega))
  intro position searched
  cases position with
  | none => exact Fits.refused _
  | some eocdPos =>
      apply Fits.bind (.refusing _)
      intro found checked
      obtain ⟨same, _⟩ := checkEndRecord_ok ((refusing_ok_iff ..).mp checked)
      have positioned := (findEocd_ok searched).2
      apply Fits.bind (.add (by omega))
      intro eocdAbs _
      have size := le32_lt (tail.drop eocdPos) 12
      have offset := le32_lt (tail.drop eocdPos) 16
      apply Fits.bind (.add (by rw [same]; dsimp only; omega))
      intro cdEnd _
      apply Fits.guard
      intro _
      exact Fits.guard fun _ => Fits.ok _

-- Accepted archives

/-- An archive whose parts are where its records say, with extractable names and bounded sizes. -/
structure Accepted (bytes : List UInt8) (limits : ArchiveLimits) (entries : List EntryInfo)
    (endAt cdOffset : Nat) (placements : List Placement) : Prop where
  endSignature : le32 bytes endAt = sigEocd
  endsArchive : endAt + 22 + le16 bytes (endAt + 20) = bytes.length
  directoryAt : cdOffset = le32 bytes (endAt + 16)
  directoryEnds : cdOffset + le32 bytes (endAt + 12) = endAt
  consumed : (bytes.drop cdOffset).take (le32 bytes (endAt + 12))
    = (placements.map Placement.record).flatten
  counted : placements.length = le16 bytes (endAt + 10)
  placed : entries = placements.map Placement.entry
  sits : ∀ placement ∈ placements, placement.Sits bytes cdOffset
  apart : (placements.map Placement.range).Pairwise Apart
  paths : ∀ entry ∈ entries, validateRelPath entry.path = .ok ()
  compatible : Compatible limits.maxTotalBytes.toNat (entries.map EntryInfo.declared)
  sizes : ∀ entry ∈ entries, entry.size ≤ limits.maxEntryBytes.toNat
  entriesLimit : entries.length ≤ limits.maxEntries.toNat
  archiveLimit : bytes.length ≤ limits.maxArchiveBytes.toNat

theorem readDirectory_ok {bytes : List UInt8} {limits : ArchiveLimits} {found : EndRecord}
    {central : List CentralEntry} (ran : readDirectory bytes limits found = .ok central)
    : central.length = found.totalEntries
      ∧ Compatible limits.maxTotalBytes.toNat (central.map CentralEntry.declared)
      ∧ ∃ records : List (List UInt8),
          List.Forall₂ (Describes limits) records central
          ∧ (bytes.drop found.cdOffset).take found.cdSize = records.flatten := by
  simp only [readDirectory, except_bind_ok_iff, except_guard_ok_iff, not_not] at ran
  obtain ⟨directory, read, ⟨listed, rest⟩, ran, rfl, _, passed, built⟩ := ran
  obtain rfl := Except.ok.inj built
  obtain ⟨counted, records, described, joined⟩ := readEntries_ok ran
  rw [(readExact_ok read).1, List.append_nil] at joined
  exact ⟨counted, checkNamesAndTotals_ok passed, records, described, joined⟩

theorem scanArchive_ok {bytes : List UInt8} {limits : ArchiveLimits} {entries : List EntryInfo}
    (ran : scanArchive bytes limits = .ok entries)
    : ∃ endAt cdOffset placements, Accepted bytes limits entries endAt cdOffset placements := by
  simp only [scanArchive, except_bind_ok_iff, refusing_ok_iff] at ran
  obtain ⟨found, ended, central, directory, located, positioned, _, ranged, built⟩ := ran
  obtain rfl := Except.ok.inj built
  obtain ⟨endAt, ends⟩ := readEndRecord_ok ended
  obtain ⟨counted, compatible, records, described, joined⟩ := readDirectory_ok directory
  obtain ⟨placements, sameRecords, sameEntries, sameRanges, sameNames, all⟩ :=
    locateEntries_ok described positioned
  have length : placements.length = central.length := by
    have lengths := congrArg List.length sameNames
    rwa [List.length_map, List.length_map] at lengths
  have nonempty : ∀ range ∈ located.map Located.range, range.1 < range.2 := by
    intro range held
    rw [← sameRanges] at held
    obtain ⟨placement, kept, rfl⟩ := List.mem_map.mp held
    exact (all placement kept).1.nonempty
  have apart := pairwise_apart_of_perm (List.perm_insertionSort rangeLe _)
    (checkRanges_ok ranged) nonempty
  have eachEntry : ∀ entry ∈ located.map Located.info,
      validateRelPath entry.path = .ok () ∧ entry.size ≤ limits.maxEntryBytes.toNat := by
    intro entry held
    rw [← sameEntries] at held
    obtain ⟨placement, kept, rfl⟩ := List.mem_map.mp held
    exact (all placement kept).2
  refine ⟨endAt, found.cdOffset, placements, ?_⟩
  exact {
    endSignature := ends.signature
    endsArchive := ends.endsArchive
    directoryAt := ends.directoryAt
    directoryEnds := ends.directorySize ▸ ends.directoryEnds
    consumed := by rw [sameRecords, ← joined, ends.directorySize]
    counted := length.trans (counted.trans ends.entries)
    placed := sameEntries.symm
    sits := fun placement held => (all placement held).1
    apart := sameRanges ▸ apart
    paths := fun entry held => (eachEntry entry held).1
    compatible := by
      rw [← sameEntries, List.map_map]
      exact sameNames ▸ compatible
    sizes := fun entry held => (eachEntry entry held).2
    entriesLimit := by
      rw [← sameEntries, List.length_map, length, counted]
      exact ends.entriesLimit
    archiveLimit := ends.archiveLimit }

theorem scanArchive_fits (bytes : List UInt8) (limits : ArchiveLimits)
    : Fits (scanArchive bytes limits) := by
  apply Fits.bind (readEndRecord_fits bytes limits)
  intro found _
  apply Fits.bind (.refusing _)
  intro central directory
  obtain ⟨_, _, records, described, _⟩ := readDirectory_ok ((refusing_ok_iff ..).mp directory)
  apply Fits.bind (locateEntries_fits described)
  intro located _
  apply Fits.bind (.refusing _)
  intro _ _
  exact Fits.ok _

end Hane.Update.Archive
