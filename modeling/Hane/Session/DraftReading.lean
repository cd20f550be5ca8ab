import Hane.Session.DraftJournal
import Mathlib.Data.List.Dedup
import Mathlib.Data.List.Nodup

/-! What is written of a draft is what is read of it, and the files of a draft tell which one they
are of; a recovery reads every draft of a listing once, and counts what it cannot read.
-/

namespace Hane.Session

open Hane.Document Hane.Foundations

-- Entries

theorem decodeEntry_encodeEntry {target : List UInt8} (text : Text)
    (fits : target.length < 2 ^ 64)
    : decodeEntry (encodeEntry target text) = some (target, text) := by
  have length : fromLeBytes (toLeBytes 8 target.length) = target.length :=
    fromLeBytes_toLeBytes fits
  have parts : encodeEntry target text
      = entryMagic ++ (toLeBytes 8 target.length ++ (target ++ textBytes text)) := by
    simp only [encodeEntry, List.append_assoc]
  have size : (toLeBytes 8 target.length).length = 8 := toLeBytes_length 8 _
  have behind : (toLeBytes 8 target.length ++ (target ++ textBytes text)).drop 8
      = target ++ textBytes text := List.drop_left' size
  have front : (toLeBytes 8 target.length ++ (target ++ textBytes text)).take 8
      = toLeBytes 8 target.length := List.take_left' size
  have long : ¬ (toLeBytes 8 target.length ++ (target ++ textBytes text)).length < 8 := by
    rw [List.length_append, size]
    omega
  rw [decodeEntry, parts, if_pos (by simp), List.drop_left]
  dsimp only
  rw [if_neg long, front, behind, length, if_neg (by simp), List.drop_left, List.take_left,
    textFromUtf8_textBytes, Option.map_some]

-- Names

namespace DraftId

theorem stem_length (id : DraftId) : id.stem.length = 16 := hexText_length 16 _

theorem stem_append_inj {left right : DraftId} {first second : Text}
    : left.stem ++ first = right.stem ++ second ↔ left = right ∧ first = second := by
  constructor
  · intro same
    obtain ⟨stems, rest⟩ := List.append_inj same (left.stem_length.trans right.stem_length.symm)
    have values := hexText_inj stems left.value.toNat_lt right.value.toNat_lt
    refine ⟨?_, rest⟩
    cases left
    cases right
    exact congrArg DraftId.mk (UInt64.toNat_inj.mp values)
  · rintro ⟨rfl, rfl⟩
    rfl

theorem hexNumber_stem (id : DraftId) : hexNumber id.stem = some id.value.toNat :=
  hexNumber_hexText (by decide) id.value.toNat_lt id.value.toNat_lt

theorem fromFileName_of_stem {id : DraftId} {name : Text}
    (stripped : (stripSuffix name ".draft".toList).or (stripSuffix name ".md".toList)
      = some id.stem) : fromFileName name = some id := by
  rw [fromFileName, stripped, Option.bind_some, hexNumber_stem, Option.map_some,
    UInt64.ofNat_toNat]

theorem fromFileName_entry (id : DraftId) : fromFileName id.entryFileName = some id := by
  refine fromFileName_of_stem ?_
  rw [entryFileName, stripSuffix_append]
  rfl

theorem fromFileName_text (id : DraftId) : fromFileName id.fileName = some id := by
  refine fromFileName_of_stem ?_
  have other : stripSuffix (id.stem ++ ".md".toList) ".draft".toList = none := by
    refine stripSuffix_eq_none.mpr ?_
    rintro ⟨front, same⟩
    have last := congrArg List.getLast? same
    rw [List.getLast?_append, List.getLast?_append] at last
    have ends : some 't' = some 'd' := last
    exact absurd ends (by decide)
  rw [fileName, other, stripSuffix_append]
  rfl

/-- Every file that is kept of a draft. -/
def names (id : DraftId) : List Text :=
  [id.entryFileName, id.temporaryName, id.fileName, id.targetFileName]

theorem names_eq (id : DraftId)
    : id.names = [".draft".toList, ".draft".toList ++ ".tmp".toList, ".md".toList,
        ".target".toList].map (id.stem ++ ·) := by
  simp only [names, entryFileName, temporaryName, fileName, targetFileName, List.map_cons,
    List.map_nil, List.append_assoc]

theorem names_apart {left right : DraftId} {name : Text} (first : name ∈ left.names)
    (second : name ∈ right.names) : left = right := by
  rw [names_eq] at first second
  obtain ⟨one, _, rfl⟩ := List.mem_map.mp first
  obtain ⟨other, _, same⟩ := List.mem_map.mp second
  exact (stem_append_inj.mp same).1.symm

theorem names_nodup (id : DraftId) : id.names.Nodup := by
  rw [names_eq]
  refine List.Nodup.map (fun first second same => ?_) (by decide)
  exact List.append_cancel_left same

end DraftId

-- Targets

/-- A name that a directory may have. -/
structure PlainName (name : List UInt8) : Prop where
  filled : name ≠ []
  noSlash : ∀ item ∈ name, unixPaths.isSeparator item = false
  noDot : name ≠ [0x2E]
  noDots : name ≠ [0x2E, 0x2E]

theorem PlainName.component {name : List UInt8} (plain : PlainName name)
    : unixPaths.nameComponents name = [.normal name] := by
  have own : unixPaths.nameComponent name = some (.normal name) := by
    have noDot : name ≠ [unixPaths.dot] := plain.noDot
    have noDots : name ≠ [unixPaths.dot, unixPaths.dot] := plain.noDots
    rw [PathRules.nameComponent, if_neg (not_or.mpr ⟨plain.filled, noDot⟩), if_neg noDots]
  rw [PathRules.nameComponents_name plain.noSlash, own]
  rfl

/-- A path that begins with such a name begins with no root and no dot. -/
theorem PlainName.plain {name : List UInt8} (plain : PlainName name) (rest : List UInt8)
    : unixPaths.Plain (name ++ rest) := by
  cases name with
  | nil => exact absurd rfl plain.filled
  | cons first more =>
      have here := plain.noSlash first List.mem_cons_self
      refine ⟨?_, ?_⟩
      · simp [PathRules.isAnchored, unixPaths, unixRules] at here ⊢
        exact here
      · cases more with
        | nil =>
            have other : first ≠ unixPaths.dot := fun same => plain.noDot (by rw [same]; rfl)
            simp [PathRules.startsWithDot, other]
        | cons second others =>
            have next := plain.noSlash second (by simp)
            simp [PathRules.startsWithDot, next]

theorem asOsStr_cons (name : List UInt8) (second : PathComponent UInt8) (rest : OsPath)
    : asOsStr (.normal name :: second :: rest) = name ++ 0x2F :: asOsStr (second :: rest) := by
  simp [asOsStr, List.intercalate, componentUnits]

theorem nameComponents_asOsStr {names : List (List UInt8)}
    (plain : ∀ name ∈ names, PlainName name)
    : unixPaths.nameComponents (asOsStr (names.map .normal)) = names.map .normal := by
  induction names with
  | nil => exact PathRules.nameComponents_nil
  | cons name rest ih =>
      have own := (plain name List.mem_cons_self).component
      cases rest with
      | nil => simpa [asOsStr, List.intercalate, componentUnits] using own
      | cons second others =>
          have behind := ih fun other among => plain other (List.mem_cons_of_mem _ among)
          rw [List.map_cons, List.map_cons, asOsStr_cons,
            PathRules.nameComponents_append (by decide), own, ← List.map_cons, behind]
          rfl

theorem components_asOsStr {names : List (List UInt8)}
    (plain : ∀ name ∈ names, PlainName name)
    : unixPaths.components (asOsStr (names.map .normal)) = names.map .normal := by
  have start : unixPaths.Plain (asOsStr (names.map .normal)) := by
    cases names with
    | nil => exact ⟨rfl, rfl⟩
    | cons name rest =>
        have own := plain name List.mem_cons_self
        cases rest with
        | nil => simpa [asOsStr, List.intercalate, componentUnits] using own.plain []
        | cons second others =>
            rw [List.map_cons, List.map_cons, asOsStr_cons]
            exact own.plain _
  rw [start.components, nameComponents_asOsStr plain]

theorem decodeTarget_encodeTarget (root : OsPath) {names : List (List UInt8)}
    (plain : ∀ name ∈ names, PlainName name)
    : decodeTarget root (encodeTarget root (root ++ names.map .normal))
      = root ++ names.map .normal := by
  have all : (names.map PathComponent.normal).all isNormal = true := by
    simp [isNormal]
  rw [encodeTarget, if_pos (by simp), List.drop_left, decodeTarget, components_asOsStr plain]
  exact if_pos all

/-- Whatever was kept, the folder is the root or lies below it. -/
theorem decodeTarget_under (root : OsPath) (encoded : List UInt8)
    : ∃ names : List (List UInt8), decodeTarget root encoded = root ++ names.map .normal := by
  unfold decodeTarget
  dsimp only
  split
  case isTrue normal =>
    have named : ∀ path : OsPath, path.all isNormal = true
        → ∃ names : List (List UInt8), path = names.map .normal := by
      intro path normal
      induction path with
      | nil => exact ⟨[], rfl⟩
      | cons first rest ih =>
          obtain ⟨here, behind⟩ := Bool.and_eq_true_iff.mp (List.all_cons ▸ normal)
          obtain ⟨names, rfl⟩ := ih behind
          cases first with
          | normal name => exact ⟨name :: names, rfl⟩
          | anchor path => cases here
          | curDir => cases here
          | parentDir => cases here
    obtain ⟨names, is⟩ := named _ normal
    exact ⟨names, by rw [is]⟩
  case isFalse => exact ⟨[], (List.append_nil root).symm⟩

/-- The journal reads back what it writes: every id from the names of its files, every entry, and
every folder below the root; and whatever it finds for a folder, it takes none outside the root.
-/
theorem drafts_read_back
    : (∀ id : DraftId, DraftId.fromFileName id.entryFileName = some id
        ∧ DraftId.fromFileName id.fileName = some id)
      ∧ (∀ left right : DraftId, ∀ name ∈ left.names, name ∈ right.names → left = right)
      ∧ (∀ (target : List UInt8) (text : Text), target.length < 2 ^ 64
        → decodeEntry (encodeEntry target text) = some (target, text))
      ∧ (∀ (root : OsPath) (names : List (List UInt8)), (∀ name ∈ names, PlainName name)
        → decodeTarget root (encodeTarget root (root ++ names.map .normal))
          = root ++ names.map .normal)
      ∧ ∀ (root : OsPath) (encoded : List UInt8), ∃ names : List (List UInt8),
        decodeTarget root encoded = root ++ names.map .normal :=
  ⟨fun id => ⟨id.fromFileName_entry, id.fromFileName_text⟩,
    fun _ _ _ first second => DraftId.names_apart first second,
    fun _ text fits => decodeEntry_encodeEntry text fits,
    fun root _ plain => decodeTarget_encodeTarget root plain, decodeTarget_under⟩

theorem drafts_read_back_folder
    : decodeEntry (encodeEntry [0x61] "b".toList) = some ([0x61], "b".toList)
      ∧ decodeTarget [] (encodeTarget [] [.normal [0x61]]) = [.normal [0x61]] := by
  obtain ⟨_, _, entries, folders, _⟩ := drafts_read_back
  refine ⟨entries [0x61] "b".toList (by decide), folders [] [[0x61]] fun name among => ?_⟩
  cases List.mem_singleton.mp among
  refine ⟨by decide, fun item held => ?_, by decide, by decide⟩
  cases List.mem_singleton.mp held
  rfl

-- Listings

def DirEntry.draft : DirEntry → Option DraftId
  | .file name => name.bind DraftId.fromFileName
  | _ => none

def DirEntry.isFailed : DirEntry → Bool
  | .failed => true
  | _ => false

def listedIds (entries : List DirEntry) : List DraftId := entries.filterMap DirEntry.draft

/-- The ids that were not seen before, each of them where it comes first. -/
def unseen : List DraftId → List DraftId → List DraftId
  | _, [] => []
  | seen, id :: rest => if id ∈ seen then unseen seen rest else id :: unseen (id :: seen) rest

theorem listedIds_named {entry : DirEntry} {id : DraftId} {rest : List DirEntry}
    (named : entry.draft = some id) : listedIds (entry :: rest) = id :: listedIds rest :=
  List.filterMap_cons_some named

theorem listedIds_none {entry : DirEntry} {rest : List DirEntry} (none : entry.draft = none)
    : listedIds (entry :: rest) = listedIds rest :=
  List.filterMap_cons_none none

theorem mem_unseen {seen ids : List DraftId} {id : DraftId}
    : id ∈ unseen seen ids ↔ id ∈ ids ∧ id ∉ seen := by
  induction ids generalizing seen with
  | nil => simp [unseen]
  | cons first rest ih =>
      rw [unseen]
      split
      case isTrue known =>
        rw [ih, List.mem_cons]
        refine and_congr_left fun fresh => (or_iff_right ?_).symm
        rintro rfl
        exact fresh known
      case isFalse fresh =>
        rw [List.mem_cons, List.mem_cons, ih, List.mem_cons, not_or]
        by_cases same : id = first
        · subst same
          simp [fresh]
        · simp [same]

theorem unseen_nodup (seen ids : List DraftId) : (unseen seen ids).Nodup := by
  induction ids generalizing seen with
  | nil => exact List.nodup_nil
  | cons first rest ih =>
      rw [unseen]
      split
      · exact ih seen
      · refine List.nodup_cons.mpr ⟨fun among => ?_, ih _⟩
        exact (mem_unseen.mp among).2 List.mem_cons_self

/-- What a recovery does, by induction on the listing. -/
theorem recoverFrom_eq (root : OsPath) (read : ReadFile) (seen : List DraftId)
    (entries : List DirEntry)
    : recoverFrom root read seen entries
      = ⟨(unseen seen (listedIds entries)).filterMap (readDraft root read),
        entries.countP DirEntry.isFailed
          + (unseen seen (listedIds entries)).countP fun id =>
            (readDraft root read id).isNone⟩ := by
  induction entries generalizing seen with
  | nil => rfl
  | cons entry rest ih =>
      cases entry with
      | failed =>
          rw [recoverFrom, ih, listedIds_none rfl, List.countP_cons_of_pos rfl, Nat.add_right_comm]
      | other =>
          rw [recoverFrom, ih, listedIds_none rfl, List.countP_cons_of_neg Bool.false_ne_true]
      | file name =>
          rw [recoverFrom, List.countP_cons_of_neg Bool.false_ne_true]
          cases named : name.bind DraftId.fromFileName with
          | none =>
              have other : (DirEntry.file name).draft = none := named
              rw [listedIds_none other, ih]
          | some id =>
              have own : (DirEntry.file name).draft = some id := named
              dsimp only
              rw [listedIds_named own, unseen]
              split
              case isTrue => rw [ih]
              case isFalse =>
                rw [ih]
                cases readable : readDraft root read id with
                | none => simp [readable, Nat.add_assoc]
                | some draft => simp [readable]

theorem readDraft_id {root : OsPath} {read : ReadFile} {id : DraftId} {draft : RecoveredDraft}
    (found : readDraft root read id = some draft) : draft.id = id := by
  unfold readDraft at found
  split at found
  · obtain ⟨⟨encoded, text⟩, _, rfl⟩ := Option.map_eq_some_iff.mp found
    rfl
  · unfold readLegacy at found
    split at found
    · cases found
    · split at found
      · cases found
        rfl
      · cases found
        rfl
      · cases found
  · cases found

theorem mem_recoverFrom {root : OsPath} {read : ReadFile} {entries : List DirEntry}
    {draft : RecoveredDraft}
    : draft ∈ (recoverFrom root read [] entries).drafts
      ↔ draft.id ∈ listedIds entries ∧ readDraft root read draft.id = some draft := by
  rw [recoverFrom_eq, List.mem_filterMap]
  constructor
  · rintro ⟨id, among, found⟩
    cases readDraft_id found
    exact ⟨(mem_unseen.mp among).1, found⟩
  · rintro ⟨among, found⟩
    exact ⟨draft.id, mem_unseen.mpr ⟨among, List.not_mem_nil⟩, found⟩

theorem recoverFrom_ids (root : OsPath) (read : ReadFile) (entries : List DirEntry)
    : ((recoverFrom root read [] entries).drafts.map (·.id)).Nodup := by
  have ids : (recoverFrom root read [] entries).drafts.map (·.id)
      = (unseen [] (listedIds entries)).filter fun id => (readDraft root read id).isSome := by
    rw [recoverFrom_eq]
    dsimp only
    induction unseen [] (listedIds entries) with
    | nil => rfl
    | cons id rest ih =>
        cases found : readDraft root read id with
        | none => simp [found, ih]
        | some draft => simp [found, ih, readDraft_id found]
  rw [ids]
  exact (unseen_nodup [] _).filter _

/-- Whatever the directory lists and however its files are read, a recovery finds no draft twice;
it finds exactly the listed drafts that can be read, as they are read; and what it does not find
it counts: what was found and what failed are the entries that could not be looked at and the
drafts that were listed.
-/
theorem recover_accounts (root : OsPath) (read : ReadFile) (entries : List DirEntry)
    : ((recoverFrom root read [] entries).drafts.map (·.id)).Nodup
      ∧ (∀ draft, draft ∈ (recoverFrom root read [] entries).drafts
        ↔ draft.id ∈ listedIds entries ∧ readDraft root read draft.id = some draft)
      ∧ (recoverFrom root read [] entries).drafts.length
          + (recoverFrom root read [] entries).failed
        = entries.countP DirEntry.isFailed + (listedIds entries).dedup.length := by
  refine ⟨recoverFrom_ids root read entries, fun _ => mem_recoverFrom, ?_⟩
  have distinct : (unseen [] (listedIds entries)).length = (listedIds entries).dedup.length := by
    refine List.Perm.length_eq ?_
    refine (List.perm_ext_iff_of_nodup (unseen_nodup _ _) (List.nodup_dedup _)).mpr fun id => ?_
    simp [mem_unseen]
  have parted : ∀ ids : List DraftId,
      (ids.filterMap (readDraft root read)).length
        + ids.countP (fun id => (readDraft root read id).isNone) = ids.length := by
    intro ids
    induction ids with
    | nil => rfl
    | cons id rest ih =>
        cases found : readDraft root read id with
        | none => simp [found]; omega
        | some draft => simp [found]; omega
  rw [recoverFrom_eq, ← distinct, ← parted]
  dsimp only
  omega

end Hane.Session
