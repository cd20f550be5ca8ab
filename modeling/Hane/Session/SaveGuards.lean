import Hane.Foundations.TextBytes
import Hane.Session.Requests
import Mathlib.Data.List.OfFn

/-! What a write must find at its path before it may replace anything there. -/

namespace Hane.Session

open Hane.Document Hane.Foundations

-- Fingerprints

namespace ContentFingerprint

/-- `Fingerprinter::default`. -/
def start : ContentFingerprint := ⟨0, 0xcbf29ce484222325, 0x9e3779b97f4a7c15⟩

def rotateLeft (word : UInt64) : UInt64 := word <<< 5 ||| word >>> 59

def updateByte (fingerprint : ContentFingerprint) (byte : UInt8) : ContentFingerprint where
  len := fingerprint.len + 1
  laneA := (fingerprint.laneA ^^^ byte.toUInt64) * 0x100000001b3
  laneB := (rotateLeft fingerprint.laneB ^^^ byte.toUInt64) * 0x9e3779b97f4a7c15

/-- `Fingerprinter::update`: what is streamed in parts is fingerprinted as a whole. -/
def update (fingerprint : ContentFingerprint) (bytes : List UInt8) : ContentFingerprint :=
  bytes.foldl updateByte fingerprint

def ofBytes (bytes : List UInt8) : ContentFingerprint := start.update bytes

def ofDocument (document : RopeBuffer) : ContentFingerprint :=
  ofBytes (textBytes document.fullText)

end ContentFingerprint

-- Reading

/-- A loaded file whose fingerprint, where it has one, is that of its document. -/
structure LoadedVersion extends LoadedFile where
  truthful : ∀ known, fingerprint = some known → known = .ofDocument document

inductive LoadFailure where
  | notFound
  | other (error : String)

/-- One try to read a path: its stamp before, what was loaded, and its stamp afterwards. -/
structure ReadAttempt where
  before : Option FileStamp
  loaded : Except LoadFailure LoadedVersion
  after : Option FileStamp

def observeAttempts : Nat := 3

/-- A try during which the path changed is not taken. -/
def observeTries : List ReadAttempt → DiskVersion
  | [] => .unreadable "ファイルが更新され続けているため、整合した内容を読めませんでした"
  | attempt :: rest =>
    if attempt.before.isNone then .missing
    else
      match attempt.loaded with
      | .error .notFound => .missing
      | .error (.other error) => .unreadable error
      | .ok loaded =>
        if loaded.stamp.isSome ∧ loaded.stamp ≠ attempt.after then observeTries rest
        else
          .present
            ⟨loaded.document, loaded.fingerprint.getD (.ofDocument loaded.document), loaded.stamp,
              some loaded.identity.canonical⟩

def observeDisk (attempts : Fin observeAttempts → ReadAttempt) : DiskVersion :=
  observeTries (List.ofFn attempts)

def runExternalCheck (attempts : Fin observeAttempts → ReadAttempt)
    (request : ExternalCheckRequest) : ExternalCheckResult :=
  ⟨observeDisk attempts, request.localDocument.map .ofDocument⟩

/-- The fingerprint of a version is that of its document. -/
def DiskVersion.Truthful (version : DiskVersion) : Prop :=
  ∀ observed, version = .present observed → observed.fingerprint = .ofDocument observed.document

theorem LoadedVersion.fingerprint_getD (file : LoadedVersion)
    : file.fingerprint.getD (.ofDocument file.document) = .ofDocument file.document := by
  cases known : file.fingerprint with
  | none => rfl
  | some fingerprint => exact file.truthful fingerprint known

theorem observeTries_truthful (attempts : List ReadAttempt)
    : (observeTries attempts).Truthful := by
  induction attempts with
  | nil => rintro observed ⟨⟩
  | cons attempt rest ih =>
      intro observed present
      unfold observeTries at present
      split at present
      · cases present
      · split at present
        · cases present
        · cases present
        case h_3 loaded _ =>
          split at present
          · exact ih observed present
          · cases present
            exact loaded.fingerprint_getD

/-- Whatever happens to the path between the tries. -/
theorem observeDisk_truthful (attempts : Fin observeAttempts → ReadAttempt)
    : (observeDisk attempts).Truthful :=
  observeTries_truthful _

/-- What is at a path while nothing changes it. -/
inductive DiskFile where
  | missing
  | unreadable (stamp : FileStamp) (error : String)
  | present (stamp : FileStamp) (file : LoadedVersion)

namespace DiskFile

/-- `FileService::stamp`. -/
def stamp : DiskFile → Option FileStamp
  | missing => none
  | unreadable stamp _ | present stamp _ => some stamp

def attempt (file : DiskFile) : ReadAttempt where
  before := file.stamp
  loaded :=
    match file with
    | missing => .error .notFound
    | unreadable _ error => .error (.other error)
    | present _ file => .ok file
  after := file.stamp

def observe (file : DiskFile) : DiskVersion :=
  observeDisk fun _ => file.attempt

theorem observe_eq (file : DiskFile)
    : file.observe = observeTries (List.replicate observeAttempts file.attempt) := by
  rw [observe, observeDisk, List.ofFn_const]

theorem stamp_eq_none {file : DiskFile} (free : file.stamp = none) : file = missing := by
  cases file with
  | missing => rfl
  | _ => cases free

theorem observe_eq_missing {file : DiskFile} (gone : file.observe = .missing) : file = missing := by
  cases file with
  | missing => rfl
  | unreadable => cases gone
  | present stamp file =>
      simp only [observe_eq, observeAttempts, List.replicate, observeTries, attempt, DiskFile.stamp,
        Option.isNone_some, Bool.false_eq_true, if_false] at gone
      repeat' split at gone
      all_goals cases gone

theorem observe_eq_present {file : DiskFile} {observed : ObservedFile}
    (read : file.observe = .present observed)
    : ∃ stamp loaded, file = present stamp loaded ∧ loaded.document = observed.document
        ∧ loaded.stamp = observed.stamp := by
  cases file with
  | missing => cases read
  | unreadable => cases read
  | present stamp file =>
      refine ⟨stamp, file, rfl, ?_⟩
      simp only [observe_eq, observeAttempts, List.replicate, observeTries, attempt, DiskFile.stamp,
        Option.isNone_some, Bool.false_eq_true, if_false] at read
      repeat' split at read
      all_goals first | cases read; exact ⟨rfl, rfl⟩ | cases read

end DiskFile

-- The guards

/-- The content-based guard: the disk must still hold the version the session believes it is
replacing.
-/
def checkContentGuard (version : DiskVersion) (stamp : Option FileStamp)
    (baseline : Option ContentFingerprint) : Except SaveFailure Unit :=
  match version with
  | .missing =>
    if stamp.isNone && baseline.isNone then .ok () else .error .externalChange
  | .unreadable reason => .error (.io reason)
  | .present file =>
    match baseline, stamp with
    | some baseline, _ =>
      if file.fingerprint = baseline then .ok () else .error .externalChange
    | none, none => .error .externalChange
    | none, some stamp =>
      if file.stamp = some stamp then .ok () else .error .externalChange

def stampUnchanged : Option FileStamp → Option FileStamp → Bool
  | some expected, some current => expected = current
  | some _, none | none, none => true
  | none, some _ => false

def checkOverwriteGuard (file : DiskFile) : OverwriteGuard → Except SaveFailure Unit
  | .force => .ok ()
  | .expectContent stamp baseline => checkContentGuard file.observe stamp baseline
  | .expectStamp expected =>
    if stampUnchanged expected file.stamp then .ok () else .error .externalChange

/-- What a service that was let write did: the result, and the file as it is read back. -/
structure WrittenFile (document : RopeBuffer) where
  saved : SavedFile
  stamp : FileStamp
  file : LoadedVersion
  content : file.document.fullText = document.fullText
  truthful : ∀ known, saved.fingerprint = some known → known = .ofDocument document

/-- How far a `FileService::save_checked` has come: it checks what is at its path and, when it is
let, writes, with or without making the directory. Others may write to the path in between.
-/
inductive SaveChecked where
  | checking (createParent : Bool)
  | writing (createParent : Bool) (found : DiskFile)

def runSaveJob : SaveChecked := .checking true

/-- The first write of a new file never makes its directory. -/
def runCreateNewJob : SaveChecked := .checking false

/-- What a guard lets a write replace. -/
inductive OverwriteGuard.Admits : OverwriteGuard → DiskFile → Prop where
  | force (file : DiskFile) : Admits .force file
  | free (expected : Option FileStamp) : Admits (.expectStamp expected) .missing
  | stamped {file : DiskFile} {stamp : FileStamp}
      : file.stamp = some stamp → Admits (.expectStamp (some stamp)) file
  | untouched : Admits (.expectContent none none) .missing
  | content (stamp : Option FileStamp) (current : FileStamp) (file : LoadedVersion)
      : Admits (.expectContent stamp (some (.ofDocument file.document))) (.present current file)
  | sameStamp {stamp : FileStamp} (current : FileStamp) {file : LoadedVersion}
      : file.stamp = some stamp
        → Admits (.expectContent (some stamp) none) (.present current file)

theorem checkContentGuard_ok {file : DiskFile} {stamp : Option FileStamp}
    {baseline : Option ContentFingerprint}
    (passed : checkContentGuard file.observe stamp baseline = .ok ())
    : (OverwriteGuard.expectContent stamp baseline).Admits file := by
  cases version : file.observe with
  | missing =>
      rw [version, checkContentGuard] at passed
      split at passed
      case isTrue unknown =>
        simp only [Bool.and_eq_true, Option.isNone_iff_eq_none] at unknown
        rw [unknown.1, unknown.2, DiskFile.observe_eq_missing version]
        exact .untouched
      · cases passed
  | unreadable reason =>
      rw [version] at passed
      cases passed
  | present observed =>
      have truthful : observed.fingerprint = .ofDocument observed.document :=
        observeDisk_truthful _ observed version
      obtain ⟨current, loaded, rfl, document, stamped⟩ := DiskFile.observe_eq_present version
      rw [version] at passed
      cases baseline with
      | some baseline =>
          simp only [checkContentGuard] at passed
          split at passed
          case isTrue same =>
            rw [← same, truthful, ← document]
            exact .content stamp current loaded
          · cases passed
      | none =>
          cases stamp with
          | none => cases passed
          | some stamp =>
              simp only [checkContentGuard] at passed
              split at passed
              case isTrue same => exact .sameStamp current (stamped.trans same)
              · cases passed

theorem checkOverwriteGuard_ok {file : DiskFile} {guard : OverwriteGuard}
    (passed : checkOverwriteGuard file guard = .ok ()) : guard.Admits file := by
  cases guard with
  | force => exact .force file
  | expectContent stamp baseline => exact checkContentGuard_ok passed
  | expectStamp expected =>
      rw [checkOverwriteGuard] at passed
      split at passed
      case isTrue unchanged =>
        cases found : file.stamp with
        | none =>
            rw [DiskFile.stamp_eq_none found]
            exact .free expected
        | some current =>
            rw [found] at unchanged
            cases expected with
            | none => cases unchanged
            | some expected =>
                have same : expected = current := of_decide_eq_true unchanged
                exact .stamped (found.trans (congrArg some same.symm))
      · cases passed

end Hane.Session
