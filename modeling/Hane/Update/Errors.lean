import Hane.Foundations.TextBytes
import Mathlib.Tactic.Common

/-! Failure classes of the updater and its small text helpers. -/

namespace Hane.Update

/-- Stable machine-readable failure classes. -/
inductive ErrorCode where
  | networkUnavailable | proxyConfiguration | proxyConnect | proxyAuthentication | timeout
  | truncated | cancelled | rateLimited | notFound | metadataMissing | notStable
  | duplicateAsset | assetMissing | assetMismatch | targetUnsupported | protocolUnsupported
  | stateIncompatible | schemaUnsupported | malformedMetadata | signatureInvalid
  | trustUnconfigured | identityMismatch | catalogExpired | clockInvalid | sequenceRegression
  | sequenceConflict | receiptUnwritable | notApplicable | unsupportedInstall
  | installModified | endpointRejected | redirectRejected | limitExceeded | sizeMismatch
  | hashMismatch | insufficientSpace | archiveRejected | stageNotEmpty | journalInvalid
  | transitionInvalid | staleJournal | appTranslocated | io
  deriving DecidableEq, Repr

def ErrorCode.asStr : ErrorCode → String
  | networkUnavailable => "network_unavailable"
  | proxyConfiguration => "proxy_configuration"
  | proxyConnect => "proxy_connect"
  | proxyAuthentication => "proxy_authentication"
  | timeout => "timeout"
  | truncated => "truncated"
  | cancelled => "cancelled"
  | rateLimited => "rate_limited"
  | notFound => "not_found"
  | metadataMissing => "metadata_missing"
  | notStable => "not_stable"
  | duplicateAsset => "duplicate_asset"
  | assetMissing => "asset_missing"
  | assetMismatch => "asset_mismatch"
  | targetUnsupported => "target_unsupported"
  | protocolUnsupported => "protocol_unsupported"
  | stateIncompatible => "state_incompatible"
  | schemaUnsupported => "schema_unsupported"
  | malformedMetadata => "malformed_metadata"
  | signatureInvalid => "signature_invalid"
  | trustUnconfigured => "trust_unconfigured"
  | identityMismatch => "identity_mismatch"
  | catalogExpired => "catalog_expired"
  | clockInvalid => "clock_invalid"
  | sequenceRegression => "sequence_regression"
  | sequenceConflict => "sequence_conflict"
  | receiptUnwritable => "receipt_unwritable"
  | notApplicable => "not_applicable"
  | unsupportedInstall => "unsupported_install"
  | installModified => "install_modified"
  | endpointRejected => "endpoint_rejected"
  | redirectRejected => "redirect_rejected"
  | limitExceeded => "limit_exceeded"
  | sizeMismatch => "size_mismatch"
  | hashMismatch => "hash_mismatch"
  | insufficientSpace => "insufficient_space"
  | archiveRejected => "archive_rejected"
  | stageNotEmpty => "stage_not_empty"
  | journalInvalid => "journal_invalid"
  | transitionInvalid => "transition_invalid"
  | staleJournal => "stale_journal"
  | appTranslocated => "app_translocated"
  | io => "io"

structure UpdateError where
  code : ErrorCode
  detail : String
  deriving DecidableEq, Repr

def UpdateError.display (err : UpdateError) : String := err.code.asStr ++ ": " ++ err.detail

/-- `std::io::ErrorKind`, by the name its debug form prints. -/
inductive IoErrorKind where
  | interrupted | timedOut | wouldBlock | unexpectedEof | connectionReset | connectionAborted
  | brokenPipe | storageFull
  | other (name : String)
deriving DecidableEq

def IoErrorKind.debug : IoErrorKind → String
  | interrupted => "Interrupted"
  | timedOut => "TimedOut"
  | wouldBlock => "WouldBlock"
  | unexpectedEof => "UnexpectedEof"
  | connectionReset => "ConnectionReset"
  | connectionAborted => "ConnectionAborted"
  | brokenPipe => "BrokenPipe"
  | storageFull => "StorageFull"
  | other name => name

structure IoError where
  kind : IoErrorKind
  display : String
  rawOsError : Option Int
deriving DecidableEq

/-- `UpdateError::from` an I/O error. -/
def ioUpdateError (err : IoError) : UpdateError :=
  let code := match err.kind with
    | .storageFull => .insufficientSpace
    | .timedOut => .timeout
    | _ => .io
  let kind := err.kind.debug
  let text := err.display
  match err.rawOsError with
  | some raw => ⟨code, s!"{text} (os_kind={kind}, os_error={raw})"⟩
  | none => ⟨code, s!"{text} (os_kind={kind}, os_error=none)"⟩

def maxReasonBytes : Nat := 512

/-- The longest prefix of at most this many UTF-8 bytes. -/
def takeBytes : Nat → List Char → List Char
  | _, [] => []
  | limit, c :: rest => if c.utf8Size ≤ limit then c :: takeBytes (limit - c.utf8Size) rest else []

def boundedReason (text : String) : String := String.ofList (takeBytes maxReasonBytes text.toList)

/-- A name or value of the operating system: text, or something that is no Unicode text. -/
inductive OsText where
  | text (content : String)
  | other (raw : List UInt8)
deriving DecidableEq, Repr

def OsText.intoString : OsText → Option String
  | .text content => some content
  | .other _ => none

def malformed (detail : String) : UpdateError := ⟨.malformedMetadata, detail⟩

def asBytes (text : String) : List UInt8 := text.toUTF8.data.toList

/-- (`hexEncode bytes`) writes two lowercase digits for each byte. -/
def hexEncode (bytes : List UInt8) : String :=
  String.ofList (bytes.flatMap fun byte =>
    [Nat.digitChar (byte.toNat / 16), Nat.digitChar (byte.toNat % 16)])

theorem digitChar_injective : ∀ left right : Fin 16,
    Nat.digitChar left = Nat.digitChar right → left = right := by decide

theorem hexDigits_injective {left right : UInt8}
    (high : Nat.digitChar (left.toNat / 16) = Nat.digitChar (right.toNat / 16))
    (low : Nat.digitChar (left.toNat % 16) = Nat.digitChar (right.toNat % 16))
    : left = right := by
  have bounds := And.intro left.toNat_lt right.toNat_lt
  have highs := digitChar_injective ⟨left.toNat / 16, by omega⟩ ⟨right.toNat / 16, by omega⟩ high
  have lows := digitChar_injective ⟨left.toNat % 16, by omega⟩ ⟨right.toNat % 16, by omega⟩ low
  simp only [Fin.mk.injEq] at highs lows
  exact UInt8.toNat_inj.mp (by omega)

/-- Different byte strings have different hexadecimal forms, by induction over the bytes. -/
theorem hexEncode_injective {left right : List UInt8} (same : hexEncode left = hexEncode right)
    : left = right := by
  have digits := String.ofList_injective same
  clear same
  induction left generalizing right with
  | nil =>
      cases right with
      | nil => rfl
      | cons byte rest => cases digits
  | cons byte rest ih =>
      cases right with
      | nil => cases digits
      | cons other others =>
          simp only [List.flatMap_cons, List.cons_append, List.nil_append, List.cons.injEq]
            at digits
          obtain ⟨high, low, tails⟩ := digits
          rw [hexDigits_injective high low, ih tails]

def isLowerHex (text : String) (len : Nat) : Bool :=
  text.utf8ByteSize == len
    && (asBytes text).all fun b => (48 ≤ b && b ≤ 57) || (97 ≤ b && b ≤ 102)

def isSha256Hex (text : String) : Bool := isLowerHex text 64

end Hane.Update
