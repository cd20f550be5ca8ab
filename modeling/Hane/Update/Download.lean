import Hane.Foundations.Programs
import Hane.Update.Catalog

/-! Fetching and staging of the archive: redirect policy, byte and time limits, cancellation,
hashing and the `.part` file. The transport, the clock and the part store are the outside; the URL
crate is a parameter.
-/

namespace Hane.Update

open Hane.Foundations

-- What may be requested

def maxRedirects : Nat := 5

def connectTimeoutMs : Nat := 10000

def downloadTotalMs : Nat := 15 * 60 * 1000

def readStallMs : Nat := 30000

def readBufferBytes : Nat := 64 * 1024

def userAgent : String := "hane-update/0.40.0"

def githubApiVersion : String := "2022-11-28"

def apiHost : String := "api.github.com"

/-- Release delivery hosts allowed as redirect targets. -/
def redirectHosts : List String :=
  ["release-assets.githubusercontent.com", "objects.githubusercontent.com"]

def catalogAssetName : String := "hane-update.json"

def signatureAssetName : String := "hane-update.json.sig"

def latestReleaseUrl : String :=
  "https://" ++ apiHost ++ "/repos/" ++ repositoryName ++ "/releases/latest"

def assetUrl (tag name : String) : String :=
  "https://github.com/" ++ repositoryName ++ "/releases/download/" ++ tag ++ "/" ++ name

inductive Endpoint where
  | latestRelease
  | asset (tag name : String)
deriving DecidableEq

namespace Endpoint

def url {Json : Type} (crates : Crates Json) : Endpoint → Except UpdateError String
  | .latestRelease => .ok latestReleaseUrl
  | .asset tag name => do
      let _ ← parseReleaseTag crates tag
      if name = catalogAssetName ∨ name = signatureAssetName
          ∨ name = Target.macosArm64.assetName ∨ name = Target.windowsX64.assetName then
        return assetUrl tag name
      else
        let quoted := debugText name
        throw ⟨.endpointRejected, s!"asset {quoted} is not a Hane update asset"⟩

def accept : Endpoint → String
  | .latestRelease => "application/vnd.github+json"
  | .asset _ _ => "application/octet-stream"

def apiVersion : Endpoint → Option String
  | .latestRelease => some githubApiVersion
  | .asset _ _ => none

end Endpoint

structure Request where
  url : String
  accept : String
  userAgent : String
  apiVersion : Option String
  connectTimeoutMs : Nat
  readTimeoutMs : Nat
  deadlineMs : Nat
deriving DecidableEq

/-- A response. Its body is read by further calls. -/
structure Response where
  status : Nat
  location : Option String
  contentLength : Option Nat
deriving DecidableEq

inductive TransportFailure where
  | timeout | disconnected | tls | other | proxyConfiguration | proxyConnect
  | proxyAuthentication
deriving DecidableEq

structure TransportError where
  kind : TransportFailure
  detail : String
deriving DecidableEq

-- The outside

/-- The fallible calls of the part store and of the writer it hands out. -/
inductive PartCall where
  | beginPart
  | writeAll (chunk : List UInt8)
  | flush
  | commitPart
deriving DecidableEq

inductive DownloadCall where
  | monotonicMs
  | isCancelled
  | get (request : Request)
  | readWithin (size timeoutMs : Nat)
  | store (call : PartCall)
  | discardPart
  /-- The passes of the read loop beyond those that are counted; never answered. -/
  | unfinished
deriving DecidableEq

def DownloadCall.Answer : DownloadCall → Type
  | monotonicMs => Nat
  | isCancelled => Bool
  | get _ => Except TransportError Response
  | readWithin _ _ => Except IoError (List UInt8)
  | store _ => Except IoError Unit
  | discardPart => Unit
  | unfinished => Empty

/-- A fallible program of the fetcher. -/
abbrev Downloading (α : Type) : Type := ExceptT UpdateError (Program DownloadCall.Answer) α

def asked (call : DownloadCall) : Downloading call.Answer :=
  .mk (Except.ok <$> Program.request call)

-- Errors

def cancelled : UpdateError := ⟨.cancelled, "operation was cancelled"⟩

def transportError (err : TransportError) : UpdateError :=
  let code := match err.kind with
    | .timeout => .timeout
    | .proxyConfiguration => .proxyConfiguration
    | .proxyConnect => .proxyConnect
    | .proxyAuthentication => .proxyAuthentication
    | .disconnected | .tls | .other => .networkUnavailable
  ⟨code, err.detail⟩

def statusError (status : Nat) : UpdateError :=
  match status with
  | 404 => ⟨.notFound, "HTTP 404"⟩
  | 403 => ⟨.rateLimited, "HTTP 403"⟩
  | 429 => ⟨.rateLimited, "HTTP 429"⟩
  | status => ⟨.networkUnavailable, s!"HTTP {status}"⟩

def ioDiagnostics (err : IoError) : String :=
  let kind := err.kind.debug
  match err.rawOsError with
  | some code => s!"io_kind={kind} os_error={code}"
  | none => s!"io_kind={kind}"

def readError (err : IoError) : UpdateError :=
  let diagnostics := ioDiagnostics err
  let text := err.display
  match err.kind with
  | .timedOut | .wouldBlock => ⟨.timeout, s!"read stalled: {text} [{diagnostics}]"⟩
  | .unexpectedEof | .connectionReset | .connectionAborted | .brokenPipe =>
      ⟨.truncated, s!"connection cut: {text} [{diagnostics}]"⟩
  | _ => ⟨.networkUnavailable, s!"{text} [{diagnostics}]"⟩

-- The fetcher

/-- What the URL crate computes. -/
structure UrlCrate (Url : Type) where
  parse : String → Except String Url
  join : Url → String → Except String Url
  toString : Url → String
  scheme : Url → String
  username : Url → String
  password : Url → Option String
  port : Url → Option Nat
  hostStr : Url → Option String

section Fetcher

variable {Json Url : Type} (crates : Crates Json) (urls : UrlCrate Url)

def checkRedirectTarget (url : Url) : Except UpdateError Unit :=
  let text := urls.toString url
  let reject (why : String) : Except UpdateError Unit :=
    .error ⟨.redirectRejected, s!"redirect to {text} rejected: {why}"⟩
  if urls.scheme url ≠ "https" then
    reject "not https"
  else if urls.username url ≠ "" ∨ (urls.password url).isSome then
    reject "userinfo present"
  else if (urls.port url).isSome then
    reject "explicit port"
  else if (urls.hostStr url).any redirectHosts.contains then
    .ok ()
  else
    reject "host is not an allowed release delivery host"

structure Deadline where
  startedMs : Nat
  budgetMs : Nat
deriving DecidableEq

/-- Milliseconds left, or a timeout once the budget is used up. -/
def Deadline.remaining (deadline : Deadline) : Downloading Nat := do
  let now : Nat ← asked .monotonicMs
  if deadline.budgetMs - (now - deadline.startedMs) > 0 then
    return deadline.budgetMs - (now - deadline.startedMs)
  else
    throw ⟨.timeout, "total transfer time exceeded"⟩

def startDeadline (budgetMs : Nat) : Downloading Deadline := do
  let now : Nat ← asked .monotonicMs
  return ⟨now, budgetMs⟩

def checkCancelled : Downloading Unit := do
  let stop : Bool ← asked .isCancelled
  if stop then throw cancelled

def isRedirect (status : Nat) : Bool := [301, 302, 303, 307, 308].contains status

def requestFor (endpoint : Endpoint) (hops : Nat) (current : Url) (remaining : Nat) : Request where
  url := urls.toString current
  accept := endpoint.accept
  userAgent := userAgent
  apiVersion := if hops = 0 then endpoint.apiVersion else none
  connectTimeoutMs := min connectTimeoutMs remaining
  readTimeoutMs := min readStallMs remaining
  deadlineMs := remaining

def transportGet (request : Request) : Downloading Response :=
  ExceptT.adapt transportError (.mk (Program.request (DownloadCall.get request)))

/-- The target of a redirect, once it is checked. -/
def nextHop (current : Url) (response : Response) : Except UpdateError Url :=
  match response.location with
  | none => .error ⟨.redirectRejected, "redirect without a Location header"⟩
  | some location =>
      match urls.join current location with
      | .error err => .error ⟨.redirectRejected, s!"bad redirect target: {err}"⟩
      | .ok next => (checkRedirectTarget urls next).map fun _ => next

/-- One request of the loop of `open`. A response that comes after the deadline is not used. -/
def requestHop (endpoint : Endpoint) (deadline : Deadline) (hops : Nat) (current : Url)
    : Downloading Response := do
  checkCancelled
  let remaining ← deadline.remaining
  let response ← transportGet (requestFor urls endpoint hops current remaining)
  let _ ← deadline.remaining
  return response

/-- The loop of `open` behind `hops` hops, when `more` are still allowed. -/
def openLoop (endpoint : Endpoint) (deadline : Deadline)
    : (more hops : Nat) → Url → Downloading Response
  | more, hops, current => do
      let response ← requestHop urls endpoint deadline hops current
      if response.status = 200 then
        return response
      else if isRedirect response.status then
        match more with
        | 0 => throw ⟨.redirectRejected, "too many redirects"⟩
        | more + 1 =>
            let next ← Program.settled (nextHop urls current response)
            openLoop endpoint deadline more (hops + 1) next
      else
        throw (statusError response.status)

/-- `open`: follows at most `maxRedirects` hops from the built URL. -/
def openEndpoint (endpoint : Endpoint) (deadline : Deadline) : Downloading Response := do
  let built ← Program.settled (endpoint.url crates)
  let current ← Program.settled ((urls.parse built).mapError fun err =>
    ⟨.endpointRejected, s!"bad endpoint: {err}"⟩)
  openLoop urls endpoint deadline maxRedirects 0 current

section Pump

variable {σ : Type} (sink : σ → List UInt8 → Downloading σ)

/-- The loop of `pump`, with the bytes so far and what the sink keeps. The passes are counted,
since interrupted reads are retried without end.
-/
def pumpLoop (maxBytes : Nat) (deadline : Deadline) : Nat → Nat → σ → Downloading (Nat × σ)
  | 0, _, _ => .mk (.call .unfinished fun answer => nomatch answer)
  | passes + 1, total, kept => do
      checkCancelled
      let remaining ← deadline.remaining
      let result : Except IoError (List UInt8) ←
        asked (.readWithin readBufferBytes (min readStallMs remaining))
      match result with
      | .error err =>
          if err.kind = .interrupted then pumpLoop maxBytes deadline passes total kept
          else throw (readError err)
      | .ok chunk =>
          let _ ← deadline.remaining
          if chunk = [] then
            return (total, kept)
          else if total + chunk.length > maxBytes then
            throw ⟨.limitExceeded, s!"body exceeds {maxBytes} bytes"⟩
          else
            let kept ← sink kept chunk
            pumpLoop maxBytes deadline passes (total + chunk.length) kept

/-- Streams the body into the sink. -/
def pump (passes : Nat) (response : Response) (maxBytes : Nat) (deadline : Deadline) (kept : σ)
    : Downloading (Nat × σ) :=
  match response.contentLength with
  | none => pumpLoop sink maxBytes deadline passes 0 kept
  | some declared =>
      if declared > maxBytes then
        throw ⟨.limitExceeded, s!"declared length {declared} exceeds {maxBytes}"⟩
      else do
        let (total, kept) ← pumpLoop sink maxBytes deadline passes 0 kept
        if total ≠ declared then
          throw ⟨.truncated, s!"received {total} of {declared} bytes"⟩
        else
          return (total, kept)

end Pump

structure ArchiveDownload where
  tag : String
  name : String
  size : Nat
  sha256 : String
deriving DecidableEq

structure DownloadedArchive where
  size : Nat
  sha256 : String
deriving DecidableEq

def storeCall (call : PartCall) : Downloading Unit :=
  ExceptT.adapt ioUpdateError (.mk (Program.request (DownloadCall.store call)))

def archiveSink (hashed chunk : List UInt8) : Downloading (List UInt8) := do
  storeCall (.writeAll chunk)
  return hashed ++ chunk

/-- The checks of a complete body, and the commit of the part. -/
def finishArchive (request : ArchiveDownload) (total : Nat) (hashed : List UInt8)
    : Downloading DownloadedArchive := do
  if total ≠ request.size then
    let size := request.size
    throw ⟨.sizeMismatch, s!"archive is {total} bytes, expected {size}"⟩
  else if sha256Hex crates hashed ≠ request.sha256 then
    throw ⟨.hashMismatch, "archive SHA-256 differs from the signed catalog"⟩
  else
    storeCall .flush
    checkCancelled
    storeCall .commitPart
    return ⟨total, sha256Hex crates hashed⟩

def downloadInner (passes : Nat) (request : ArchiveDownload) : Downloading DownloadedArchive := do
  let deadline ← startDeadline downloadTotalMs
  storeCall .beginPart
  let response ← openEndpoint crates urls (.asset request.tag request.name) deadline
  let (total, hashed) ← pump archiveSink passes response request.size deadline []
  finishArchive crates request total hashed

/-- Discards the part when the download failed. -/
def discarding {α : Type} (program : Downloading α) : Downloading α :=
  .mk do
    let outcome ← program.run
    match outcome with
    | .ok value => return .ok value
    | .error err =>
        let _ ← Program.request DownloadCall.discardPart
        return .error err

def downloadArchive (passes : Nat) (request : ArchiveDownload)
    : Downloading DownloadedArchive :=
  if request.size = 0 ∨ request.size > maxArchiveBytes then
    throw ⟨.limitExceeded, "archive size is out of range"⟩
  else
    discarding (downloadInner crates urls passes request)

end Fetcher

end Hane.Update
