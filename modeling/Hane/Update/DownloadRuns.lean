import Hane.Foundations.Stateful
import Hane.Update.Download

/-! What every run of a download keeps, whatever the network, the clock, the caller who cancels and
the disk do: only allowed requests within the deadline, and a commit only of the verified body.
-/

namespace Hane.Update

open Hane.Foundations

-- The outside of a download

inductive DownloadEvent where
  | reading (ms : Nat)
  | polled (cancelled : Bool)
  | requested (request : Request)
  | bodyRead (timeoutMs : Nat)
  | received (chunk : List UInt8)
  | commitFailed
deriving DecidableEq

/-- What has happened, the latest event first, and the two files of the part store. -/
structure DownloadWorld where
  events : List DownloadEvent
  part : Option (List UInt8)
  committed : Option (List UInt8)
deriving DecidableEq

def DownloadWorld.log (world : DownloadWorld) (event : DownloadEvent) : DownloadWorld :=
  { world with events := event :: world.events }

/-- What the part store does: a failed write leaves a part of the chunk. A commit renames the part
and then writes the folder to disk, so one that fails may have landed.
-/
def PartAnswers (world : DownloadWorld)
    : PartCall → Except IoError Unit → DownloadWorld → Prop
  | .beginPart, .ok (), final => final = { world with part := some [] }
  | .beginPart, .error _, final => final = world ∨ final = { world with part := none }
  | .writeAll chunk, .ok (), final => final = { world with part := world.part.map (· ++ chunk) }
  | .writeAll chunk, .error _, final =>
      ∃ written, written <+: chunk ∧ final = { world with part := world.part.map (· ++ written) }
  | .flush, _, final => final = world
  | .commitPart, .ok (), final => final = { world with part := none, committed := world.part }
  | .commitPart, .error _, final =>
      final = world.log .commitFailed
      ∨ final = { world with part := none, committed := world.part }.log .commitFailed

/-- Everything outside answers as it likes: any time, any response, any chunk that fits. -/
def DownloadAnswers (world : DownloadWorld)
    : (call : DownloadCall) → call.Answer → DownloadWorld → Prop
  | .monotonicMs, now, final => final = world.log (.reading now)
  | .isCancelled, stop, final => final = world.log (.polled stop)
  | .get request, _, final => final = world.log (.requested request)
  | .readWithin size timeoutMs, .ok chunk, final =>
      chunk.length ≤ size ∧ final = (world.log (.bodyRead timeoutMs)).log (.received chunk)
  | .readWithin _ timeoutMs, .error _, final => final = world.log (.bodyRead timeoutMs)
  | .store call, answer, final => PartAnswers world call answer final
  | .discardPart, _, final => final = { world with part := none }
  | .unfinished, _, _ => False

def network : Outside DownloadWorld DownloadCall.Answer where
  answers := DownloadAnswers
  tears _ _ _ := False

-- What is kept

/-- The clock readings, the latest first. -/
def readings : List DownloadEvent → List Nat
  | [] => []
  | .reading ms :: rest => ms :: readings rest
  | _ :: rest => readings rest

/-- The concatenation of the body chunks. -/
def received : List DownloadEvent → List UInt8
  | [] => []
  | .received chunk :: rest => received rest ++ chunk
  | _ :: rest => received rest

/-- How many requests were sent. -/
def requestCount : List DownloadEvent → Nat
  | [] => 0
  | .requested _ :: rest => requestCount rest + 1
  | _ :: rest => requestCount rest

/-- What is left of the deadline at the latest clock reading; the first reading started it. -/
def leftAt (events : List DownloadEvent) : Nat :=
  downloadTotalMs - ((readings events).head?.getD 0 - (readings events).getLast?.getD 0)

section Kept

variable {Json Url : Type} (crates : Crates Json) (urls : UrlCrate Url)
  (request : ArchiveDownload)

def IsEndpoint (url : Url) : Prop :=
  ∃ built, (Endpoint.asset request.tag request.name).url crates = .ok built
    ∧ urls.parse built = .ok url

/-- An https URL without userinfo and port on an allowed delivery host. -/
structure IsDelivery (url : Url) : Prop where
  https : urls.scheme url = "https"
  username : urls.username url = ""
  password : urls.password url = none
  port : urls.port url = none
  host : ∃ host ∈ redirectHosts, urls.hostStr url = some host

/-- A request to an allowed URL, with no timeout past what is left of the deadline. -/
structure RequestAllowed (left : Nat) (sent : Request) : Prop where
  url : ∃ url, sent.url = urls.toString url ∧ (IsEndpoint crates urls request url
    ∨ IsDelivery urls url)
  connect : sent.connectTimeoutMs ≤ left
  read : sent.readTimeoutMs ≤ left
  deadline : sent.deadlineMs ≤ left

/-- Every request and read so far was allowed when it was made. -/
def Allowed : List DownloadEvent → Prop
  | [] => True
  | .requested sent :: rest =>
      RequestAllowed crates urls request (leftAt rest) sent ∧ Allowed rest
  | .bodyRead timeoutMs :: rest => timeoutMs ≤ leftAt rest ∧ Allowed rest
  | _ :: rest => Allowed rest

/-- The committed part is the whole body, of the requested size and hash, and everything went on
within the deadline and without a cancellation.
-/
structure Complete (world : DownloadWorld) : Prop where
  committed : world.committed = some (received world.events)
  size : (received world.events).length = request.size
  sha256 : sha256Hex crates (received world.events) = request.sha256
  timely : ∀ started, (readings world.events).getLast? = some started →
    ∀ ms ∈ readings world.events, ms < started + downloadTotalMs
  going : .polled true ∉ world.events

/-- What holds at every point of a download that started with `before` committed. -/
structure DownloadKept (before : Option (List UInt8)) (world : DownloadWorld) : Prop where
  allowed : Allowed crates urls request world.events
  hops : requestCount world.events ≤ maxRedirects + 1
  commits : world.committed = before ∨ Complete crates request world

/-- A download that goes well: its deadline started at `started`, the part holds `part`, the body
is `body` so far, `sent` requests were sent, and nothing is committed yet.
-/
structure Going (before : Option (List UInt8)) (started : Nat) (part body : List UInt8)
    (sent : Nat) (world : DownloadWorld) : Prop where
  clock : (readings world.events).getLast? = some started
  timely : ∀ ms ∈ readings world.events, ms < started + downloadTotalMs
  going : .polled true ∉ world.events
  allowed : Allowed crates urls request world.events
  written : world.part = some part
  collected : received world.events = body
  count : requestCount world.events = sent
  few : sent ≤ maxRedirects + 1
  untouched : world.committed = before

variable {crates urls request} {before : Option (List UInt8)} {started sent : Nat}
  {part body : List UInt8} {world : DownloadWorld}

theorem Going.kept (going : Going crates urls request before started part body sent world)
    : DownloadKept crates urls request before world where
  allowed := going.allowed
  hops := going.count ▸ going.few
  commits := .inl going.untouched

/-- A failure leaves what was committed before. -/
abbrev Untouched (before : Option (List UInt8)) (_ : UpdateError) (world : DownloadWorld) : Prop :=
  world.committed = before

/-- A failure leaves what was committed before, unless the commit itself failed and had landed. -/
def UncommittedOrLanded (crates : Crates Json) (request : ArchiveDownload) (before : Option (List UInt8))
    (_ : UpdateError) (world : DownloadWorld) : Prop :=
  world.committed = before ∨ (.commitFailed ∈ world.events ∧ Complete crates request world)

/-- A call that does not fail, by cases on its answer. -/
theorem asked_performs {kept : DownloadWorld → Prop} {call : DownloadCall}
    {fine : call.Answer → DownloadWorld → Prop} {failed : UpdateError → DownloadWorld → Prop}
    (holds : kept world)
    (answered : ∀ answer final, DownloadAnswers world call answer final
      → kept final ∧ fine answer final)
    : Program.Performs network kept fine failed (asked call) world :=
  have requested : Program.Ensures network kept fine (Program.request call) world :=
    ⟨holds, fun _ torn => torn.elim, fun answer final answers => answered answer final answers⟩
  requested.map fun _ _ _ reached => reached

theorem not_mem_log {event : DownloadEvent} (other : event ≠ .polled true)
    (going : .polled true ∉ world.events)
    : .polled true ∉ (world.log event).events :=
  List.not_mem_cons_of_ne_of_not_mem other.symm going

section Going

variable (going : Going crates urls request before started part body sent world)
include going

theorem Going.polled (stop : Bool)
    : DownloadKept crates urls request before (world.log (.polled stop))
      ∧ (stop = false
        → Going crates urls request before started part body sent (world.log (.polled stop))) := by
  refine ⟨{ allowed := going.allowed, hops := going.kept.hops, commits := .inl going.untouched },
    fun goesOn => { going with going := ?_ }⟩
  rw [goesOn]
  exact not_mem_log nofun going.going

theorem Going.read (ms : Nat)
    : DownloadKept crates urls request before (world.log (.reading ms))
      ∧ leftAt (world.log (.reading ms)).events = downloadTotalMs - (ms - started)
      ∧ (ms < started + downloadTotalMs
        → Going crates urls request before started part body sent (world.log (.reading ms))) := by
  have some_ : readings world.events ≠ [] := by
    intro none_
    have clock := going.clock
    rw [none_] at clock
    cases clock
  have clock : (readings (world.log (.reading ms)).events).getLast? = some started := by
    change (ms :: readings world.events).getLast? = some started
    rw [List.getLast?_cons_of_ne_nil some_, going.clock]
  refine ⟨{ allowed := going.allowed, hops := going.kept.hops, commits := .inl going.untouched },
    ?_, fun early => { going with clock, timely := ?_, going := ?_ }⟩
  · rw [leftAt, clock]
    rfl
  · exact List.forall_mem_cons.mpr ⟨early, going.timely⟩
  · exact not_mem_log nofun going.going

theorem Going.requests {next : Request} (more : sent + 1 ≤ maxRedirects + 1)
    (allowed : RequestAllowed crates urls request (leftAt world.events) next)
    : Going crates urls request before started part body (sent + 1)
        (world.log (.requested next)) where
  clock := going.clock
  timely := going.timely
  going := not_mem_log nofun going.going
  allowed := ⟨allowed, going.allowed⟩
  written := going.written
  collected := going.collected
  count := congrArg (· + 1) going.count
  few := more
  untouched := going.untouched

theorem Going.reads {timeoutMs : Nat} (short : timeoutMs ≤ leftAt world.events)
    : Going crates urls request before started part body sent (world.log (.bodyRead timeoutMs)) :=
  { going with
    going := not_mem_log nofun going.going
    allowed := ⟨short, going.allowed⟩ }

theorem Going.receives (chunk : List UInt8)
    : Going crates urls request before started part (body ++ chunk) sent
        (world.log (.received chunk)) :=
  { going with
    going := not_mem_log nofun going.going
    collected := congrArg (· ++ chunk) going.collected }

theorem checkCancelled_performs
    : Program.Performs network (DownloadKept crates urls request before)
        (fun _ => Going crates urls request before started part body sent) (Untouched before)
        checkCancelled world := by
  refine Program.Performs.bind
    (fun stop final => final = world.log (.polled stop)) ?_ fun stop final kept reached => ?_
  · exact asked_performs going.kept fun stop final answers =>
      ⟨answers ▸ (going.polled stop).1, answers⟩
  · subst reached
    cases stop with
    | true => exact ⟨kept, going.untouched⟩
    | false => exact ⟨kept, (going.polled false).2 rfl⟩

theorem remaining_performs
    : Program.Performs network (DownloadKept crates urls request before)
        (fun left final => left = leftAt final.events
          ∧ Going crates urls request before started part body sent final)
        (Untouched before) (Deadline.remaining ⟨started, downloadTotalMs⟩) world := by
  refine Program.Performs.bind
    (fun now final => final = world.log (.reading now)) ?_ fun now final kept reached => ?_
  · exact asked_performs going.kept fun now final answers =>
      ⟨answers ▸ (going.read now).1, answers⟩
  · subst reached
    obtain ⟨_, left, early⟩ := going.read now
    refine Program.Performs.ite (fun open_ => ?_) fun _ => ⟨kept, going.untouched⟩
    exact ⟨kept, left.symm, early (by simp only at open_; omega)⟩

theorem transportGet_performs {next : Request} (more : sent + 1 ≤ maxRedirects + 1)
    (allowed : RequestAllowed crates urls request (leftAt world.events) next)
    : Program.Performs network (DownloadKept crates urls request before)
        (fun _ => Going crates urls request before started part body (sent + 1))
        (Untouched before) (transportGet next) world := by
  refine Program.Performs.adapt ⟨going.kept, fun _ torn => torn.elim, fun answer final answers => ?_⟩
  have sent : final = world.log (.requested next) := answers
  subst sent
  have onward := going.requests more allowed
  cases answer with
  | error err => exact ⟨onward.kept, onward.untouched⟩
  | ok response => exact ⟨onward.kept, onward⟩

end Going

theorem checkRedirectTarget_ok {url : Url} (checked : checkRedirectTarget urls url = .ok ())
    : IsDelivery urls url := by
  unfold checkRedirectTarget at checked
  simp only at checked
  split_ifs at checked with scheme userinfo port host
  obtain ⟨username, password⟩ := not_or.mp userinfo
  refine {
    https := not_ne_iff.mp scheme
    username := not_ne_iff.mp username
    password := Option.not_isSome_iff_eq_none.mp password
    port := Option.not_isSome_iff_eq_none.mp port
    host := ?_ }
  obtain ⟨host, named, listed⟩ := (Option.any_eq_true _ _).mp host
  exact ⟨host, List.contains_iff_mem.mp listed, named⟩

theorem nextHop_ok {current next : Url} {response : Response}
    (hop : nextHop urls current response = .ok next)
    : IsDelivery urls next := by
  unfold nextHop at hop
  split at hop
  · cases hop
  · split at hop
    · cases hop
    · next joined _ =>
        cases checked : checkRedirectTarget urls joined with
        | error err =>
            rw [checked] at hop
            cases hop
        | ok done =>
            rw [checked] at hop
            cases hop
            exact checkRedirectTarget_ok checked

theorem requestHop_performs {current : Url} {hops : Nat}
    (going : Going crates urls request before started part body hops world)
    (few : hops ≤ maxRedirects)
    (allowed : IsEndpoint crates urls request current ∨ IsDelivery urls current)
    : Program.Performs network (DownloadKept crates urls request before)
        (fun _ => Going crates urls request before started part body (hops + 1))
        (Untouched before)
        (requestHop urls (.asset request.tag request.name) ⟨started, downloadTotalMs⟩ hops current)
        world := by
  refine Program.Performs.bind _ (checkCancelled_performs going) fun _ _ _ going => ?_
  refine Program.Performs.bind _ (remaining_performs going) fun left _ _ reached => ?_
  obtain ⟨rfl, going⟩ := reached
  refine Program.Performs.bind _ (transportGet_performs going (by omega) {
    url := ⟨current, rfl, allowed⟩
    connect := Nat.min_le_right _ _
    read := Nat.min_le_right _ _
    deadline := Nat.le_refl _ }) fun response _ _ going => ?_
  exact Program.Performs.bind _ (remaining_performs going) fun _ _ kept reached =>
    ⟨kept, reached.2⟩

/-- The loop sends one request for each hop, to allowed URLs, by induction on the hops left. -/
theorem openLoop_performs {current : Url} {more hops : Nat}
    (going : Going crates urls request before started part body hops world)
    (few : hops + more ≤ maxRedirects)
    (allowed : IsEndpoint crates urls request current ∨ IsDelivery urls current)
    : Program.Performs network (DownloadKept crates urls request before)
        (fun _ final =>
          ∃ sent, Going crates urls request before started part body sent final)
        (Untouched before)
        (openLoop urls (.asset request.tag request.name) ⟨started, downloadTotalMs⟩ more hops
          current)
        world := by
  induction more generalizing hops current world with
  | zero =>
      rw [openLoop]
      refine Program.Performs.bind _ (requestHop_performs going few allowed)
        fun response _ kept going => ?_
      refine Program.Performs.ite (fun _ => ⟨kept, _, going⟩) fun _ => ?_
      exact Program.Performs.ite (fun _ => ⟨kept, going.untouched⟩)
        fun _ => ⟨kept, going.untouched⟩
  | succ more ih =>
      rw [openLoop]
      refine Program.Performs.bind _ (requestHop_performs going (by omega) allowed)
        fun response final kept going => ?_
      refine Program.Performs.ite (fun _ => ⟨kept, _, going⟩) fun _ => ?_
      refine Program.Performs.ite (fun _ => ?_) fun _ => ⟨kept, going.untouched⟩
      refine Program.Performs.bind (fun next world => IsDelivery urls next ∧ world = final)
        (Program.Performs.settled kept (fun next hop => ⟨nextHop_ok hop, rfl⟩)
          fun _ _ => going.untouched) fun next _ _ reached => ?_
      obtain ⟨delivery, rfl⟩ := reached
      exact ih going (by omega) (.inr delivery)

theorem openEndpoint_performs
    (going : Going crates urls request before started part body 0 world)
    : Program.Performs network (DownloadKept crates urls request before)
        (fun _ final =>
          ∃ sent, Going crates urls request before started part body sent final)
        (Untouched before)
        (openEndpoint crates urls (.asset request.tag request.name) ⟨started, downloadTotalMs⟩)
        world := by
  refine Program.Performs.bind
    (fun built final =>
      (Endpoint.asset request.tag request.name).url crates = .ok built ∧ final = world)
    (Program.Performs.settled going.kept (fun _ built => ⟨built, rfl⟩) fun _ _ => going.untouched)
    fun built _ kept reached => ?_
  obtain ⟨built_, rfl⟩ := reached
  refine Program.Performs.bind (fun current final => urls.parse built = .ok current ∧ final = _)
    (Program.Performs.settled kept (fun current parsed => ⟨?_, rfl⟩) fun _ _ => going.untouched)
    fun current _ _ reached => ?_
  · exact (except_mapError_ok_iff _ _ _).mp parsed
  · obtain ⟨parsed, rfl⟩ := reached
    exact openLoop_performs going (Nat.le_refl _) (.inl ⟨built, built_, parsed⟩)

theorem partAnswers_same {call : PartCall} {answer : Except IoError Unit} {final : DownloadWorld}
    (other : call ≠ .commitPart) (answers : PartAnswers world call answer final)
    : final.events = world.events ∧ final.committed = world.committed := by
  cases call with
  | beginPart =>
      cases answer with
      | ok _ =>
          subst answers
          exact ⟨rfl, rfl⟩
      | error _ => rcases answers with rfl | rfl <;> exact ⟨rfl, rfl⟩
  | writeAll chunk =>
      cases answer with
      | ok _ =>
          subst answers
          exact ⟨rfl, rfl⟩
      | error _ =>
          obtain ⟨written, _, rfl⟩ := answers
          exact ⟨rfl, rfl⟩
  | flush =>
      cases answers
      exact ⟨rfl, rfl⟩
  | commitPart => exact absurd rfl other

theorem DownloadKept.of_events {final : DownloadWorld}
    (kept : DownloadKept crates urls request before world) (events : final.events = world.events)
    (committed : final.committed = before)
    : DownloadKept crates urls request before final where
  allowed := events ▸ kept.allowed
  hops := events ▸ kept.hops
  commits := .inl committed

theorem storeCall_performs {call : PartCall} (other : call ≠ .commitPart)
    (kept : DownloadKept crates urls request before world) (untouched : world.committed = before)
    : Program.Performs network (DownloadKept crates urls request before)
        (fun _ final => PartAnswers world call (.ok ()) final) (Untouched before)
        (storeCall call) world := by
  refine Program.Performs.adapt ⟨kept, fun _ torn => torn.elim, fun answer final answers => ?_⟩
  have answers : PartAnswers world call answer final := answers
  obtain ⟨events, committed⟩ := partAnswers_same other answers
  have same : final.committed = before := committed.trans untouched
  refine ⟨kept.of_events events same, ?_⟩
  cases answer with
  | error err => exact same
  | ok _ => exact answers

theorem archiveSink_performs {chunk : List UInt8}
    (going : Going crates urls request before started part (part ++ chunk) sent world)
    : Program.Performs network (DownloadKept crates urls request before)
        (fun kept final =>
          kept = part ++ chunk
          ∧ Going crates urls request before started (part ++ chunk) (part ++ chunk) sent final)
        (Untouched before) (archiveSink part chunk) world := by
  refine Program.Performs.bind _ (storeCall_performs nofun going.kept going.untouched)
    fun _ final kept answers => ?_
  have written : final = { world with part := world.part.map (· ++ chunk) } := answers
  subst written
  exact ⟨kept, rfl, { going with written := by simp [going.written] }⟩

/-- The loop collects the body in the part, by induction on its passes. -/
theorem pumpLoop_performs {maxBytes passes : Nat}
    (going : Going crates urls request before started body body sent world)
    : Program.Performs network (DownloadKept crates urls request before)
        (fun result final =>
          result.1 = result.2.length
          ∧ Going crates urls request before started result.2 result.2 sent final)
        (Untouched before)
        (pumpLoop archiveSink maxBytes ⟨started, downloadTotalMs⟩ passes body.length body)
        world := by
  induction passes generalizing body world with
  | zero => exact ⟨going.kept, fun _ torn => torn.elim, by rintro ⟨⟩⟩
  | succ passes ih =>
      rw [pumpLoop]
      refine Program.Performs.bind _ (checkCancelled_performs going) fun _ _ _ going => ?_
      refine Program.Performs.bind _ (remaining_performs going) fun left world _ reached => ?_
      obtain ⟨rfl, going⟩ := reached
      have short : min readStallMs (leftAt world.events) ≤ leftAt world.events :=
        Nat.min_le_right _ _
      refine Program.Performs.bind
        (fun result final =>
          Going crates urls request before started body (body ++ result.toOption.getD []) sent final)
        (asked_performs going.kept fun answer final answers => ?_)
        fun result final kept reached => ?_
      · cases answer with
        | error err =>
            cases answers
            refine ⟨(going.reads short).kept, ?_⟩
            rw [show body ++ (Except.error err).toOption.getD [] = body from List.append_nil body]
            exact going.reads short
        | ok chunk =>
            obtain ⟨_, rfl⟩ := answers
            have received := (going.reads short).receives chunk
            exact ⟨received.kept, received⟩
      · cases result with
        | error err =>
            rw [show body ++ (Except.error err).toOption.getD [] = body from List.append_nil body]
              at reached
            exact Program.Performs.ite (fun _ => ih reached) fun _ => ⟨kept, reached.untouched⟩
        | ok chunk =>
            change Going crates urls request before started body (body ++ chunk) sent _ at reached
            refine Program.Performs.bind _ (remaining_performs reached) fun _ _ kept going => ?_
            obtain ⟨_, going⟩ := going
            refine Program.Performs.ite (fun empty => ⟨kept, rfl, ?_⟩) fun _ => ?_
            · rw [empty, List.append_nil] at going
              exact going
            · refine Program.Performs.ite (fun _ => ⟨kept, going.untouched⟩) fun _ => ?_
              refine Program.Performs.bind _ (archiveSink_performs going) fun _ _ _ reached => ?_
              obtain ⟨rfl, going⟩ := reached
              rw [← List.length_append]
              exact ih going

theorem pump_performs {maxBytes passes : Nat} {response : Response}
    (going : Going crates urls request before started [] [] sent world)
    : Program.Performs network (DownloadKept crates urls request before)
        (fun result final =>
          result.1 = result.2.length
          ∧ Going crates urls request before started result.2 result.2 sent final)
        (Untouched before)
        (pump archiveSink passes response maxBytes ⟨started, downloadTotalMs⟩ [])
        world := by
  unfold pump
  split
  · exact pumpLoop_performs going
  · refine Program.Performs.ite (fun _ => ⟨going.kept, going.untouched⟩) fun _ => ?_
    refine Program.Performs.bind _ (pumpLoop_performs going) fun result final kept reached => ?_
    exact Program.Performs.ite (fun _ => ⟨kept, reached.2.untouched⟩) fun _ => ⟨kept, reached⟩

/-- A commit of the verified body, whether it fails or not: it lands whole or leaves what was
committed before.
-/
theorem commitPart_performs
    (going : Going crates urls request before started body body sent world)
    (size : body.length = request.size) (sha256 : sha256Hex crates body = request.sha256)
    : Program.Performs network (DownloadKept crates urls request before)
        (fun _ => Complete crates request) (UncommittedOrLanded crates request before)
        (storeCall .commitPart) world := by
  have complete : Complete crates request { world with part := none, committed := world.part } :=
    { committed := by rw [going.collected]; exact going.written
      size := by rw [going.collected]; exact size
      sha256 := by rw [going.collected]; exact sha256
      timely := by
        intro started clock ms read
        rw [going.clock] at clock
        cases clock
        exact going.timely ms read
      going := going.going }
  refine Program.Performs.adapt
    ⟨going.kept, fun _ torn => torn.elim, fun answer final answers => ?_⟩
  have answers : PartAnswers world .commitPart answer final := answers
  cases answer with
  | error err =>
      rcases answers with rfl | rfl
      · exact ⟨⟨going.allowed, going.kept.hops, .inl going.untouched⟩, .inl going.untouched⟩
      · have landed : Complete crates request
            (({ world with part := none, committed := world.part }).log .commitFailed) :=
          { complete with going := not_mem_log nofun complete.going }
        exact ⟨⟨going.allowed, going.kept.hops, .inr landed⟩,
          .inr ⟨List.mem_cons_self, landed⟩⟩
  | ok _ =>
      subst answers
      exact ⟨⟨going.allowed, going.kept.hops, .inr complete⟩, complete⟩

/-- What leaves the committed file alone when it fails may stand before a commit. -/
theorem uncommittedOrLanded {α : Type} {fine : α → DownloadWorld → Prop}
    {program : Downloading α}
    (performs : Program.Performs network (DownloadKept crates urls request before) fine
      (Untouched before) program world)
    : Program.Performs network (DownloadKept crates urls request before) fine
        (UncommittedOrLanded crates request before) program world :=
  performs.mono (fun _ _ _ reached => reached) fun _ _ _ untouched => .inl untouched

theorem finishArchive_performs
    (going : Going crates urls request before started body body sent world)
    : Program.Performs network (DownloadKept crates urls request before)
        (fun archive final =>
          Complete crates request final ∧ archive = ⟨request.size, request.sha256⟩)
        (UncommittedOrLanded crates request before) (finishArchive crates request body.length body)
        world := by
  unfold finishArchive
  refine Program.Performs.ite (fun _ => ⟨going.kept, .inl going.untouched⟩) fun size => ?_
  refine Program.Performs.ite (fun _ => ⟨going.kept, .inl going.untouched⟩) fun sha256 => ?_
  have size : body.length = request.size := not_ne_iff.mp size
  have sha256 : sha256Hex crates body = request.sha256 := not_ne_iff.mp sha256
  refine Program.Performs.bind _
    (uncommittedOrLanded (storeCall_performs nofun going.kept going.untouched))
    fun _ final _ answers => ?_
  have same : final = world := answers
  subst same
  refine Program.Performs.bind _ (uncommittedOrLanded (checkCancelled_performs going))
    fun _ _ _ going => ?_
  refine Program.Performs.bind _ (commitPart_performs going size sha256)
    fun _ _ kept complete => ?_
  exact ⟨kept, complete, by rw [size, sha256]⟩

/-- A download that has started, from its first clock reading on. -/
theorem downloadInner_performs {passes : Nat} (fresh : world.events = [])
    : Program.Performs network (DownloadKept crates urls request world.committed)
        (fun archive final =>
          Complete crates request final ∧ archive = ⟨request.size, request.sha256⟩)
        (UncommittedOrLanded crates request world.committed) (downloadInner crates urls passes request)
        world := by
  have kept : ∀ final : DownloadWorld, requestCount final.events = 0 →
      Allowed crates urls request final.events → final.committed = world.committed →
      DownloadKept crates urls request world.committed final :=
    fun final none_ allowed same => ⟨allowed, by rw [none_]; exact Nat.zero_le _, .inl same⟩
  have start : DownloadKept crates urls request world.committed world :=
    kept world (by rw [fresh]; rfl) (by rw [fresh]; trivial) rfl
  refine Program.Performs.bind
    (fun (deadline : Deadline) final =>
      deadline.budgetMs = downloadTotalMs ∧ final = world.log (.reading deadline.startedMs))
    (Program.Performs.bind (fun now final => final = world.log (.reading now))
      (asked_performs start fun now final answers => ?_) fun now final kept reached => ?_)
    fun deadline final kept reached => ?_
  · have same : final = world.log (.reading now) := answers
    subst same
    exact ⟨kept _ (by simp [DownloadWorld.log, fresh, requestCount])
      (by simp [DownloadWorld.log, fresh, Allowed]) rfl, rfl⟩
  · exact ⟨kept, rfl, reached⟩
  · obtain ⟨started, budget⟩ := deadline
    obtain ⟨rfl, rfl⟩ := reached
    refine Program.Performs.bind _ (uncommittedOrLanded (storeCall_performs nofun kept rfl))
      fun _ final _ answers => ?_
    have began : final = { world.log (.reading started) with part := some [] } := answers
    have going : Going crates urls request world.committed started [] [] 0 final := by
      subst began
      exact {
        clock := by simp [DownloadWorld.log, fresh, readings]
        timely := by
          simp [DownloadWorld.log, fresh, readings, downloadTotalMs]
        going := by simp [DownloadWorld.log, fresh]
        allowed := by simp [DownloadWorld.log, fresh, Allowed]
        written := rfl
        collected := by simp [DownloadWorld.log, fresh, received]
        count := by simp [DownloadWorld.log, fresh, requestCount]
        few := Nat.zero_le _
        untouched := rfl }
    refine Program.Performs.bind _ (uncommittedOrLanded (openEndpoint_performs going))
      fun response _ _ reached => ?_
    obtain ⟨sent, going⟩ := reached
    refine Program.Performs.bind _ (uncommittedOrLanded (pump_performs going))
      fun result _ _ reached => ?_
    obtain ⟨total, hashed⟩ := result
    obtain ⟨rfl, going⟩ : total = hashed.length ∧ _ := reached
    exact finishArchive_performs going

theorem discarding_performs {α : Type} {fine : α → DownloadWorld → Prop}
    {program : Downloading α}
    (performs : Program.Performs network (DownloadKept crates urls request before) fine
      (UncommittedOrLanded crates request before) program world)
    : Program.Performs network (DownloadKept crates urls request before) fine
        (fun err final => UncommittedOrLanded crates request before err final ∧ final.part = none)
        (discarding program) world := by
  refine Program.Ensures.bind performs fun outcome final kept reached => ?_
  cases outcome with
  | ok value => exact ⟨kept, reached⟩
  | error err =>
      refine ⟨kept, fun _ torn => torn.elim, fun _ discarded answers => ?_⟩
      have same : discarded = { final with part := none } := answers
      subst same
      have reached : UncommittedOrLanded crates request before err final := reached
      rcases reached with untouched | ⟨failed, complete⟩
      · exact ⟨kept.of_events rfl untouched, .inl untouched, rfl⟩
      · have landed : Complete crates request { final with part := none } := { complete with }
        exact ⟨⟨kept.allowed, kept.hops, .inr landed⟩, .inr ⟨failed, landed⟩, rfl⟩

end Kept

-- Every run

variable {Json Url : Type} (crates : Crates Json) (urls : UrlCrate Url)

/-- Whatever happens outside, a download sends at most `maxRedirects` requests past the first, each
to the built endpoint URL or to a delivery host, and gives no request and no read more time than
is left of its deadline. It succeeds only with the whole verified body committed, within the
deadline and not cancelled. A failure, and a cancellation seen before the commit, leaves no part
and nothing committed; the one failure that may leave a commit is that of the commit itself, and
then it is the whole verified body that landed.
-/
theorem downloadArchive_safe (passes : Nat) (request : ArchiveDownload)
    (part committed : Option (List UInt8))
    {ending : Ending (Except UpdateError DownloadedArchive)} {final : DownloadWorld}
    (runs : Program.Runs network (downloadArchive crates urls passes request).run
      ⟨[], part, committed⟩ ending final)
    : Allowed crates urls request final.events
      ∧ requestCount final.events ≤ maxRedirects + 1
      ∧ (final.committed = committed ∨ Complete crates request final)
      ∧ (∀ archive, ending = .finished (.ok archive) →
        Complete crates request final ∧ archive = ⟨request.size, request.sha256⟩)
      ∧ (∀ err, ending = .finished (.error err) →
        (final.committed = committed
          ∨ (.commitFailed ∈ final.events ∧ Complete crates request final))
        ∧ (final.part = none ∨ final = ⟨[], part, committed⟩))
      ∧ (.polled true ∈ final.events →
        final.committed = committed ∧ ∀ archive, ending ≠ .finished (.ok archive)) := by
  have performs : Program.Performs network (DownloadKept crates urls request committed)
      (fun archive final =>
        Complete crates request final ∧ archive = ⟨request.size, request.sha256⟩)
      (fun err final => UncommittedOrLanded crates request committed err final
        ∧ (final.part = none ∨ final = ⟨[], part, committed⟩))
      (downloadArchive crates urls passes request) ⟨[], part, committed⟩ := by
    refine Program.Performs.ite (fun _ => ?_) fun _ => ?_
    · exact ⟨⟨trivial, Nat.zero_le _, .inl rfl⟩, .inl rfl, .inr rfl⟩
    · have start : (⟨[], part, committed⟩ : DownloadWorld).events = [] := rfl
      exact (discarding_performs (downloadInner_performs start)).mono
        (fun _ _ _ reached => reached) fun _ _ _ failed => ⟨failed.1, .inl failed.2⟩
  obtain ⟨kept, reached⟩ := Program.Ensures.sound performs runs
  refine ⟨kept.allowed, kept.hops, kept.commits, fun archive same => reached (.ok archive) same,
    fun err same => reached (.error err) same, fun stopped => ⟨?_, fun archive same => ?_⟩⟩
  · exact kept.commits.resolve_right fun complete => complete.going stopped
  · obtain ⟨complete, _⟩ : Complete crates request final ∧ _ := reached _ same
    exact complete.going stopped

-- A download

/-- The bytes `hane` as an archive. -/
def sampleArchive : List UInt8 := [104, 97, 110, 101]

def archiveCrates : Crates (CatalogDocument ⊕ SignatureFile) where
  __ := sampleCrates
  digest _ :=
    [234, 26, 249, 147, 111, 77, 156, 135, 140, 200, 76, 106, 168, 39, 214, 73, 90, 103, 234, 11,
      132, 247, 196, 11, 222, 229, 110, 216, 9, 185, 10, 45]

/-- What the URL crate makes of the URL of an asset. -/
def assetUrls : UrlCrate String where
  parse := .ok
  join _ location := .ok location
  toString := id
  scheme _ := "https"
  username _ := ""
  password _ := none
  port _ := none
  hostStr _ := some "github.com"

def sampleDownload : ArchiveDownload where
  tag := "v0.30.0"
  name := "hane-windows-x64.zip"
  size := 4
  sha256 := "ea1af9936f4d9c878cc84c6aa827d6495a67ea0b84f7c40bdee56ed809b90a2d"

/-- A server that sends the archive in one chunk, a clock that ticks at every reading and a disk
without errors.
-/
def serving (world : DownloadWorld)
    : (call : DownloadCall) → Option (call.Answer × DownloadWorld)
  | .monotonicMs =>
      some ((readings world.events).length, world.log (.reading (readings world.events).length))
  | .isCancelled => some (false, world.log (.polled false))
  | .get request => some (.ok ⟨200, none, some 4⟩, world.log (.requested request))
  | .readWithin size timeoutMs =>
      let chunk := (if received world.events = [] then sampleArchive else []).take size
      some (.ok chunk, (world.log (.bodyRead timeoutMs)).log (.received chunk))
  | .store .beginPart => some (.ok (), { world with part := some [] })
  | .store (.writeAll chunk) => some (.ok (), { world with part := world.part.map (· ++ chunk) })
  | .store .flush => some (.ok (), world)
  | .store .commitPart => some (.ok (), { world with part := none, committed := world.part })
  | .discardPart => some ((), { world with part := none })
  | .unfinished => none

/-- The rule gives only answers the outside may give. -/
theorem serving_allowed (world : DownloadWorld) (call : DownloadCall) (answer : call.Answer)
    (final : DownloadWorld) (answered : serving world call = some (answer, final))
    : network.answers world call answer final := by
  cases call with
  | readWithin size timeoutMs =>
      cases answered
      exact ⟨List.length_take_le _ _, rfl⟩
  | store call =>
      cases call with
      | _ =>
          cases answered
          rfl
  | unfinished => cases answered
  | _ =>
      cases answered
      rfl

/-- Witness: the archive is downloaded and committed. -/
theorem downloadArchive_safe_sample
    : Complete archiveCrates sampleDownload
        ((downloadArchive archiveCrates assetUrls 3 sampleDownload).run.runUntil serving
          ⟨[], none, none⟩).2 := by
  have safe := downloadArchive_safe archiveCrates assetUrls 3 sampleDownload none none
    (Program.runs_runUntil serving_allowed _ _)
  exact (safe.2.2.2.1 ⟨4, sampleDownload.sha256⟩ (by decide +kernel)).1

def unsynced : IoError := ⟨.other "Other", "Input/output error (os error 5)", some 5⟩

/-- The same server, and a disk where the sync of the folder after the rename fails. -/
def servingUnsynced (world : DownloadWorld)
    : (call : DownloadCall) → Option (call.Answer × DownloadWorld)
  | .store .commitPart =>
      some (.error unsynced,
        { world with part := none, committed := world.part }.log .commitFailed)
  | call => serving world call

theorem servingUnsynced_allowed (world : DownloadWorld) (call : DownloadCall)
    (answer : call.Answer) (final : DownloadWorld)
    (answered : servingUnsynced world call = some (answer, final))
    : network.answers world call answer final := by
  unfold servingUnsynced at answered
  split at answered
  · cases answered
    exact .inr rfl
  · exact serving_allowed world _ answer final answered

/-- The download fails and the archive is committed all the same. -/
theorem downloadArchive_fails_committed
    : ∃ err final,
        Program.Runs network (downloadArchive archiveCrates assetUrls 3 sampleDownload).run
          ⟨[], none, none⟩ (.finished (.error err)) final
        ∧ final.committed = some sampleArchive := by
  have runs := Program.runs_runUntil servingUnsynced_allowed
    (downloadArchive archiveCrates assetUrls 3 sampleDownload).run ⟨[], none, none⟩
  have failed : ((downloadArchive archiveCrates assetUrls 3 sampleDownload).run.runUntil
      servingUnsynced ⟨[], none, none⟩).1 = .finished (.error (ioUpdateError unsynced)) := by
    decide +kernel
  rw [failed] at runs
  exact ⟨_, _, runs, by decide +kernel⟩

end Hane.Update
