import Collector.Fetch.Classify
import Collector.Fetch.Config
import Collector.Fetch.Decoding
import Collector.Fetch.Guard

/-!
One fetch: guard, one look-up with the address check, the pin, the permit of the origin, the
request, and the same again for every redirect. Everything outside the process answers a
question, and any answer may come instead as an exception: a refusal of the network, the end of
the total timeout, a cancellation.
-/

namespace Collector.Fetch
open Collector.Lib Collector.Persistence

inductive RequestKind where
  | page
  | sitemap
  | robots
  | api
  deriving DecidableEq, Repr

structure FetchRequest where
  url : String
  requestKind : RequestKind := .page
  jobId : Option Uuid := none
  ifNoneMatch : Option String := none
  ifModifiedSince : Option String := none
  totalTimeout : Option ℚ := none
  deriving DecidableEq, Repr

structure Permit where
  permitId : Uuid
  origin : String
  leaseExpiresAt : Time
  deriving DecidableEq, Repr

inductive DenyReason where
  | blocked
  | rate
  | concurrency
  | unknownOrigin
  deriving DecidableEq, Repr

def DenyReason.text : DenyReason → String
  | .blocked => "blocked"
  | .rate => "rate"
  | .concurrency => "concurrency"
  | .unknownOrigin => "unknown_origin"

structure Denied where
  reason : DenyReason
  retryAfter : Option Time := none
  deriving DecidableEq, Repr

structure Hop where
  url : String
  address : IpAddress
  status : Nat
  deriving DecidableEq, Repr

/-- A response without its body; `header` is `headers.get`. -/
structure Response where
  status : Nat
  header : String → Option String

structure FetchResult where
  decision : FetchDecision
  requestedUrl : String
  finalUrl : Option String := none
  status : Option Nat := none
  headers : List (String × String) := []
  body : Option Bytes := none
  decodedBytes : Nat := 0
  bodyCompressed : Bool := false
  mediaType : Option String := none
  hops : List Hop := []
  denied : Option Denied := none
  deriving DecidableEq, Repr

/-- Exceptions, as `fetch` tells them apart. `os` is an `OSError` of the resolver, `timeout` the
end of any timeout. -/
inductive FetchRaise where
  | policyBlocked (code : String)
  | redirectRefused (code : String)
  | dns
  | timeout
  | transport
  | bodyLimit (code : String)
  | unsupportedEncoding
  | os
  | cancelled
  | other
  deriving DecidableEq, Repr

def FetchRaise.ofRefusal : Refusal → FetchRaise
  | .policyBlocked code => .policyBlocked code
  | .valueError => .other

/-- A request on the wire, with the address its connection goes to. -/
structure SentRequest where
  url : String
  headers : List (String × String)
  address : IpAddress
  deriving DecidableEq, Repr

inductive FetchQuestion where
  | clock
  | now
  | denylist (path : String)
  | resolve (host : String) (port : Nat)
  | acquire (origin : String) (jobId : Option Uuid)
  | send (request : SentRequest)
  | readBody (encoding : Option String) (limits : BodyLimits)
  | close
  | closeClient
  | block (origin : String) (until_ : Time) (reason : String)
  | release (permit : Permit)
  deriving DecidableEq, Repr

@[reducible] def FetchAnswer : FetchQuestion → Type
  | .clock => ℚ
  | .now => Time
  | .denylist _ => DenylistFile
  | .resolve _ _ => Except FetchRaise (List String)
  | .acquire _ _ => Except FetchRaise (Permit ⊕ Denied)
  | .send _ => Except FetchRaise Response
  | .readBody _ _ => Except FetchRaise Body
  | .close => Except FetchRaise Unit
  | .closeClient => Except FetchRaise Unit
  | .block _ _ _ => Except FetchRaise Unit
  | .release _ => Except FetchRaise Unit

/-- What the libraries do: `target` is where httpx connects for a URL, `none` if it refuses it. -/
structure FetchTools extends UrlTools where
  ipAddress : String → Option IpAddress
  compile : String → Option Pattern
  target : String → Option (String × Nat)
  parsedate : String → ParsedDate
  redact : String → String

/-- What a fetch changes on its way; the denylist is kept from one fetch to the next. -/
structure FetchState where
  held : List (String × Permit) := []
  hops : List Hop := []
  pins : List ((String × Nat) × IpAddress) := []
  denylist : Denylist := {}

abbrev FetchAct := Act FetchQuestion FetchAnswer FetchState FetchRaise

structure SafeFetcher where
  config : FetchConfig
  guard : RouteGuard

/-- `SafeFetcher.__init__`: without a guard of its own a fetcher has one with the ports only. -/
def SafeFetcher.make (config : FetchConfig) (guard : Option RouteGuard := none) : SafeFetcher :=
  ⟨config, guard.getD { ports := config.allowedPorts }⟩

def redirectStatuses : List Nat := [301, 302, 303, 307, 308]

def mediaPrefixes : List String := ["image/", "video/", "audio/"]

/-- `PERMIT_EXPIRY_MARGIN_SECONDS`. -/
def permitExpiryMargin : ℚ := 1

def safeResponseHeaders : List String :=
  ["content-type", "content-length", "content-encoding", "etag", "last-modified", "retry-after",
    "location"]

/-- `text.strip("[]")`. -/
def unbracket (text : List Char) : List Char :=
  let bracket (c : Char) : Bool := c = '[' || c = ']'
  ((text.dropWhile bracket).reverse.dropWhile bracket).reverse

/-- `value` if it is neither `None` nor zero. -/
def given (value : Option ℚ) : Option ℚ := value.filter (· ≠ 0)

section
variable (tools : FetchTools)

/-- `PinnedNetworkBackend.pin`. -/
def pin (host : String) (port : Nat) (address : IpAddress) (s : FetchState) : FetchState :=
  { s with pins := ((tools.lower host, port), address) :: s.pins }

/-- `PinnedNetworkBackend.connect_tcp`: the address it goes to, `none` without a pin. -/
def pinned (host : String) (port : Nat) (s : FetchState) : Option IpAddress :=
  (s.pins.find? fun entry => entry.1 = (String.ofList (unbracket (tools.lower host).toList), port)).map
    Prod.snd

/-- `_next_url`. -/
def nextUrl (current location : String) : Except FetchRaise String := do
  let text ← (tools.urljoin current (strip location)).mapError
    fun _ => .redirectRefused "redirect_location_invalid"
  let joined ← (tools.urlsplit text).mapError fun _ => .redirectRefused "redirect_location_invalid"
  let parts ← (tools.urlsplit current).mapError fun _ => .other
  ensure (¬(parts.scheme = "https" ∧ tools.lower joined.scheme = "http"))
    (.redirectRefused "redirect_downgrade")
  return tools.urlunsplit { joined with fragment := "" }

namespace SafeFetcher
variable (f : SafeFetcher) (request : FetchRequest)

/-- `_failed`. -/
def failed (decision : FetchDecision) : FetchAct FetchResult := do
  let s ← .get
  return { decision, requestedUrl := tools.redact request.url, hops := s.hops }

/-- `_denied`. -/
def denied (d : Denied) (redirected : Bool) : FetchAct FetchResult := do
  if d.reason = .unknownOrigin then
    failed tools request (classifyError (if redirected then "redirect_origin_unknown" else "origin_unknown"))
  else
    let retryAfter ← match d.retryAfter with
      | none => pure none
      | some at_ => do
        let now ← .ask .now
        pure (some (max (at_ - now) 0))
    let s ← .get
    return {
      decision := { outcome := .retryable, contentAccess := .unknown
                    errorCode := some ("permit_" ++ d.reason.text), retryAfter }
      requestedUrl := tools.redact request.url, hops := s.hops, denied := some d }

/-- `_check_deadline`. -/
def checkDeadline (deadline : ℚ) : FetchAct Unit := do
  let now ← .ask .clock
  if deadline < now then .raise .timeout else pure ()

/-- `RouteGuard.check`. -/
def checkGuard (url : String) : FetchAct GuardedUrl := do
  let guarded ← .ofExcept ((f.guard.inspect tools.toUrlTools url).mapError .ofRefusal)
  match f.guard.denylist with
  | none => pure ()
  | some path => do
    let file ← .ask (.denylist path)
    let s ← .get
    let list ← .ofExcept ((s.denylist.load tools.toUrlTools tools.compile file).mapError .ofRefusal)
    .modify fun s => { s with denylist := list }
    .ofExcept ((list.check guarded.url guarded.host).mapError .ofRefusal)
  .ofExcept ((f.guard.route guarded).mapError .ofRefusal)
  return guarded

/-- `resolve_pinned`. -/
def resolvePinned (host : String) (port : Nat) : FetchAct IpAddress := do
  match ← .ofExcept ((resolveLiteral tools.toUrlTools tools.ipAddress host).mapError .ofRefusal) with
  | some literal => return literal
  | none =>
    let answers : Except FetchRaise (List String) ← .ask (FetchQuestion.resolve host port)
    let answers ← .ofExcept (answers.mapError fun e => if e = .os then .dns else e)
    if answers.isEmpty then .raise .dns
    else
      match ← .ofExcept ((pinAnswer tools.ipAddress answers).mapError .ofRefusal) with
      | some address => return address
      | none => .raise .dns

/-- The permit of the origin, taken now or on an earlier hop. -/
def permitFor (origin : String) (redirected : Bool) : FetchAct (FetchResult ⊕ Permit) := do
  let s ← .get
  match s.held.lookup origin with
  | some permit => return .inr permit
  | none =>
    match ← .ofExcept (← .ask (.acquire origin request.jobId)) with
    | .inr d => return .inl (← denied tools request d redirected)
    | .inl permit =>
      .modify fun s => { s with held := s.held ++ [(origin, permit)] }
      return .inr permit

/-- `lease_left < fetch_left + PERMIT_EXPIRY_MARGIN_SECONDS`. -/
def leaseTooShort (deadline : ℚ) (permit : Permit) : FetchAct Bool := do
  let now ← .ask .now
  let clock ← .ask .clock
  let leaseLeft : ℚ := ((permit.leaseExpiresAt - now : Int) : ℚ) / 1000000
  return decide (leaseLeft < max (deadline - clock) 0 + permitExpiryMargin)

/-- `_headers`. -/
def headers (hop : Nat) : List (String × String) :=
  let validator (name : String) (value : Option String) : List (String × String) :=
    if hop = 0 then ((value.filter (· ≠ "")).map fun text => (name, text)).toList else []
  [("User-Agent", f.config.userAgent), ("Accept", "*/*"), ("Accept-Encoding", "gzip, deflate, br")] ++
    validator "If-None-Match" request.ifNoneMatch ++
    validator "If-Modified-Since" request.ifModifiedSince

/-- `client.send`: the connection goes to the pin of the host that httpx reads off the URL. -/
def send (url : String) (hop : Nat) : FetchAct Response := do
  match tools.target url with
  | none => .raise .other
  | some (host, port) =>
    let s ← .get
    match pinned tools host port s with
    | none => .raise .transport
    | some address => .ofExcept (← .ask (.send ⟨url, f.headers request hop, address⟩))

/-- `content-type` without its parameters. -/
def mediaType (response : Response) : String :=
  tools.lower (strip ((splitText ';' ((response.header "content-type").getD "")).headD ""))

/-- `result` inside `_complete`. -/
def completed (response : Response) (decision : FetchDecision) (body : Option Body := none) :
    FetchAct FetchResult := do
  let s ← .get
  return {
    decision, requestedUrl := tools.redact request.url, finalUrl := s.hops.getLast?.map Hop.url
    status := some response.status
    headers := safeResponseHeaders.filterMap fun name =>
      ((response.header name).filter (· ≠ "")).map fun value => (name, tools.redact value)
    body := body.map Body.data, decodedBytes := (body.map Body.decodedBytes).getD 0
    bodyCompressed := (body.map Body.storedCompressed).getD false
    mediaType := some (mediaType tools response) |>.filter (· ≠ ""), hops := s.hops }

/-- `declared.isascii() and declared.isdigit() and int(declared) > limit`; `none` when `int`
raises. -/
def declaredTooLarge (response : Response) (limit : Int) : Option Bool :=
  let text := ((response.header "content-length").getD "").toList
  if !text.isEmpty && text.all Char.isDigit then (decimal text).map fun n => decide (limit < (n : Int))
  else some false

/-- A 429 blocks the origin. -/
def blockOrigin (origin : String) (now : Time) (decision : FetchDecision) : FetchAct Unit :=
  match decision.blockOrigin, decision.retryAfter with
  | true, some delay => do .ofExcept (← .ask (.block origin (now + delay) "http_429"))
  | _, _ => pure ()

/-- The body within its limits, and the decision that goes with it. -/
def readResponse (response : Response) (limits : BodyLimits) (now : Time) : FetchAct FetchResult := do
  let read : Except FetchRaise Body ←
    .ask (FetchQuestion.readBody (response.header "content-encoding") limits)
  match read with
  | .error (.bodyLimit code) => completed tools request response (classifyError code)
  | .error .unsupportedEncoding =>
    completed tools request response (classifyError "content_encoding_unsupported")
  | .error e => .raise e
  | .ok body =>
    match classifyStatus tools.parsedate response.status (body.decodedBytes = 0) none now with
    | none => .raise .other
    | some decision => completed tools request response decision (some body)

/-- `_complete`. -/
def complete (response : Response) (origin : String) : FetchAct FetchResult := do
  let now ← .ask .now
  if ¬(200 ≤ response.status ∧ response.status < 300) then
    match classifyStatus tools.parsedate response.status false (response.header "retry-after") now with
    | none => .raise .other
    | some decision =>
      blockOrigin origin now decision
      completed tools request response decision
  else if (mediaPrefixes.any fun start => start.toList.isPrefixOf (mediaType tools response).toList) &&
      !f.config.mediaBinaries then
    completed tools request response (classifyError "media_binary_skipped")
  else
    let sitemap := decide (request.requestKind = .sitemap)
    let limit := if sitemap then f.config.maxSitemapBytes else f.config.maxBodyBytes
    match declaredTooLarge response limit with
    | none => .raise .other
    | some true => completed tools request response (classifyError "body_too_large")
    | some false =>
      readResponse tools request response
        ⟨limit, f.config.maxDecompressionRatio, f.config.ratioGuardMinBytes, sitemap⟩ now

/-- The `try` around a response: its result, or the URL of the next hop. -/
def afterResponse (response : Response) (guarded : GuardedUrl) (origin : String) (address : IpAddress) :
    FetchAct (FetchResult ⊕ String) := do
  .modify fun s => { s with hops := s.hops ++ [⟨tools.redact guarded.url, address, response.status⟩] }
  let location := (response.header "location").getD ""
  if response.status ∈ redirectStatuses ∧ location ≠ "" then
    .inr <$> .ofExcept (nextUrl tools guarded.url location)
  else .inl <$> f.complete tools request response origin

/-- `_run`: the rest of the loop, with the hops that are left. -/
def run (deadline : ℚ) : Nat → Nat → String → FetchAct FetchResult
  | 0, _, _ => failed tools request (classifyError "too_many_redirects")
  | left + 1, hop, url => do
    checkDeadline deadline
    let guarded ← f.checkGuard tools url
    let origin ← .ofExcept ((normalizeOrigin tools.toUrlTools guarded.url).mapError fun _ => .other)
    let address ← resolvePinned tools guarded.host guarded.port
    .modify (pin tools guarded.host guarded.port address)
    match ← permitFor tools request origin (0 < hop) with
    | .inl result => return result
    | .inr permit =>
      if ← leaseTooShort deadline permit then
        failed tools request (classifyError "permit_lease_too_short")
      else
        let response ← f.send tools request guarded.url hop
        let outcome ← .attempt (f.afterResponse tools request response guarded origin address)
        .ofExcept (← .ask .close)
        match ← .ofExcept outcome with
        | .inl result => return result
        | .inr url => run deadline left (hop + 1) url

/-- The decision that an `except` clause of `fetch` makes; `none` lets the exception through. -/
def decisionFor : FetchRaise → Option FetchDecision
  | .policyBlocked code => some (classifyError code true)
  | .redirectRefused code => some (classifyError code)
  | .dns => some (classifyError "dns_error")
  | .timeout => some (classifyError "timeout")
  | .transport => some (classifyError "network_error")
  | _ => none

/-- The `finally` of `fetch`: only a cancellation gets past `_release`. -/
def releaseAll : List (String × Permit) → FetchAct Unit
  | [] => pure ()
  | (_, permit) :: rest => do
    let released : Except FetchRaise Unit ← .ask (FetchQuestion.release permit)
    match released with
    | .error .cancelled => .raise .cancelled
    | _ => releaseAll rest

/-- The `async with` around the loop: the client is closed in any case. -/
def withClient (deadline : ℚ) : FetchAct FetchResult := do
  let outcome ← .attempt (f.run tools request deadline (f.config.maxRedirects + 1).toNat 0 request.url)
  .ofExcept (← .ask .closeClient)
  .ofExcept outcome

/-- The `except` clauses. -/
def handled (outcome : Except FetchRaise FetchResult) : FetchAct FetchResult :=
  match outcome with
  | .ok result => pure result
  | .error e =>
    match decisionFor e with
    | some decision => failed tools request decision
    | none => .raise e

/-- `fetch`. -/
def fetch : FetchAct FetchResult := do
  let total := (given request.totalTimeout).getD f.config.totalTimeout
  let start ← .ask .clock
  let outcome ← .attempt (f.withClient tools request (start + total))
  let outcome ← .attempt (handled tools request outcome)
  releaseAll (← .get).held
  .ofExcept outcome

end SafeFetcher
end

end Collector.Fetch
