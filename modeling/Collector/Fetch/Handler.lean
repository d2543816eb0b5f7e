import Collector.Fetch.Records
import Collector.Lib.Processes

/-!
The `fetch.http` handler: what one task does from its arguments to its result. It reads the
preflight, asks robots.txt first where the policy says so, fetches, and leaves the evidence of the
attempt in the database; its transactions and the outside world answer it.
-/

namespace Collector.Fetch
open Collector.Lib Collector.Persistence
open Collector.Contracts (uuidText)

inductive Disposition where
  | complete
  | retry
  | quarantine
  | defer
  deriving DecidableEq, Repr

structure TaskResult where
  disposition : Disposition
  errorCode : Option String := none
  errorMessage : Option String := none
  notBefore : Option Time := none
  deriving DecidableEq, Repr

structure Validators where
  etag : Option String
  lastModified : Option String
  deriving DecidableEq, Repr

structure RobotsSnapshot where
  fetchedAt : Time
  sha256 : Option String
  objectKey : Option String
  deriving DecidableEq, Repr

def RobotsSnapshot.fresh (snapshot : RobotsSnapshot) (now ttl : Time) : Bool :=
  decide (now - snapshot.fetchedAt < ttl)

/-- A verified upload. -/
structure StoredObject where
  uri : String
  size : Nat
  mediaType : Option String
  deriving DecidableEq, Repr

/-- What a handler raises: the exception of a transaction, of the fetch, `UploadBusyError`,
`ValueError`, a cancellation, or another one. -/
inductive HandlerRaise where
  | db (e : DbError)
  | fetch (e : FetchRaise)
  | uploadBusy
  | valueError
  | cancelled
  | other
  deriving DecidableEq, Repr

inductive HandlerWorld where
  | clock
  | drawn
  | validators (sourceId : Uuid) (url : String)
  | snapshot (sourceId : Uuid) (url : String)
  | fetch (q : FetchQuestion)
  | upload (bucket key sha256 : String) (data : Bytes) (mediaType : String)
  | storeGet (bucket objectKey sha256 : String)
  deriving DecidableEq, Repr

@[reducible] def HandlerAnswer : HandlerWorld → Type
  | .clock => Time
  | .drawn => Drawn
  | .validators _ _ => Except HandlerRaise (Option Validators)
  | .snapshot _ _ => Except HandlerRaise (Option RobotsSnapshot)
  | .fetch q => FetchAnswer q
  | .upload _ _ _ _ _ => Except HandlerRaise StoredObject
  | .storeGet _ _ _ => Except HandlerRaise Bytes

abbrev HandlerQuestion := Demand HandlerWorld FetchCall

abbrev HandlerReply : HandlerQuestion → Type := Reply HandlerAnswer (Except DbError FetchCallAnswer)

/-- What the fetcher keeps from one fetch to the next. -/
abbrev HandlerAct := Act HandlerQuestion HandlerReply Denylist HandlerRaise

/-- `contractText` is the text of a pydantic `ValidationError`, `robotsAllows` is `RobotFileParser`
on a decoded body. -/
structure HandlerTools extends FetchTools where
  parseUuid : String → Option Uuid
  parseInt : String → Option Int
  contractText : String → String
  sha256 : Bytes → String
  robotsAllows : Bytes → String → String → Bool

structure FetchHandler where
  owner : String
  fetcher : SafeFetcher
  rawBucket : String
  robotsTtl : Time
  userAgent : String

/-- `DEFER_DELAY`. -/
def deferDelay : Time := seconds 5

def browserRouteKinds : List String := ["category", "detail"]

def robotsPolicies : List String := ["diagnostic", "ignore", "respect"]

/-- `ERROR_CODE_MAX_LENGTH`. -/
def errorCodeMaxLength : Nat := 64

/-- `value or other` of two texts. -/
def orText (value : Option String) (other : String) : String := (value.filter (· ≠ "")).getD other

def TaskResult.success : TaskResult := { disposition := .complete }

/-- The checks of `TaskResult` on a result with an error. -/
def TaskResult.checked (result : TaskResult) : HandlerAct TaskResult :=
  let code := result.errorCode.getD ""
  if code = "" ∨ errorCodeMaxLength < code.length then .raise .valueError else pure result

def permanent (errorCode : String) (errorMessage : Option String := none) : HandlerAct TaskResult :=
  TaskResult.checked { disposition := .quarantine, errorCode := some errorCode, errorMessage }

def deferred (until_ : Time) (errorCode : String) : HandlerAct TaskResult :=
  TaskResult.checked { disposition := .defer, errorCode := some errorCode, notBefore := some until_ }

def retryable (errorCode : String) (notBefore : Option Time) : HandlerAct TaskResult :=
  TaskResult.checked { disposition := .retry, errorCode := some errorCode, notBefore }

/-- `result_for_exception`; a cancellation is not an exception of the handler. `shown` is the type
and the text of the exception. -/
def resultForException (shown : HandlerRaise → String) : HandlerRaise → Option TaskResult
  | .cancelled => none
  | e => some { disposition := .retry, errorCode := some "handler_error", errorMessage := some (shown e) }

/-- `robots_url`. -/
def robotsUrl (tools : UrlTools) (url : String) : Except String String := do
  let parts ← tools.urlsplit url
  return tools.urlunsplit ⟨parts.scheme, parts.netloc, "/robots.txt", "", ""⟩

/-- The text of an exception of `normalize_url`. -/
def UrlError.text (tools : HandlerTools) (raw : String) : UrlError → String
  | .url _ message => message
  | .contract => tools.contractText raw

/-- `_required_text`. -/
def requiredText (args : List (String × ArgValue)) (name : String) : Except String String :=
  match args.lookup name with
  | some (.text s) =>
    if strip s = "" then .error ("fetch.http args." ++ name ++ " must be a non-empty string") else .ok s
  | _ => .error ("fetch.http args." ++ name ++ " must be a non-empty string")

/-- `_required_uuid`: its `except` also catches the error of `_required_text`. -/
def requiredUuid (tools : HandlerTools) (args : List (String × ArgValue)) (name : String) : Except String Uuid :=
  match (requiredText args name).toOption.bind tools.parseUuid with
  | some id => .ok id
  | none => .error ("fetch.http args." ++ name ++ " must be a UUID")

/-- `REQUEST_KINDS`. -/
def RequestKind.named (name : String) : Option RequestKind :=
  if name = "page" then some .page
  else if name = "sitemap" then some .sitemap
  else if name = "robots" then some .robots
  else if name = "api" then some .api
  else none

/-- `_request_kind`. -/
def requestKind (args : List (String × ArgValue)) : Except String RequestKind :=
  let refused := "fetch.http args.request_kind must be one of ['api', 'page', 'robots', 'sitemap']"
  match (args.lookup "request_kind").getD (.text "page") with
  | .text name =>
    match RequestKind.named name with
    | some kind => .ok kind
    | none => .error refused
  | .other _ => .error refused

/-- What the first `try` of `handle` makes of the arguments. -/
structure Target where
  routeId : Uuid
  url : String
  kind : RequestKind
  deriving DecidableEq, Repr

/-- The first `try` of `handle`; an error is the text of the exception. -/
def target (tools : HandlerTools) (args : List (String × ArgValue)) : Except String Target := do
  let routeId ← requiredUuid tools args "route_id"
  let raw ← requiredText args "url"
  let normalized ← (normalizeUrl tools.toUrlTools raw).mapError (UrlError.text tools raw)
  let kind ← requestKind args
  let url ← if kind = .robots then robotsUrl tools.toUrlTools normalized else .ok normalized
  return ⟨routeId, url, kind⟩

/-- A question of the world that may raise. -/
def HandlerAct.world {β : Type} (q : HandlerWorld) (same : HandlerAnswer q = Except HandlerRaise β) :
    HandlerAct β := do
  .ofExcept (same ▸ (← .ask (Demand.world q : HandlerQuestion)))

def clock : HandlerAct Time := .ask (Demand.world HandlerWorld.clock : HandlerQuestion)

def drawn : HandlerAct Drawn := .ask (Demand.world HandlerWorld.drawn : HandlerQuestion)

/-- A transaction: `async with sessions() as session, session.begin()`. -/
def transact (call : FetchCall) : HandlerAct FetchCallAnswer := do
  let answer : Except DbError FetchCallAnswer ← .ask (Demand.transact call : HandlerQuestion)
  .ofExcept (answer.mapError .db)

/-- `self._fetcher.fetch(request)`. -/
def fetchWith (tools : FetchTools) (f : SafeFetcher) (request : FetchRequest) : HandlerAct FetchResult :=
  fun denylist =>
    ((f.fetch tools request { denylist }).embed (fun q => .world (.fetch q)) fun _ a => a).bind
      fun (outcome, s) => .done (outcome.mapError .fetch, s.denylist)

/-- `_task_result`. -/
def taskResult (fetched : FetchResult) (now : Time) : HandlerAct TaskResult :=
  match fetched.decision.outcome with
  | .success => pure .success
  | .retryable =>
    retryable (orText fetched.decision.errorCode "fetch_retry")
      ((fetched.decision.retryAfter.filter (· ≠ 0)).map fun delay => now + delay)
  | .permanentFailure =>
    permanent (orText fetched.decision.errorCode "fetch_permanent") fetched.decision.reason

/-- The preflight answers of `handle` that end it before the fetch. -/
def refused (p : FetchPreflight) (now : Time) : Option (HandlerAct TaskResult) :=
  if p.sourceState ≠ .enabled then some (deferred (now + deferDelay) "source_not_enabled")
  else
    match p.policy with
    | none => some (permanent "source_policy_missing")
    | some policy =>
      if policy.robotsPolicy ∉ robotsPolicies then some (permanent "robots_policy_invalid")
      else if p.routeState = .circuitOpen ∨ p.routeState = .unsupported then
        some (deferred (max (p.circuitOpenUntil.getD (now + deferDelay)) (now + deferDelay))
          "route_not_available")
      else none

/-- What `handle` knows when it fetches. -/
structure Ready where
  sourceId : Uuid
  target : Target
  preflight : FetchPreflight
  policy : SourcePolicyVersion
  validators : Option Validators
  now : Time

/-- `"robots" if request_kind == "robots" else None`. -/
def robotsVariant (kind : RequestKind) : Option String := if kind = .robots then some "robots" else none

section
variable (tools : HandlerTools) (h : FetchHandler) (task : Task)

/-- `_store_raw`: the upload, and the transaction that refers to it. -/
def storeRaw (routeId : Uuid) (requestedUrl : String) (fetched : FetchResult) (body : Bytes)
    (enqueueParse : Bool) (requestVariant : Option String) : HandlerAct Unit := do
  let sha256 := tools.sha256 body
  let key := "raw/" ++ sha256
  let mediaType := orText fetched.mediaType "application/octet-stream"
  let stored ← HandlerAct.world (.upload h.rawBucket key sha256 body mediaType) rfl
  let d ← drawn
  let _ ← transact (.commitRaw {
    task, routeId, requestedUrl, fetched, sha256, objectKey := key, uri := stored.uri
    size := stored.size, storedMediaType := stored.mediaType, enqueueParse, requestVariant } d)

/-- `_record_without_raw`. -/
def record (a : RecordArgs) : HandlerAct Unit := do
  let d ← drawn
  let _ ← transact (.recordWithoutRaw h.owner a d)

/-- The body of a fetch that succeeded. -/
def storable (fetched : FetchResult) : Option Bytes :=
  if fetched.decision.outcome = .success then fetched.body else none

/-- A fetch that the permits denied. -/
def permitDenied (d : Denied) (now : Time) (errorCode : String) : HandlerAct TaskResult :=
  deferred (max (d.retryAfter.getD (now + deferDelay)) (now + deferDelay)) errorCode

/-- `await self._store_raw(…)`, with what the handler returns while another worker uploads. -/
def storeOrDefer (routeId : Uuid) (requestedUrl : String) (fetched : FetchResult) (body : Bytes)
    (enqueueParse : Bool) (requestVariant : Option String) (now : Time) (errorCode : String) :
    HandlerAct (Option TaskResult) := do
  let outcome ← .attempt (storeRaw tools h task routeId requestedUrl fetched body enqueueParse requestVariant)
  match outcome with
  | .ok _ => return none
  | .error .uploadBusy => some <$> deferred (now + deferDelay) errorCode
  | .error e => .raise e

/-- The refresh inside `_enforce_robots`; a result ends the task. -/
def refreshRobots (routeId : Uuid) (robots : String) (known : Bool) (now : Time) :
    HandlerAct (Option TaskResult) := do
  let fetched ← fetchWith tools.toFetchTools h.fetcher
    { url := robots, requestKind := .robots, jobId := some task.jobId }
  match fetched.denied with
  | some d => some <$> permitDenied d now "robots_permit_denied"
  | none =>
    match storable fetched with
    | some body =>
      storeOrDefer tools h task routeId robots fetched body false (some "robots") now "robots_upload_claim_busy"
    | none =>
      record h {
        task, routeRevision := 0, routeId, requestedUrl := robots, fetched, browserAllowed := false
        requestVariant := some "robots", applyRouteEffects := false }
      if fetched.status ≠ some 404 ∧ fetched.decision.outcome ≠ .success ∧ !known then
        some <$> taskResult fetched now
      else return none

/-- The bytes of a snapshot, if there are any. -/
def snapshotBody (snapshot : Option RobotsSnapshot) : HandlerAct (Option Bytes) :=
  match snapshot.bind RobotsSnapshot.sha256, snapshot.bind RobotsSnapshot.objectKey with
  | some sha256, some key => some <$> HandlerAct.world (.storeGet h.rawBucket key sha256) rfl
  | _, _ => pure none

/-- `robots_allows`. -/
def robotsAllows (policy : String) (body : Option Bytes) (url : String) : Bool :=
  match body with
  | some body => decide (policy ≠ "respect") || tools.robotsAllows body url h.userAgent
  | none => true

/-- The end of `_enforce_robots`. -/
def applyRobots (ready : Ready) (snapshot : Option RobotsSnapshot) (now : Time) :
    HandlerAct (Option TaskResult) := do
  let body ← snapshotBody h snapshot
  if robotsAllows tools h ready.policy.robotsPolicy body ready.target.url then return none
  else
    let reference := orText (snapshot.bind RobotsSnapshot.sha256) "absent"
    let blocked : FetchResult := {
      decision := classifyError ("robots_disallowed:" ++ reference) true
      requestedUrl := ready.target.url, finalUrl := some ready.target.url }
    record h {
      task, routeRevision := 0, routeId := ready.target.routeId, requestedUrl := ready.target.url
      fetched := blocked, browserAllowed := false }
    some <$> taskResult blocked now

/-- `_enforce_robots`. -/
def enforceRobots (ready : Ready) : HandlerAct (Option TaskResult) := do
  let now ← clock
  let latest := HandlerAct.world (.snapshot ready.sourceId ready.target.url) rfl
  let snapshot ← latest
  if snapshot.any (·.fresh now h.robotsTtl) then applyRobots tools h task ready snapshot now
  else
    let robots ← .ofExcept ((robotsUrl tools.toUrlTools ready.target.url).mapError fun _ => .valueError)
    match ← refreshRobots tools h task ready.target.routeId robots snapshot.isSome now with
    | some result => return some result
    | none => applyRobots tools h task ready (← latest) now

/-- What robots.txt says before the fetch; a result ends the task. -/
def robotsGate (ready : Ready) : HandlerAct (Option TaskResult) :=
  match ready.target.kind with
  | .robots => do
    let snapshot ← HandlerAct.world (.snapshot ready.sourceId ready.target.url) rfl
    return if snapshot.any (·.fresh ready.now h.robotsTtl) then some .success else none
  | .page => if ready.policy.robotsPolicy = "respect" then enforceRobots tools h task ready else pure none
  | _ => pure none

/-- The sessions before the fetch: what it may go on with, or the result. -/
def prepare (sourceId : Uuid) (target : Target) : HandlerAct (TaskResult ⊕ Ready) := do
  match ← transact (.preflight sourceId target.routeId) with
  | .preflight (some p) =>
    let validators ← HandlerAct.world (.validators sourceId target.url) rfl
    let now ← clock
    match refused p now, p.policy with
    | none, some policy => return .inr ⟨sourceId, target, p, policy, validators, now⟩
    | some result, _ => .inl <$> result
    | none, none => .inl <$> permanent "source_policy_missing"
  | _ =>
    let _ ← clock
    .inl <$> permanent "fetch_preflight_missing"

/-- `handle` up to the response. -/
def toResponse : HandlerAct (TaskResult ⊕ Ready × FetchResult) := do
  match task.sourceId, target tools task.args with
  | none, _ => .inl <$> permanent "fetch_source_missing"
  | some _, .error text => .inl <$> permanent "fetch_args_invalid" (some text)
  | some sourceId, .ok target =>
    match ← prepare sourceId target with
    | .inl result => return .inl result
    | .inr ready =>
      match ← robotsGate tools h task ready with
      | some result => return .inl result
      | none =>
        let fetched ← fetchWith tools.toFetchTools h.fetcher {
          url := ready.target.url, requestKind := ready.target.kind, jobId := some task.jobId
          ifNoneMatch := ready.validators.bind Validators.etag
          ifModifiedSince := ready.validators.bind Validators.lastModified }
        return .inr (ready, fetched)

/-- `handle` from the response on. -/
def settle (ready : Ready) (fetched : FetchResult) : HandlerAct TaskResult := do
  match fetched.denied with
  | some d => permitDenied d ready.now (orText fetched.decision.errorCode "permit_denied")
  | none =>
    match storable fetched with
    | some body =>
      match ← storeOrDefer tools h task ready.target.routeId ready.target.url fetched body
          (ready.target.kind ≠ .robots) (robotsVariant ready.target.kind) ready.now "upload_claim_busy" with
      | some result => return result
      | none => taskResult fetched ready.now
    | none =>
      record h {
        task, routeRevision := ready.preflight.routeRevision, routeId := ready.target.routeId
        requestedUrl := ready.target.url, fetched, browserAllowed := ready.policy.browserAllowed
        browserRouteAllowed := decide (ready.preflight.routeKind ∈ browserRouteKinds)
        requestVariant := robotsVariant ready.target.kind }
      taskResult fetched ready.now

/-- `FetchHandler.handle`. -/
def handle : HandlerAct TaskResult := do
  match ← toResponse tools h task with
  | .inl result => return result
  | .inr (ready, fetched) => settle tools h task ready fetched

end

/-- `timedelta(seconds=n)`, which has no more than 999999999 days. -/
def timedeltaSeconds (n : Int) : Option Time :=
  if -999999999 ≤ n / 86400 ∧ n / 86400 ≤ 999999999 then some (seconds n) else none

/-- `create_fetch_handler`; `none` when it raises. -/
def createFetchHandler (tools : HandlerTools) (defaultUserAgent owner : String)
    (env : String → Option String) : Option FetchHandler := do
  let config ← FetchConfig.fromEnv tools.parseInt defaultUserAgent env
  let ttl ← (envInt tools.parseInt env "COLLECTOR_ROBOTS_TTL_SECONDS" 86400).bind timedeltaSeconds
  return {
    owner, fetcher := .make config, rawBucket := (env "COLLECTOR_RAW_BUCKET").getD "raw"
    robotsTtl := ttl, userAgent := config.userAgent }

end Collector.Fetch
