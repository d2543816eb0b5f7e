import Collector.Contracts.Canonical
import Collector.Fetch.Client
import Collector.Lib.Table
import Collector.Persistence.AuditLog
import Collector.Persistence.Queue

/-!
What a fetch handler reads and writes in PostgreSQL: the preflight, the row of an attempt, the raw
object of a body, the state of the route and the job that goes on. Each of its transactions is
READ COMMITTED. Ids come from `new_entity_id`, which hands out none twice.
-/

namespace Collector.Fetch
open Collector.Lib Collector.Persistence
open Collector.Contracts (uuidText)

inductive SourceState where
  | enabled
  | paused
  | disabled
  | blockedAnonymous
  deriving DecidableEq, Repr

inductive RouteState where
  | healthy
  | degraded
  | circuitOpen
  | unsupported
  deriving DecidableEq, Repr

def RouteState.value : RouteState → String
  | .healthy => "healthy"
  | .degraded => "degraded"
  | .circuitOpen => "circuit_open"
  | .unsupported => "unsupported"

structure Source where
  id : Uuid
  state : SourceState
  currentPolicyVersionId : Option Uuid
  deriving DecidableEq, Repr

structure SourcePolicyVersion where
  id : Uuid
  robotsPolicy : String
  browserAllowed : Bool
  deriving DecidableEq, Repr

structure SourceRoute where
  id : Uuid
  sourceId : Uuid
  routeKind : String
  state : RouteState
  stateReason : Option String
  consecutiveFailures : Int
  circuitOpenUntil : Option Time
  lastSuccessAt : Option Time
  lastFailureAt : Option Time
  revision : Int
  updatedAt : Time
  deriving DecidableEq, Repr

/-- The columns of `source_routes` that are written here. -/
def SourceRoute.admissible (route : SourceRoute) : Bool :=
  fits 512 route.stateReason && inRange 32 route.consecutiveFailures && inRange 64 route.revision

structure FetchRecord where
  requestedUrl : String
  outcome : FetchOutcome
  fetchedAt : Time
  jobId : Option Uuid
  sourceId : Option Uuid
  finalUrl : Option String
  requestVariant : Option String
  httpMethod : String := "GET"
  httpStatus : Option Nat
  contentAccess : ContentAccess
  contentType : Option String
  contentEncoding : Option String
  etag : Option String
  lastModifiedRaw : Option String
  responseBytes : Option Int
  rawSha256 : Option String
  errorCode : Option String
  errorMessage : Option String
  deriving DecidableEq, Repr

/-- A row of `fetches`. -/
structure FetchRow extends FetchRecord where
  fetchId : Uuid
  createdAt : Time
  deriving DecidableEq, Repr

/-- The columns of `fetches` and their CHECK constraints. -/
def FetchRecord.admissible (record : FetchRecord) : Bool :=
  fits 64 record.requestVariant && fits 8 (some record.httpMethod) &&
    (record.httpStatus.all fun status => decide (100 ≤ status ∧ status ≤ 599)) &&
    fits 256 record.contentType && fits 64 record.contentEncoding && fits 512 record.etag &&
    fits 128 record.lastModifiedRaw && (record.responseBytes.all (inRange 64)) &&
    (record.rawSha256.all isSha256Hex) && fits 64 record.errorCode && fits 2048 record.errorMessage

structure RawObject where
  rawObjectId : Uuid
  sha256 : String
  objectKey : String
  uri : String
  sizeBytes : Int
  mediaType : String
  contentEncoding : Option String
  firstFetchId : Option Uuid
  firstSeenAt : Time
  deriving DecidableEq, Repr

def RawObject.admissible (raw : RawObject) : Bool :=
  isSha256Hex raw.sha256 && decide (0 ≤ raw.sizeBytes) && inRange 64 raw.sizeBytes &&
    fits 128 (some raw.mediaType) && fits 64 raw.contentEncoding

/-- `FetchPreflight`, as far as the handler reads it. -/
structure FetchPreflight where
  sourceState : SourceState
  policy : Option SourcePolicyVersion
  routeState : RouteState
  routeRevision : Int
  routeKind : String
  circuitOpenUntil : Option Time
  deriving DecidableEq, Repr

structure FetchDb where
  sources : Table Source.id
  policies : Table SourcePolicyVersion.id
  routes : Table SourceRoute.id
  fetches : List FetchRow
  rawObjects : List RawObject
  jobs : List Queue.CrawlJob
  audit : List AuditRow

/-- What a transaction of the handler locks: a route, or an entry of a unique index. -/
inductive FetchLock where
  | route (id : Uuid)
  | rawObject (sha256 : String)
  | job (idempotencyKey : String)
  deriving DecidableEq, Repr

inductive DbError where
  /-- `ValueError` about a parameter. -/
  | valueError (parameter : String)
  /-- `InvalidValueError`. -/
  | invalidValue (field : String)
  /-- A constraint or a column type refused the row. -/
  | integrityError (table : String)
  /-- `NotFoundError` of a route. -/
  | routeNotFound (id : Uuid)
  /-- `StaleRevisionError`. -/
  | staleRevision (id : Uuid) (expected actual : Int)
  deriving DecidableEq, Repr

abbrev FetchTxn := Txn FetchDb FetchLock DbError

/-- What the clock and the id generator give inside one transaction. -/
structure Drawn where
  fetchId : Uuid
  rawObjectId : Uuid
  auditId : Uuid
  jobId : Uuid
  fetchedAt : Time
  now : Time
  deriving DecidableEq, Repr

/-- `get_fetch_preflight`: one `SELECT`. -/
def getFetchPreflight (sourceId routeId : Uuid) : FetchTxn (Option FetchPreflight) := do
  let db ← .view
  return do
    let source ← db.sources.find? sourceId
    let route ← (db.routes.find? routeId).filter fun route => route.sourceId = sourceId
    return {
      sourceState := source.state
      policy := source.currentPolicyVersionId.bind db.policies.find?
      routeState := route.state, routeRevision := route.revision
      routeKind := route.routeKind, circuitOpenUntil := route.circuitOpenUntil }

/-- `record_fetch`. -/
def recordFetch (record : FetchRecord) (d : Drawn) : FetchTxn Unit := do
  .ensure record.admissible (.integrityError "fetches")
  .modify fun db => { db with
    fetches := db.fetches ++ [{ record with fetchId := d.fetchId, createdAt := d.now }] }

/-- `UPDATE source_routes … WHERE id = :id AND … RETURNING …` of one row. -/
def updateRoute (routeId : Uuid) (matching : SourceRoute → Bool) (change : SourceRoute → SourceRoute) :
    FetchTxn (Option SourceRoute) := do
  match ← .selectLocked .noKeyUpdate (.route routeId)
      (fun db => (db.routes.find? routeId).filter matching) with
  | none => return none
  | some route =>
    .ensure (change route).admissible (.integrityError "source_routes")
    .modify fun db => { db with routes := db.routes.put (change route) }
    return some (change route)

/-- The values of the `UPDATE` in `set_route_state`. -/
def SourceRoute.setState (state : RouteState) (reason : String) (circuitOpenUntil : Option Time) (now : Time)
    (route : SourceRoute) : SourceRoute :=
  { route with
    state, stateReason := some reason, circuitOpenUntil, revision := route.revision + 1, updatedAt := now }

/-- `isoformat` of a time that may be absent. -/
def auditTime (at_ : Option Time) : AuditValue := (at_.map AuditValue.time).getD .null

/-- `append_audit` about a route; it passes no idempotency key. -/
def auditRoute (auditId : Uuid) (now : Time) (routeId : Uuid) (actor action : String)
    (before after : List (String × AuditValue)) (requestId : Option String) : FetchTxn AuditRow :=
  appendAuditRow FetchDb.audit (fun row db => { db with audit := db.audit ++ [row] })
    (.integrityError "audit_log") {
      auditId, createdAt := now, actor, action, resourceType := "source_route"
      resourceId := uuidText routeId, beforeState := some before, afterState := some after, requestId
      idempotencyKey := none }

/-- `set_route_state`. -/
def setRouteState (routeId : Uuid) (state : RouteState) (expectedRevision : Int) (actor reason : String)
    (d : Drawn) (circuitOpenUntil : Option Time := none) (requestId : Option String := none) :
    FetchTxn SourceRoute := do
  .ensure (!blank (some actor)) (.invalidValue "actor")
  .ensure (!blank (some reason)) (.invalidValue "reason")
  let beforeState := ((← .view).routes.find? routeId).map SourceRoute.state
  match ← updateRoute routeId (fun route => route.revision = expectedRevision)
      (SourceRoute.setState state reason circuitOpenUntil d.now) with
  | some route =>
    let _ ← auditRoute d.auditId d.now routeId actor "source_route.set_state"
      [("state", (beforeState.map fun s => AuditValue.text s.value).getD .null),
        ("revision", .int expectedRevision)]
      [("state", .text route.state.value), ("revision", .int route.revision),
        ("circuit_open_until", auditTime circuitOpenUntil), ("reason", .text reason)] requestId
    return route
  | none =>
    match (← .view).routes.find? routeId with
    | none => .raise (.routeNotFound routeId)
    | some route => .raise (.staleRevision routeId expectedRevision route.revision)

/-- The values of the `UPDATE` in `reset_route_failures`. -/
def SourceRoute.resetFailures (now : Time) (route : SourceRoute) : SourceRoute :=
  { route with consecutiveFailures := 0, lastSuccessAt := some now, updatedAt := now }

/-- `reset_route_failures`. -/
def resetRouteFailures (routeId : Uuid) (now : Time) : FetchTxn RouteState := do
  match ← updateRoute routeId (fun _ => true) (SourceRoute.resetFailures now) with
  | none => .raise (.routeNotFound routeId)
  | some route => return route.state

/-- `enqueue`: the row with the key, old or new. -/
def enqueueJob (job : Queue.NewJob) (d : Drawn) : FetchTxn Unit := do
  let row := job.row d.jobId d.now
  .ensure row.admissible (.integrityError "crawl_jobs")
  .locked .update (.job job.idempotencyKey)
  if (← .view).jobs.any fun other => other.idempotencyKey = job.idempotencyKey then pure ()
  else .modify fun db => { db with jobs := db.jobs ++ [row] }

/-- `record_raw_object`. -/
def recordRawObject (raw : RawObject) : FetchTxn Unit := do
  .ensure raw.admissible (.integrityError "raw_objects")
  .locked .update (.rawObject raw.sha256)
  if (← .view).rawObjects.any fun other => other.sha256 = raw.sha256 then pure ()
  else .modify fun db => { db with rawObjects := db.rawObjects ++ [raw] }

/-- A value of the arguments of a job: a `str`, or something else with its `str()`. -/
inductive ArgValue where
  | text (text : String)
  | other (shown : String)
  deriving DecidableEq, Repr

def ArgValue.shown : ArgValue → String
  | .text s => s
  | .other s => s

structure Task where
  jobId : Uuid
  args : List (String × ArgValue)
  runId : Option Uuid
  sourceId : Option Uuid
  deriving DecidableEq, Repr

/-- `{**args, key: value}`. -/
def setArg (args : List (String × ArgValue)) (key : String) (value : ArgValue) : List (String × ArgValue) :=
  if args.any fun entry => entry.1 = key then
    args.map fun entry => if entry.1 = key then (key, value) else entry
  else args ++ [(key, value)]

/-- `_fetch_record`. -/
def fetchRecord (task : Task) (requestedUrl : String) (fetched : FetchResult) (fetchedAt : Time)
    (rawSha256 requestVariant : Option String := none) : FetchRecord where
  requestedUrl := requestedUrl
  outcome := fetched.decision.outcome
  fetchedAt := fetchedAt
  jobId := some task.jobId
  sourceId := task.sourceId
  finalUrl := fetched.finalUrl
  requestVariant := some ((requestVariant.filter (· ≠ "")).getD
    ((task.args.lookup "request_variant").getD (.text "http")).shown)
  httpStatus := fetched.status
  contentAccess := fetched.decision.contentAccess
  contentType := fetched.headers.lookup "content-type"
  contentEncoding := fetched.headers.lookup "content-encoding"
  etag := fetched.headers.lookup "etag"
  lastModifiedRaw := fetched.headers.lookup "last-modified"
  responseBytes := some fetched.decodedBytes
  rawSha256 := rawSha256
  errorCode := fetched.decision.errorCode
  errorMessage := fetched.decision.reason

/-- The parameters of `_record_without_raw`. -/
structure RecordArgs where
  task : Task
  routeRevision : Int
  routeId : Uuid
  requestedUrl : String
  fetched : FetchResult
  browserAllowed : Bool
  browserRouteAllowed : Bool := false
  requestVariant : Option String := none
  applyRouteEffects : Bool := true
  deriving DecidableEq, Repr

/-- The parameters of `_store_raw` and what the upload found out. -/
structure RawArgs where
  task : Task
  routeId : Uuid
  requestedUrl : String
  fetched : FetchResult
  sha256 : String
  objectKey : String
  uri : String
  size : Nat
  storedMediaType : Option String
  enqueueParse : Bool := true
  requestVariant : Option String := none
  deriving DecidableEq, Repr

/-- `f"browser:{task.job_id}"` and what goes with it. -/
def browserJob (argsText : List (String × ArgValue) → String) (task : Task) : Queue.NewJob where
  jobType := "browser.render"
  idempotencyKey := "browser:" ++ uuidText task.jobId
  args := argsText (setArg task.args "request_variant" (.text "browser"))
  maxAttempts := 2
  runId := task.runId
  sourceId := task.sourceId

def parseJob (argsText : List (String × ArgValue) → String) (a : RawArgs) (fetchId : Uuid) : Queue.NewJob where
  jobType := "parse.raw"
  idempotencyKey := "parse:" ++ uuidText fetchId
  args := argsText [("fetch_id", .text (uuidText fetchId)), ("raw_sha256", .text a.sha256),
    ("raw_uri", .text a.uri), ("route_id", .text (uuidText a.routeId))]
  maxAttempts := 4
  runId := a.task.runId
  sourceId := a.task.sourceId

section
variable (argsText : List (String × ArgValue) → String)

/-- The branch of an incident: the route is closed to fetches, and a browser may try. -/
def openCircuit (owner : String) (a : RecordArgs) (d : Drawn) : FetchTxn Unit := do
  let _ ← setRouteState a.routeId .circuitOpen a.routeRevision owner
    ((a.fetched.decision.errorCode.filter (· ≠ "")).getD "route_incident") d
  if a.browserAllowed && a.browserRouteAllowed then enqueueJob (browserJob argsText a.task) d else pure ()

/-- The transaction of `_record_without_raw`. -/
def recordWithoutRaw (owner : String) (a : RecordArgs) (d : Drawn) : FetchTxn Unit := do
  recordFetch (fetchRecord a.task a.requestedUrl a.fetched d.fetchedAt none a.requestVariant) d
  if a.fetched.decision.routeIncident && a.applyRouteEffects then openCircuit argsText owner a d
  else if a.fetched.decision.outcome = .success then
    let _ ← resetRouteFailures a.routeId d.now
    pure ()
  else pure ()

/-- `commit` inside `_store_raw`. -/
def commitRaw (a : RawArgs) (d : Drawn) : FetchTxn Unit := do
  recordFetch (fetchRecord a.task a.requestedUrl a.fetched d.fetchedAt (some a.sha256) a.requestVariant) d
  recordRawObject {
    rawObjectId := d.rawObjectId, sha256 := a.sha256, objectKey := a.objectKey, uri := a.uri
    sizeBytes := a.size
    mediaType := ((a.storedMediaType.filter (· ≠ "")).or (a.fetched.mediaType.filter (· ≠ ""))).getD
      "application/octet-stream"
    contentEncoding := a.fetched.headers.lookup "content-encoding"
    firstFetchId := some d.fetchId, firstSeenAt := d.now }
  if a.enqueueParse then enqueueJob (parseJob argsText a d.fetchId) d else pure ()
  let _ ← resetRouteFailures a.routeId d.now
  return

inductive FetchCall where
  | preflight (sourceId routeId : Uuid)
  | recordWithoutRaw (owner : String) (a : RecordArgs) (d : Drawn)
  | commitRaw (a : RawArgs) (d : Drawn)
  deriving DecidableEq, Repr

inductive FetchCallAnswer where
  | preflight (found : Option FetchPreflight)
  | done
  deriving DecidableEq, Repr

/-- The transactions of the handlers. -/
def fetchProgram : FetchCall → FetchTxn FetchCallAnswer
  | .preflight sourceId routeId => .preflight <$> getFetchPreflight sourceId routeId
  | .recordWithoutRaw owner a d => (fun _ => .done) <$> recordWithoutRaw argsText owner a d
  | .commitRaw a d => (fun _ => .done) <$> commitRaw argsText a d

end

end Collector.Fetch
