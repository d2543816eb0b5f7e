import Collector.Persistence.Projection.Acknowledge
import Collector.Persistence.Projection.Outbox

/-!
The calls of the projection flow as one machine: parsers, projectors, the reconciler,
publishers, operators and retention share the tables of one database.
-/

namespace Collector.Persistence.Projection
open Collector.Lib

/-- Each call carries the `now` its transaction resolved and the identifiers it drew. -/
inductive Call (codec : Codec) where
  | upsertEntity (identity : EntityIdentity) (draw : Uuid) (now : Time)
  | recordParseResult (attempt : ParseAttemptRecord) (ref : NormalizedArtifactRef)
      (options : TaskOptions) (draws : ParseDraws) (now : Time)
  | recordParseFailure (attempt : ParseAttemptRecord) (draw : Uuid) (now : Time)
  | claimProjectionTasks (worker : String) (leaseSeconds : Int)
      (targetCollections : Option (List String)) (limit : Int) (skip : List Uuid) (now : Time)
  | heartbeatProjectionTask (taskId : Uuid) (owner : String) (leaseSeconds : Int) (now : Time)
  | retryProjectionTask (taskId : Uuid) (owner errorCode : String) (errorMessage : Option String)
      (policy : Backoff) (notBefore : Option Time) (now : Time)
  | releaseProjectionTask (taskId : Uuid) (owner : String) (notBefore : Option Time) (now : Time)
  | quarantineProjectionTask (taskId : Uuid) (errorCode : String) (errorMessage : Option String)
      (now : Time)
  | recoverExpiredProjectionLeases (limit : Int) (skip : List Uuid) (now : Time)
  | acknowledgeProjection (taskId : Uuid) (receipt : AppliedProjectionReceipt codec)
      (event : Option DomainChangedEvent) (owner : Option String) (draws : EventDraws) (now : Time)
  | fetchUnpublished (topics : List Topic) (limit visibilitySeconds maxDeliveryAttempts : Int)
      (skip : List Uuid) (now : Time)
  | markPublished (outboxIds : List Uuid) (now : Time)
  | markFailed (outboxId : Uuid) (errorCode : String) (errorMessage : Option String)
      (policy : Backoff) (maxAttempts : Int) (now : Time)
  | unpark (outboxId : Uuid) (actor reason : String) (requestId : Option String) (now : Time)
  | purgePublished (olderThan : Time) (after : Option Uuid) (limit : Int) (skip : List Uuid)
      (now : Time)

def Call.now {codec : Codec} : Call codec → Time
  | .upsertEntity _ _ now | .recordParseResult _ _ _ _ now | .recordParseFailure _ _ now
  | .claimProjectionTasks _ _ _ _ _ now | .heartbeatProjectionTask _ _ _ now
  | .retryProjectionTask _ _ _ _ _ _ now | .releaseProjectionTask _ _ _ now
  | .quarantineProjectionTask _ _ _ now | .recoverExpiredProjectionLeases _ _ now
  | .acknowledgeProjection _ _ _ _ _ now | .fetchUnpublished _ _ _ _ _ now
  | .markPublished _ now | .markFailed _ _ _ _ _ now | .unpark _ _ _ _ now
  | .purgePublished _ _ _ _ now => now

inductive Answer where
  | entity (entity : EntityIndex)
  | parsed (result : ParseResult)
  | parseAttempt (row : ParseAttempt)
  | tasks (tasks : List ProjectionTask)
  | expires (instant : Time)
  | task (task : ProjectionTask)
  | ids (ids : List Uuid)
  | acknowledged (result : AcknowledgeResult)
  | events (events : List OutboxEvent)
  | count (rows : Nat)
  | event (event : OutboxEvent)
  | purged (result : PurgeResult)
  deriving DecidableEq

abbrev Event (codec : Codec) := Entry (Call codec) Answer PersistenceError

def machine (codec : Codec) : Machine Db (Call codec) Answer PersistenceError where
  exec
    | .upsertEntity identity draw now, db => answer .entity (upsertEntity db identity draw now)
    | .recordParseResult attempt ref options draws now, db =>
      answer .parsed (recordParseResult codec db attempt ref options draws now)
    | .recordParseFailure attempt draw now, db =>
      answer .parseAttempt (recordParseFailure db attempt draw now)
    | .claimProjectionTasks worker leaseSeconds targetCollections limit skip now, db =>
      answer .tasks
        (claimProjectionTasks db worker leaseSeconds targetCollections limit skip now)
    | .heartbeatProjectionTask taskId owner leaseSeconds now, db =>
      answer .expires (heartbeatProjectionTask db taskId owner leaseSeconds now)
    | .retryProjectionTask taskId owner errorCode errorMessage policy notBefore now, db =>
      answer .task
        (retryProjectionTask db taskId owner errorCode errorMessage policy notBefore now)
    | .releaseProjectionTask taskId owner notBefore now, db =>
      answer .task (releaseProjectionTask db taskId owner notBefore now)
    | .quarantineProjectionTask taskId errorCode errorMessage now, db =>
      answer .task (quarantineProjectionTask db taskId errorCode errorMessage now)
    | .recoverExpiredProjectionLeases limit skip now, db =>
      answer .ids (recoverExpiredProjectionLeases db limit skip now)
    | .acknowledgeProjection taskId receipt event owner draws now, db =>
      answer .acknowledged (acknowledgeProjection db taskId receipt event owner draws now)
    | .fetchUnpublished topics limit visibilitySeconds maxDeliveryAttempts skip now, db =>
      answer .events
        (fetchUnpublished db topics limit visibilitySeconds maxDeliveryAttempts skip now)
    | .markPublished outboxIds now, db => answer .count (markPublished db outboxIds now)
    | .markFailed outboxId errorCode errorMessage policy maxAttempts now, db =>
      answer .event (markFailed db outboxId errorCode errorMessage policy maxAttempts now)
    | .unpark outboxId actor reason requestId now, db =>
      answer .event (unpark db outboxId actor reason requestId now)
    | .purgePublished olderThan after limit skip now, db =>
      answer .purged (purgePublished db olderThan after limit skip now)

/-! One listing, parsed from two fetches, for the runs that show a theorem at work. -/
namespace Sample

def id (n : Nat) : Uuid := 0x01890000000070008000000000000000 + n

/-- 2023-11-14T22:13:20Z. -/
def now : Time := 1700000000000000

def hash (digit : Char) : String := String.ofList (List.replicate 64 digit)

def identity : EntityIdentity where
  sourceId := "auto"
  sourceItemId := "1"
  domain := .vehicle
  entityKind := .vehicleListing

def ref (n : Nat) : NormalizedArtifactRef where
  uri := "s3://normalized/" ++ hash (if n = 1 then 'b' else 'c')
  sha256 := hash (if n = 1 then 'b' else 'c')
  sizeBytes := 2
  mediaType := "application/json"
  schemaVersion := "1.0"
  entityUuid := id 1
  domain := .vehicle
  parserVersion := "p1"
  fetchId := id (0x10 + n)
  rawSha256 := hash 'a'
  rawUri := "s3://raw/page"
  producedAt := now

def command (n : Nat) : ProjectionCommand where
  taskId := id (0x20 + n)
  entityUuid := id 1
  projectionVersion := n
  targetCollection := "vehicles"
  targetSchemaVersion := "1.0"
  artifact := ref n
  priority := 0
  notBefore := some now
  issuedAt := now

/-- The canonical JSON of such a command. -/
def json (command : ProjectionCommand) : Bytes :=
  ["\x7b\"artifact\":\x7b\"domain\":\"vehicle\",\"entity_uuid\":\"",
    uuidText command.artifact.entityUuid, "\",\"fetch_id\":\"", uuidText command.artifact.fetchId,
    "\",\"media_type\":\"application/json\",\"parser_version\":\"p1\",",
    "\"produced_at\":\"2023-11-14T22:13:20.000000Z\",\"raw_sha256\":\"",
    command.artifact.rawSha256,
    "\",\"raw_uri\":\"s3://raw/page\",\"schema_version\":\"1.0\",\"sha256\":\"",
    command.artifact.sha256, "\",\"size_bytes\":2,\"uri\":\"", command.artifact.uri,
    "\"\x7d,\"entity_uuid\":\"", uuidText command.entityUuid,
    "\",\"issued_at\":\"2023-11-14T22:13:20.000000Z\",",
    "\"not_before\":\"2023-11-14T22:13:20.000000Z\",\"priority\":0,\"projection_version\":",
    toString command.projectionVersion,
    ",\"schema_version\":\"1.0\",\"target_collection\":\"vehicles\",",
    "\"target_schema_version\":\"1.0\",\"task_id\":\"", uuidText command.taskId,
    "\"\x7d"].flatMap utf8

def key (n : Nat) : Bytes :=
  utf8 ("\x1f".intercalate [uuidText (id (0x10 + n)), hash 'a', "p1", uuidText (id 1), "vehicles"])

/-- The documents that are hashed, with their SHA-256. -/
def digests : List (Bytes × String) := [
  (key 1, "11d782d71911b20470eb2a6517a60ad17fd3a325eb0c5040caafe9ab0b375d39"),
  (key 2, "9296fcf35c094e9fe7ad8e6d1e784ba693fd75cdf51df2e98aebfa1261ac7c0a"),
  (json (command 1), "f02cb2da16c294d9661dd681eb3477434ba2bf537165fdf6a7b3b94b5cbd4d6a"),
  (json (command 2), "06db902663ac77e8135b8b1d5b5692f4106600a28ed0d968d236917d00573263")]

/-- SHA-256 and JSON on these documents; the events are artifacts, so none is decoded. -/
def codec : Codec where
  sha256Hex bytes := ((digests.find? fun digest => digest.1 = bytes).map Prod.snd).getD ""
  canonicalJsonBytes := json
  decodeEvent _ := none

def register {c : Codec} : Call c := .upsertEntity identity (id 1) now

def parse {c : Codec} (n : Nat) : Call c :=
  .recordParseResult
    { rawSha256 := hash 'a', parserVersion := "p1", outcome := "succeeded", domain := "vehicle",
      fetchId := some (id (0x10 + n)) }
    (ref n)
    { objectKey := "normalized/" ++ (ref n).sha256, targetCollection := "vehicles",
      targetSchemaVersion := "1.0" }
    ⟨id (0x30 + n), id (0x40 + n), id (0x20 + n), id (0x50 + n)⟩ now

def event (n : Nat) : DomainChangedEvent :=
  ⟨id (0x60 + n), id 1, n, "vehicle.listing.changed", "1.0"⟩

def receipt (n : Nat) : ReceiptFields where
  projectionTaskId := id (0x20 + n)
  entityUuid := id 1
  projectionVersion := n
  targetCollection := "vehicles"
  documentId := id 1
  appliedToCurrent := true
  stateChanged := true
  resultVersion := n
  resultHash := "v1:" ++ hash 'd'
  eventId := some (id (0x60 + n))
  eventArtifact := some ⟨"s3://events/" ++ hash 'e', hash 'e', 2,
    "application/vnd.ua-collector.domain-changed.v1+json"⟩
  committedAt := now
  clusterTime := "7300000000:1"

def firstReceipt : AppliedProjectionReceipt codec := ⟨receipt 1, by decide +kernel⟩

def secondReceipt : AppliedProjectionReceipt codec := ⟨receipt 2, by decide +kernel⟩

def acknowledge {c : Codec} (receipt : AppliedProjectionReceipt c)
    (event : Option DomainChangedEvent) (owner : Option String) : Call c :=
  .acknowledgeProjection receipt.projectionTaskId receipt event owner ⟨id 0x71, id 0x81⟩ now

/-- The listing is registered and its first page parsed. -/
def parsed : List (Event codec) × Db := (machine codec).replay Db.empty [register, parse 1]

theorem run_parsed : (machine codec).Run Db.empty parsed.1 parsed.2 :=
  (machine codec).run_replay Db.empty [register, parse 1]

end Sample

end Collector.Persistence.Projection
