import Collector.Lib.Table
import Collector.Persistence.Core

/-!
The tables of the projection flow and the contracts that cross it: `entity_index`,
`parse_attempts`, `normalized_artifacts`, `projection_tasks`, `projection_acknowledgements`,
`change_events` and `outbox_events`. Each row type comes with the CHECK constraints and column
types of its table.
-/

namespace Collector.Persistence.Projection
open Collector.Lib

inductive DataDomain where
  | news
  | vehicle
  | catalog
  deriving DecidableEq

def DataDomain.value : DataDomain → String
  | .news => "news"
  | .vehicle => "vehicle"
  | .catalog => "catalog"

/-- `enum_check("domain", DataDomain)` on a text column. -/
def isDomain (text : String) : Bool :=
  decide (text ∈ [DataDomain.news, .vehicle, .catalog].map DataDomain.value)

inductive EntityKind where
  | catalogItem
  | catalogOffer
  | vehicleListing
  | seller
  deriving DecidableEq

structure EntityIdentity where
  sourceId : String
  sourceItemId : String
  domain : DataDomain
  entityKind : EntityKind
  identityHash : Option String := none
  canonicalUrl : Option String := none
  deriving DecidableEq

structure EntityIndex where
  entityUuid : Uuid
  domain : DataDomain
  entityKind : EntityKind
  sourceId : String
  sourceItemId : String
  identityHash : Option String
  canonicalUrl : Option String
  mongoCollection : Option String
  mongoDocumentId : Option Uuid
  projectionVersion : Int
  confirmedProjectionVersion : Int
  confirmedAt : Option Time
  createdAt : Time
  updatedAt : Time
  deriving DecidableEq

def EntityIndex.admissible (entity : EntityIndex) : Bool :=
  decide (0 ≤ entity.confirmedProjectionVersion ∧ 0 ≤ entity.projectionVersion ∧
    entity.confirmedProjectionVersion ≤ entity.projectionVersion) &&
  inRange 64 entity.projectionVersion &&
  fits 128 (some entity.sourceId) && fits 512 (some entity.sourceItemId) &&
  fits 80 entity.identityHash && fits 120 entity.mongoCollection

structure ParseAttemptRecord where
  rawSha256 : String
  parserVersion : String
  outcome : String
  domain : String
  fetchId : Option Uuid := none
  jobId : Option Uuid := none
  sourceId : Option Uuid := none
  recordsCount : Int := 0
  validationErrorsCount : Int := 0
  errorCode : Option String := none
  errorMessage : Option String := none
  startedAt : Option Time := none
  finishedAt : Option Time := none
  deriving DecidableEq

structure ParseAttempt where
  parseAttemptId : Uuid
  record : ParseAttemptRecord
  createdAt : Time
  deriving DecidableEq

/-- `PARSE_OUTCOMES`. -/
def parseOutcomes : List String := ["succeeded", "partial", "failed", "skipped"]

def ParseAttempt.admissible (row : ParseAttempt) : Bool :=
  decide (row.record.outcome ∈ parseOutcomes) && isDomain row.record.domain &&
  decide (0 ≤ row.record.recordsCount ∧ 0 ≤ row.record.validationErrorsCount) &&
  inRange 32 row.record.recordsCount && inRange 32 row.record.validationErrorsCount &&
  fits 64 (some row.record.rawSha256) && fits 64 (some row.record.parserVersion) &&
  fits 64 row.record.errorCode && fits 2048 row.record.errorMessage

structure NormalizedArtifactRef where
  uri : String
  sha256 : String
  sizeBytes : Int
  mediaType : String
  schemaVersion : String
  entityUuid : Uuid
  domain : DataDomain
  parserVersion : String
  fetchId : Uuid
  rawSha256 : String
  rawUri : String
  producedAt : Time
  deriving DecidableEq

structure NormalizedArtifact where
  artifactId : Uuid
  objectKey : String
  ref : NormalizedArtifactRef
  parseAttemptId : Option Uuid
  createdAt : Time
  deriving DecidableEq

def NormalizedArtifact.admissible (row : NormalizedArtifact) : Bool :=
  isSha256Hex row.ref.sha256 && isSha256Hex row.ref.rawSha256 && decide (0 ≤ row.ref.sizeBytes) &&
  inRange 64 row.ref.sizeBytes && fits 128 (some row.ref.mediaType) &&
  fits 16 (some row.ref.schemaVersion) && fits 64 (some row.ref.parserVersion)

structure ProjectionTask where
  taskId : Uuid
  artifactId : Uuid
  entityUuid : Uuid
  parseAttemptId : Option Uuid
  parseKey : String
  projectionVersion : Int
  targetCollection : String
  targetSchemaVersion : String
  status : JobStatus
  priority : Int
  attempt : Int
  maxAttempts : Int
  notBefore : Time
  leaseOwner : Option String
  leaseExpiresAt : Option Time
  leasedAt : Option Time
  finishedAt : Option Time
  lastErrorCode : Option String
  lastErrorMessage : Option String
  createdAt : Time
  updatedAt : Time
  deriving DecidableEq

def ProjectionTask.admissible (task : ProjectionTask) : Bool :=
  isSha256Hex task.parseKey && decide (1 ≤ task.projectionVersion) &&
  decide (0 ≤ task.attempt ∧ 1 ≤ task.maxAttempts) &&
  (decide (task.status = .leased) == (task.leaseOwner.isSome && task.leaseExpiresAt.isSome)) &&
  inRange 64 task.projectionVersion && inRange 16 task.priority && inRange 32 task.attempt &&
  inRange 32 task.maxAttempts && fits 120 (some task.targetCollection) &&
  fits 16 (some task.targetSchemaVersion) && fits 128 task.leaseOwner &&
  fits 64 task.lastErrorCode && fits 2048 task.lastErrorMessage

inductive Topic where
  | internal
  | domain
  deriving DecidableEq

structure OutboxEvent where
  outboxId : Uuid
  eventId : Uuid
  topic : Topic
  eventType : String
  aggregateId : Uuid
  aggregateVersion : Int
  payloadSchemaVersion : String
  payloadBytes : Option Bytes
  payloadMediaType : String
  payloadSha256 : String
  payloadArtifactUri : Option String
  availableAt : Time
  publishedAt : Option Time
  parkedAt : Option Time
  attempts : Int
  deliveryAttempts : Int
  lastErrorCode : Option String
  lastErrorMessage : Option String
  createdAt : Time
  updatedAt : Time
  deriving DecidableEq

/-- `INLINE_EVENT_LIMIT_BYTES`. -/
def inlineEventLimitBytes : Nat := 256 * 1024

def OutboxEvent.admissible (event : OutboxEvent) : Bool :=
  decide (0 ≤ event.attempts ∧ 0 ≤ event.deliveryAttempts) &&
  (event.payloadBytes.isNone != event.payloadArtifactUri.isNone) &&
  event.payloadBytes.all (fun bytes => decide (bytes.length ≤ inlineEventLimitBytes)) &&
  isSha256Hex event.payloadSha256 && inRange 64 event.aggregateVersion &&
  inRange 32 event.attempts && inRange 32 event.deliveryAttempts &&
  fits 128 (some event.eventType) && fits 16 (some event.payloadSchemaVersion) &&
  fits 128 (some event.payloadMediaType) && fits 64 event.lastErrorCode &&
  fits 2048 event.lastErrorMessage

structure ChangeEvent where
  changeEventId : Uuid
  eventId : Uuid
  aggregateId : Uuid
  aggregateVersion : Int
  eventType : String
  payloadSchemaVersion : String
  projectionTaskId : Uuid
  previousStateHash : Option String
  resultStateHash : String
  eventBytes : Option Bytes
  eventMediaType : String
  eventSha256 : String
  eventArtifactUri : Option String
  eventArtifactSizeBytes : Option Int
  occurredAt : Time
  createdAt : Time
  deriving DecidableEq

def ChangeEvent.admissible (event : ChangeEvent) : Bool :=
  decide (1 ≤ event.aggregateVersion) && (event.eventBytes.isNone != event.eventArtifactUri.isNone) &&
  event.eventBytes.all (fun bytes => decide (bytes.length ≤ inlineEventLimitBytes)) &&
  isSha256Hex event.eventSha256 && inRange 64 event.aggregateVersion &&
  event.eventArtifactSizeBytes.all (inRange 64) && fits 128 (some event.eventType) &&
  fits 16 (some event.payloadSchemaVersion) && fits 80 event.previousStateHash &&
  fits 80 (some event.resultStateHash) && fits 128 (some event.eventMediaType)

structure ProjectionAcknowledgement where
  taskId : Uuid
  entityUuid : Uuid
  projectionVersion : Int
  receiptId : Uuid
  receiptClusterTime : String
  mongoDocumentId : Uuid
  appliedToCurrent : Bool
  stateChanged : Bool
  resultVersion : Int
  resultHash : String
  previousHash : Option String
  eventId : Option Uuid
  eventSha256 : Option String
  acknowledgedAt : Time
  createdAt : Time
  deriving DecidableEq

/-- `^v[1-9][0-9]*:[0-9a-f]{64}$`. -/
def isStateHash (text : String) : Bool :=
  match text.toList with
  | 'v' :: first :: rest =>
    decide ('1' ≤ first ∧ first ≤ '9') &&
      match rest.dropWhile Char.isDigit with
      | ':' :: hash => isSha256Hex (String.ofList hash)
      | _ => false
  | _ => false

def ProjectionAcknowledgement.admissible (ack : ProjectionAcknowledgement) : Bool :=
  decide (1 ≤ ack.projectionVersion) && isStateHash ack.resultHash &&
  ack.eventSha256.all isSha256Hex && inRange 64 ack.projectionVersion &&
  inRange 64 ack.resultVersion && fits 64 (some ack.receiptClusterTime) &&
  fits 80 (some ack.resultHash) && fits 80 ack.previousHash

/-- The committed rows. `issued` records what `new_entity_id` has handed to committed rows; rows
of the outbox may go, their identifiers do not come back. -/
structure Db where
  entityIndex : Table EntityIndex.entityUuid
  parseAttempts : Table ParseAttempt.parseAttemptId
  normalizedArtifacts : Table NormalizedArtifact.artifactId
  tasks : Table ProjectionTask.taskId
  acknowledgements : Table ProjectionAcknowledgement.taskId
  changeEvents : Table ChangeEvent.changeEventId
  outbox : Table OutboxEvent.outboxId
  auditLog : List AuditEntry
  issued : List Uuid

def Db.empty : Db := ⟨∅, ∅, ∅, ∅, ∅, ∅, ∅, [], []⟩

end Collector.Persistence.Projection
