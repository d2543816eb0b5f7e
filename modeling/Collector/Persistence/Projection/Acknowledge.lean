import Collector.Persistence.Projection.Parse
import Collector.Persistence.Projection.Tasks

/-!
Step 4 of the flow: the receipt of the projector is recorded once per task, the confirmed
version of the entity moves up, the task succeeds, and a receipt that changed the current state
leaves its event in the change log and in the outbox, byte for byte.
-/

namespace Collector.Persistence.Projection
open Collector.Lib

variable {codec : Codec}

def ReceiptFields.acknowledgement (receipt : ReceiptFields) (now : Time) :
    ProjectionAcknowledgement where
  taskId := receipt.projectionTaskId
  entityUuid := receipt.entityUuid
  projectionVersion := receipt.projectionVersion
  receiptId := receipt.projectionTaskId
  receiptClusterTime := receipt.clusterTime
  mongoDocumentId := receipt.documentId
  appliedToCurrent := receipt.appliedToCurrent
  stateChanged := receipt.stateChanged
  resultVersion := receipt.resultVersion
  resultHash := receipt.resultHash
  previousHash := receipt.previousHash
  eventId := receipt.eventId
  eventSha256 := receipt.recordedSha256
  acknowledgedAt := now
  createdAt := now

/-- `_require_same_receipt`: the recorded fields that disagree, sorted by name. -/
def ProjectionAcknowledgement.differs (existing : ProjectionAcknowledgement)
    (receipt : ReceiptFields) : List String :=
  (if existing.appliedToCurrent = receipt.appliedToCurrent then [] else ["applied_to_current"]) ++
  (if existing.entityUuid = receipt.entityUuid then [] else ["entity_uuid"]) ++
  (if existing.eventId = receipt.eventId then [] else ["event_id"]) ++
  (if existing.eventSha256 = receipt.recordedSha256 then [] else ["event_sha256"]) ++
  (if existing.mongoDocumentId = receipt.documentId then [] else ["mongo_document_id"]) ++
  (if existing.previousHash = receipt.previousHash then [] else ["previous_hash"]) ++
  (if existing.projectionVersion = receipt.projectionVersion then [] else ["projection_version"]) ++
  (if existing.receiptClusterTime = receipt.clusterTime then [] else ["receipt_cluster_time"]) ++
  (if existing.resultHash = receipt.resultHash then [] else ["result_hash"]) ++
  (if existing.resultVersion = receipt.resultVersion then [] else ["result_version"]) ++
  (if existing.stateChanged = receipt.stateChanged then [] else ["state_changed"])

/-- The metadata of the event: what the caller passed, or what the inline bytes decode to. -/
def eventDescriptor (codec : Codec) (receipt : ReceiptFields) (event : Option DomainChangedEvent) :
    Except PersistenceError DomainChangedEvent :=
  match event, receipt.eventBytes with
  | some event, _ => .ok event
  | none, some bytes => require (codec.decodeEvent bytes) (.valueError "event_bytes")
  | none, none => .error (.conflict receipt.projectionTaskId ["event"])

def ReceiptFields.changeEvent (receipt : ReceiptFields) (descriptor : DomainChangedEvent)
    (eventSha256 mediaType : String) (changeEventId : Uuid) (now : Time) : ChangeEvent where
  changeEventId := changeEventId
  eventId := descriptor.eventId
  aggregateId := receipt.entityUuid
  aggregateVersion := receipt.projectionVersion
  eventType := descriptor.eventType
  payloadSchemaVersion := descriptor.payloadSchemaVersion
  projectionTaskId := receipt.projectionTaskId
  previousStateHash := receipt.previousHash
  resultStateHash := receipt.resultHash
  eventBytes := receipt.eventBytes
  eventMediaType := mediaType
  eventSha256 := eventSha256
  eventArtifactUri := receipt.eventArtifact.map ArtifactRef.uri
  eventArtifactSizeBytes := receipt.eventArtifact.map ArtifactRef.sizeBytes
  occurredAt := receipt.committedAt
  createdAt := now

def ReceiptFields.domainEvent (receipt : ReceiptFields) (descriptor : DomainChangedEvent)
    (eventSha256 mediaType : String) (outboxId : Uuid) (now : Time) : OutboxEvent where
  outboxId := outboxId
  eventId := descriptor.eventId
  topic := .domain
  eventType := descriptor.eventType
  aggregateId := receipt.entityUuid
  aggregateVersion := receipt.projectionVersion
  payloadSchemaVersion := descriptor.payloadSchemaVersion
  payloadBytes := receipt.eventBytes
  payloadMediaType := mediaType
  payloadSha256 := eventSha256
  payloadArtifactUri := receipt.eventArtifact.map ArtifactRef.uri
  availableAt := now
  publishedAt := none
  parkedAt := none
  attempts := 0
  deliveryAttempts := 0
  lastErrorCode := none
  lastErrorMessage := none
  createdAt := now
  updatedAt := now

/-- `INSERT INTO change_events` under its unique `event_id`. -/
def insertChangeEvent (db : Db) (row : ChangeEvent) : Except PersistenceError Db := do
  ensure (row.admissible && db.changeEvents.rows.all fun known => known.eventId ≠ row.eventId)
    (.integrityError "change_events")
  return { db with
    changeEvents := db.changeEvents.insert row
    issued := row.changeEventId :: db.issued }

/-- The identifiers that `new_entity_id` draws for one acknowledgement. -/
structure EventDraws where
  changeEvent : Uuid
  outbox : Uuid
  deriving DecidableEq

/-- `_domain_changed_rows` and their insertion. -/
def insertDomainChanged (codec : Codec) (db : Db) (receipt : ReceiptFields)
    (event : Option DomainChangedEvent) (draws : EventDraws) (now : Time) :
    Except PersistenceError ((ChangeEvent × OutboxEvent) × Db) := do
  let descriptor ← eventDescriptor codec receipt event
  ensure (receipt.eventId.all fun eventId => descriptor.eventId = eventId)
    (.conflict receipt.projectionTaskId ["event_id"])
  let eventSha256 ← require receipt.recordedSha256
    (.conflict receipt.projectionTaskId ["event_sha256"])
  let mediaType ← require receipt.mediaType (.conflict receipt.projectionTaskId ["event_media_type"])
  let change := receipt.changeEvent descriptor eventSha256 mediaType
    (newEntityId db.issued draws.changeEvent) now
  let db ← insertChangeEvent db change
  let outboxEvent := receipt.domainEvent descriptor eventSha256 mediaType
    (newEntityId db.issued draws.outbox) now
  let db ← insertOutbox db outboxEvent
  return ((change, outboxEvent), db)

structure AcknowledgeResult where
  acknowledgement : ProjectionAcknowledgement
  confirmedProjectionVersion : Int
  changeEvent : Option ChangeEvent
  outboxEvent : Option OutboxEvent
  created : Bool
  deriving DecidableEq

/-- The task an acknowledgement is for: under its owner's lease, or any for the reconciler. -/
def lockTask (db : Db) (taskId : Uuid) (owner : Option String) :
    Except PersistenceError ProjectionTask :=
  match owner with
  | some owner => lockOwned db taskId owner
  | none => require (db.tasks.find? taskId) (.notFound "projection_tasks" taskId)

/-- `GREATEST` on the confirmed version; the Mongo columns keep their first value. -/
def EntityIndex.confirm (entity : EntityIndex) (receipt : ReceiptFields) (now : Time) :
    EntityIndex :=
  { entity with
    confirmedProjectionVersion := max entity.confirmedProjectionVersion receipt.projectionVersion
    confirmedAt := some now
    mongoCollection := entity.mongoCollection.or (some receipt.targetCollection)
    mongoDocumentId := entity.mongoDocumentId.or (some receipt.documentId)
    updatedAt := now }

def ProjectionTask.succeed (task : ProjectionTask) (now : Time) : ProjectionTask :=
  { task with
    status := .succeeded
    leaseOwner := none
    leaseExpiresAt := none
    finishedAt := some now
    updatedAt := now }

/-- The writes of a first acknowledgement. -/
def recordReceipt (codec : Codec) (db : Db) (task : ProjectionTask) (receipt : ReceiptFields)
    (event : Option DomainChangedEvent) (draws : EventDraws) (now : Time) :
    Except PersistenceError (AcknowledgeResult × Db) := do
  let ack := receipt.acknowledgement now
  let entity ← require (db.entityIndex.find? receipt.entityUuid)
    (.notFound "entity_index" receipt.entityUuid)
  let entity := entity.confirm receipt now
  ensure entity.admissible (.integrityError "entity_index")
  let task := task.succeed now
  ensure task.admissible (.integrityError "projection_tasks")
  let db := { db with
    acknowledgements := db.acknowledgements.insert ack
    entityIndex := db.entityIndex.put entity
    tasks := db.tasks.put task }
  if receipt.shouldEmitDomainChanged then
    let ((change, outboxEvent), db) ← insertDomainChanged codec db receipt event draws now
    return (⟨ack, entity.confirmedProjectionVersion, some change, some outboxEvent, true⟩, db)
  else
    return (⟨ack, entity.confirmedProjectionVersion, none, none, true⟩, db)

def acknowledgeProjection (db : Db) (taskId : Uuid) (receipt : AppliedProjectionReceipt codec)
    (event : Option DomainChangedEvent) (owner : Option String) (draws : EventDraws) (now : Time) :
    Except PersistenceError (AcknowledgeResult × Db) := do
  ensure (decide (receipt.projectionTaskId = taskId)) (.conflict taskId ["projection_task_id"])
  let task ← lockTask db taskId owner
  ensure (decide (task.entityUuid = receipt.entityUuid) &&
    decide (task.projectionVersion = receipt.projectionVersion))
    (.conflict taskId ["entity_uuid", "projection_version"])
  ensure (receipt.acknowledgement now).admissible (.integrityError "projection_acknowledgements")
  match db.acknowledgements.find? taskId with
  | some existing => do
    ensure (existing.differs receipt.toReceiptFields).isEmpty
      (.conflict taskId (existing.differs receipt.toReceiptFields))
    let entity ← require (db.entityIndex.find? receipt.entityUuid)
      (.notFound "entity_index" receipt.entityUuid)
    return (⟨existing, entity.confirmedProjectionVersion, none, none, false⟩, db)
  | none => recordReceipt codec db task receipt.toReceiptFields event draws now

end Collector.Persistence.Projection
