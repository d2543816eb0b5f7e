import Collector.Persistence.Projection.Contracts

/-!
Step 2 of the flow: an entity is registered, and a parse result issues the next projection
version of its entity together with the task and the command row of the outbox. Everything a
call writes is one transaction under the row lock of the entity.
-/

namespace Collector.Persistence.Projection
open Collector.Lib

def EntityIdentity.row (identity : EntityIdentity) (entityUuid : Uuid) (now : Time) :
    EntityIndex where
  entityUuid := entityUuid
  domain := identity.domain
  entityKind := identity.entityKind
  sourceId := identity.sourceId
  sourceItemId := identity.sourceItemId
  identityHash := identity.identityHash
  canonicalUrl := identity.canonicalUrl
  mongoCollection := none
  mongoDocumentId := none
  projectionVersion := 0
  confirmedProjectionVersion := 0
  confirmedAt := none
  createdAt := now
  updatedAt := now

def upsertEntity (db : Db) (identity : EntityIdentity) (draw : Uuid) (now : Time) :
    Except PersistenceError (EntityIndex × Db) := do
  let row := identity.row (newEntityId db.issued draw) now
  ensure row.admissible (.integrityError "entity_index")
  match db.entityIndex.rows.find? fun entity =>
      entity.sourceId = identity.sourceId ∧ entity.sourceItemId = identity.sourceItemId with
  | some existing => return (existing, db)
  | none =>
    return (row, { db with
      entityIndex := db.entityIndex.insert row
      issued := row.entityUuid :: db.issued })

/-- `SUCCESS_PARSE_OUTCOMES`. -/
def successParseOutcomes : List String := ["succeeded", "partial"]

/-- `FAILED_PARSE_OUTCOMES`. -/
def failedParseOutcomes : List String := ["failed", "skipped"]

def hexDigit (n : Nat) : Char :=
  if n < 10 then Char.ofNat ('0'.toNat + n) else Char.ofNat ('a'.toNat + (n - 10))

/-- `str(uuid)`: 32 hexadecimal digits in groups of 8, 4, 4, 4 and 12. -/
def uuidText (uuid : Uuid) : String :=
  let digits := (List.range 32).map fun i => hexDigit (uuid / 16 ^ (31 - i) % 16)
  let group (start length : Nat) := String.ofList ((digits.drop start).take length)
  "-".intercalate [group 0 8, group 8 4, group 12 4, group 16 4, group 20 12]

/-- Identity of a parse step; `\x1f` separates the parts. -/
def parseKey (codec : Codec) (fetchId : Uuid) (rawSha256 parserVersion : String)
    (entityUuid : Uuid) (targetCollection : String) : String :=
  codec.sha256Hex (utf8 ("\x1f".intercalate
    [uuidText fetchId, rawSha256, parserVersion, uuidText entityUuid, targetCollection]))

/-- `_require_consistent_lineage`. -/
def requireConsistentLineage (attempt : ParseAttemptRecord) (ref : NormalizedArtifactRef) :
    Except PersistenceError Unit := do
  let mismatched :=
    (if attempt.fetchId = some ref.fetchId then [] else ["fetch_id"]) ++
    (if attempt.rawSha256 = ref.rawSha256 then [] else ["raw_sha256"]) ++
    (if attempt.parserVersion = ref.parserVersion then [] else ["parser_version"]) ++
    (if attempt.domain = ref.domain.value then [] else ["domain"])
  ensure attempt.fetchId.isSome (.invalidValue ["attempt.fetch_id"])
  ensure mismatched.isEmpty (.invalidValue mismatched)

/-- `INSERT INTO parse_attempts`. -/
def insertParseAttempt (db : Db) (record : ParseAttemptRecord) (draw : Uuid) (now : Time) :
    Except PersistenceError (ParseAttempt × Db) := do
  let row : ParseAttempt := {
    parseAttemptId := newEntityId db.issued draw
    record := { record with finishedAt := some (record.finishedAt.getD now) }
    createdAt := now }
  ensure row.admissible (.integrityError "parse_attempts")
  return (row, { db with
    parseAttempts := db.parseAttempts.insert row
    issued := row.parseAttemptId :: db.issued })

def recordParseFailure (db : Db) (attempt : ParseAttemptRecord) (draw : Uuid) (now : Time) :
    Except PersistenceError (ParseAttempt × Db) := do
  ensure (decide (attempt.outcome ∈ failedParseOutcomes)) (.invalidValue ["outcome"])
  insertParseAttempt db
    { attempt with errorMessage := truncate attempt.errorMessage 2048 } draw now

/-- `_artifact_for`: the row of these bytes, new or found by one of the two unique keys. -/
def artifactFor (db : Db) (ref : NormalizedArtifactRef) (objectKey : String) (draw : Uuid)
    (now : Time) : Except PersistenceError (NormalizedArtifact × Db) := do
  let row : NormalizedArtifact := {
    artifactId := newEntityId db.issued draw
    objectKey := objectKey
    ref := ref
    parseAttemptId := none
    createdAt := now }
  ensure row.admissible (.integrityError "normalized_artifacts")
  let candidates := db.normalizedArtifacts.rows.filter fun known =>
    known.objectKey = objectKey ∨
      (known.ref.sha256 = ref.sha256 ∧ known.ref.entityUuid = ref.entityUuid)
  match candidates with
  | [] =>
    return (row, { db with
      normalizedArtifacts := db.normalizedArtifacts.insert row
      issued := row.artifactId :: db.issued })
  | first :: _ =>
    ensure (candidates.all fun known =>
      known.ref.entityUuid = ref.entityUuid ∧ known.ref.sha256 = ref.sha256)
      (.conflict ref.entityUuid ["object_key"])
    return (first, db)

/-- The lineage of the first parse that brought these bytes. -/
def linkArtifact (db : Db) (artifact : NormalizedArtifact) (parseAttemptId : Uuid) :
    NormalizedArtifact × Db :=
  match artifact.parseAttemptId with
  | some _ => (artifact, db)
  | none =>
    let linked := { artifact with parseAttemptId := some parseAttemptId }
    (linked, { db with normalizedArtifacts := db.normalizedArtifacts.put linked })

def taskByParseKey (db : Db) (key : String) : Option ProjectionTask :=
  db.tasks.rows.find? fun task => task.parseKey = key

def outboxByEventId (db : Db) (eventId : Uuid) : Option OutboxEvent :=
  db.outbox.rows.find? fun event => event.eventId = eventId

/-- The command of a task, as it is issued and as a repeated parse returns it. -/
def ProjectionTask.command (task : ProjectionTask) (ref : NormalizedArtifactRef) :
    ProjectionCommand where
  taskId := task.taskId
  entityUuid := task.entityUuid
  projectionVersion := task.projectionVersion
  targetCollection := task.targetCollection
  targetSchemaVersion := task.targetSchemaVersion
  artifact := ref
  priority := task.priority
  notBefore := some task.notBefore
  issuedAt := task.createdAt

/-- `PROJECTION_COMMAND_EVENT_TYPE`. -/
def projectionCommandEventType : String := "projection.command"

/-- `CANONICAL_JSON_MEDIA_TYPE`. -/
def canonicalJsonMediaType : String := "application/json; charset=utf-8"

/-- `_command_outbox_row`; the event of a command is its task. -/
def commandOutboxRow (codec : Codec) (command : ProjectionCommand) (outboxId : Uuid) (now : Time) :
    OutboxEvent where
  outboxId := outboxId
  eventId := command.taskId
  topic := .internal
  eventType := projectionCommandEventType
  aggregateId := command.entityUuid
  aggregateVersion := command.projectionVersion
  payloadSchemaVersion := command.schemaVersion
  payloadBytes := some (codec.canonicalJsonBytes command)
  payloadMediaType := canonicalJsonMediaType
  payloadSha256 := codec.sha256Hex (codec.canonicalJsonBytes command)
  payloadArtifactUri := none
  availableAt := command.notBefore.getD now
  publishedAt := none
  parkedAt := none
  attempts := 0
  deliveryAttempts := 0
  lastErrorCode := none
  lastErrorMessage := none
  createdAt := now
  updatedAt := now

/-- A row of the outbox under its unique `event_id`. -/
def insertOutbox (db : Db) (row : OutboxEvent) : Except PersistenceError Db := do
  ensure (row.admissible && (outboxByEventId db row.eventId).isNone)
    (.integrityError "outbox_events")
  return { db with
    outbox := db.outbox.insert row
    issued := row.outboxId :: db.issued }

structure ParseResult where
  parseAttempt : ParseAttempt
  artifact : NormalizedArtifact
  task : ProjectionTask
  command : ProjectionCommand
  outboxEvent : Option OutboxEvent
  created : Bool
  deriving DecidableEq

/-- What a caller of `record_parse_result` chooses for the task. -/
structure TaskOptions where
  objectKey : String
  targetCollection : String
  targetSchemaVersion : String
  priority : Int := 0
  maxAttempts : Int := 5
  notBefore : Option Time := none
  deriving DecidableEq

/-- The identifiers that `new_entity_id` draws for one parse result. -/
structure ParseDraws where
  artifact : Uuid
  parseAttempt : Uuid
  task : Uuid
  outbox : Uuid
  deriving DecidableEq

def TaskOptions.task (options : TaskOptions) (taskId artifactId parseAttemptId entityUuid : Uuid)
    (key : String) (version : Int) (now : Time) : ProjectionTask where
  taskId := taskId
  artifactId := artifactId
  entityUuid := entityUuid
  parseAttemptId := some parseAttemptId
  parseKey := key
  projectionVersion := version
  targetCollection := options.targetCollection
  targetSchemaVersion := options.targetSchemaVersion
  status := .pending
  priority := options.priority
  attempt := 0
  maxAttempts := options.maxAttempts
  notBefore := options.notBefore.getD now
  leaseOwner := none
  leaseExpiresAt := none
  leasedAt := none
  finishedAt := none
  lastErrorCode := none
  lastErrorMessage := none
  createdAt := now
  updatedAt := now

/-- `entity.projection_version + 1`, under the row lock. -/
def bumpVersion (db : Db) (entity : EntityIndex) (now : Time) :
    Except PersistenceError (EntityIndex × Db) := do
  let row := { entity with projectionVersion := entity.projectionVersion + 1, updatedAt := now }
  ensure row.admissible (.integrityError "entity_index")
  return (row, { db with entityIndex := db.entityIndex.put row })

/-- `INSERT INTO projection_tasks` under its two unique keys. -/
def insertTask (db : Db) (task : ProjectionTask) : Except PersistenceError Db := do
  ensure (task.admissible && (taskByParseKey db task.parseKey).isNone &&
    db.tasks.rows.all fun known => known.entityUuid ≠ task.entityUuid ∨
      known.projectionVersion ≠ task.projectionVersion) (.integrityError "projection_tasks")
  return { db with
    tasks := db.tasks.insert task
    issued := task.taskId :: db.issued }

/-- The rows that say where a projection input comes from. -/
def recordLineage (db : Db) (attempt : ParseAttemptRecord) (ref : NormalizedArtifactRef)
    (objectKey : String) (draws : ParseDraws) (now : Time) :
    Except PersistenceError ((ParseAttempt × NormalizedArtifact) × Db) := do
  let (found, db) ← artifactFor db ref objectKey draws.artifact now
  let (parseAttempt, db) ← insertParseAttempt db attempt draws.parseAttempt now
  let (artifact, db) := linkArtifact db found parseAttempt.parseAttemptId
  return ((parseAttempt, artifact), db)

/-- The writes of a parse result that is new. -/
def issueVersion (codec : Codec) (db : Db) (entity : EntityIndex) (key : String)
    (attempt : ParseAttemptRecord) (ref : NormalizedArtifactRef) (options : TaskOptions)
    (draws : ParseDraws) (now : Time) : Except PersistenceError (ParseResult × Db) := do
  let ((parseAttempt, artifact), db) ← recordLineage db attempt ref options.objectKey draws now
  let (entity, db) ← bumpVersion db entity now
  let task := options.task (newEntityId db.issued draws.task) artifact.artifactId
    parseAttempt.parseAttemptId entity.entityUuid key entity.projectionVersion now
  let db ← insertTask db task
  let command := task.command ref
  ensure command.valid (.valueError "projection_command")
  let event := commandOutboxRow codec command (newEntityId db.issued draws.outbox) now
  let db ← insertOutbox db event
  return ({
    parseAttempt := parseAttempt
    artifact := artifact
    task := task
    command := command
    outboxEvent := some event
    created := true }, db)

/-- `_is_acknowledged`. -/
def isAcknowledged (db : Db) (task : ProjectionTask) : Bool :=
  decide (task.status = .succeeded) && (db.acknowledgements.find? task.taskId).isSome

/-- `_existing_parse_result`: the repetition of a parse step reads what the first one wrote. -/
def existingParseResult (db : Db) (task : ProjectionTask) (ref : NormalizedArtifactRef) :
    Except PersistenceError ParseResult := do
  let artifact ← require (db.normalizedArtifacts.find? task.artifactId)
    (.notFound "normalized_artifacts" task.artifactId)
  ensure (decide (artifact.ref.sha256 = ref.sha256) && decide (task.entityUuid = ref.entityUuid))
    (.conflict task.taskId ["artifact"])
  let outboxEvent := outboxByEventId db task.taskId
  ensure (outboxEvent.isSome || isAcknowledged db task) (.conflict task.taskId ["outbox_event"])
  let parseAttempt ← require (task.parseAttemptId.bind db.parseAttempts.find?)
    (.conflict task.taskId ["parse_attempt"])
  let command := task.command ref
  ensure command.valid (.valueError "projection_command")
  return {
    parseAttempt := parseAttempt
    artifact := artifact
    task := task
    command := command
    outboxEvent := outboxEvent
    created := false }

def recordParseResult (codec : Codec) (db : Db) (attempt : ParseAttemptRecord)
    (ref : NormalizedArtifactRef) (options : TaskOptions) (draws : ParseDraws) (now : Time) :
    Except PersistenceError (ParseResult × Db) := do
  ensure (decide (attempt.outcome ∈ successParseOutcomes)) (.invalidValue ["outcome"])
  requireConsistentLineage attempt ref
  let entity ← require (db.entityIndex.find? ref.entityUuid)
    (.notFound "entity_index" ref.entityUuid)
  let key := parseKey codec ref.fetchId attempt.rawSha256 attempt.parserVersion ref.entityUuid
    options.targetCollection
  match taskByParseKey db key with
  | some task => do
    let result ← existingParseResult db task ref
    return (result, db)
  | none => issueVersion codec db entity key attempt ref options draws now

end Collector.Persistence.Projection
