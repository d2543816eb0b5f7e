import Collector.Persistence.Projection.TaskEffect

/-!
Everything a committed call can do to the tables, in eight kinds. An invariant of the flow is
proved once per kind and then holds after every run; no proof about runs unfolds a call.
-/

namespace Collector.Persistence.Projection
open Collector.Lib

/-- Every primary key in use was handed out by `new_entity_id`. -/
structure Issued (db : Db) : Prop where
  entities : ∀ id ∈ db.entityIndex.keys, id ∈ db.issued
  attempts : ∀ id ∈ db.parseAttempts.keys, id ∈ db.issued
  artifacts : ∀ id ∈ db.normalizedArtifacts.keys, id ∈ db.issued
  tasks : ∀ id ∈ db.tasks.keys, id ∈ db.issued
  changeEvents : ∀ id ∈ db.changeEvents.keys, id ∈ db.issued
  outbox : ∀ id ∈ db.outbox.keys, id ∈ db.issued

/-- A new projection version: what `record_parse_result` writes for a parse step seen first. -/
structure Issue (codec : Codec) (db : Db) where
  entity : EntityIndex
  task : ProjectionTask
  ref : NormalizedArtifactRef
  outboxId : Uuid
  now : Time
  artifacts : Table NormalizedArtifact.artifactId
  parseAttempts : Table ParseAttempt.parseAttemptId
  issued : List Uuid
  known : db.entityIndex.find? task.entityUuid = some entity
  version : task.projectionVersion = entity.projectionVersion + 1
  fresh : task.columns = LeaseColumns.fresh task.maxAttempts
  unused : taskByParseKey db task.parseKey = none
  valid : (task.command ref).valid = true
  newTask : task.taskId ∉ db.issued
  newOutbox : outboxId ∉ db.issued
  unsent : outboxByEventId db task.taskId = none
  grown : ∀ id, id ∈ db.issued ∨ id = task.taskId ∨ id = outboxId → id ∈ issued
  artifactKnown : ∃ artifact, artifacts.find? task.artifactId = some artifact ∧
    artifact.ref.sha256 = ref.sha256
  artifactsKept : ∀ id row, db.normalizedArtifacts.find? id = some row →
    ∃ row', artifacts.find? id = some row' ∧ row'.ref = row.ref
  artifactsIssued : ∀ id ∈ artifacts.keys, id ∈ issued
  attemptKnown : ∃ id row, task.parseAttemptId = some id ∧ parseAttempts.find? id = some row
  attemptsKept : ∀ id row, db.parseAttempts.find? id = some row → parseAttempts.find? id = some row
  attemptsIssued : ∀ id ∈ parseAttempts.keys, id ∈ issued

namespace Issue
variable {codec : Codec} {db : Db} (issue : Issue codec db)

def bumped : EntityIndex :=
  { issue.entity with projectionVersion := issue.task.projectionVersion, updatedAt := issue.now }

def command : OutboxEvent :=
  commandOutboxRow codec (issue.task.command issue.ref) issue.outboxId issue.now

def next : Db :=
  { db with
    entityIndex := db.entityIndex.put issue.bumped
    parseAttempts := issue.parseAttempts
    normalizedArtifacts := issue.artifacts
    tasks := db.tasks.insert issue.task
    outbox := db.outbox.insert issue.command
    issued := issue.issued }

end Issue

/-- The events that a receipt leaves: none, or one row in each of the two tables. -/
inductive Emission (codec : Codec) (db : Db) (receipt : ReceiptFields)
    (event : Option DomainChangedEvent) (now : Time) :
    Table ChangeEvent.changeEventId → Table OutboxEvent.outboxId → List Uuid → Prop
  | silent (quiet : receipt.shouldEmitDomainChanged = false) :
      Emission codec db receipt event now db.changeEvents db.outbox db.issued
  | emitted (descriptor : DomainChangedEvent) (eventSha256 mediaType : String)
      (changeEventId outboxId : Uuid) (emits : receipt.shouldEmitDomainChanged = true)
      (described : eventDescriptor codec receipt event = .ok descriptor)
      (named : receipt.eventId.all fun eventId => descriptor.eventId = eventId)
      (hash : receipt.recordedSha256 = some eventSha256)
      (media : receipt.mediaType = some mediaType)
      (newChange : changeEventId ∉ db.issued) (newOutbox : outboxId ∉ db.issued)
      (unlogged : ∀ row ∈ db.changeEvents.rows, row.eventId ≠ descriptor.eventId)
      (unsent : outboxByEventId db descriptor.eventId = none)
      (logs : (receipt.changeEvent descriptor eventSha256 mediaType changeEventId now).admissible =
        true)
      (sends : (receipt.domainEvent descriptor eventSha256 mediaType outboxId now).admissible =
        true) :
      Emission codec db receipt event now
        (db.changeEvents.insert
          (receipt.changeEvent descriptor eventSha256 mediaType changeEventId now))
        (db.outbox.insert (receipt.domainEvent descriptor eventSha256 mediaType outboxId now))
        (outboxId :: changeEventId :: db.issued)

/-- The first acknowledgement of a task. -/
structure Recording (codec : Codec) (db : Db) where
  receipt : AppliedProjectionReceipt codec
  event : Option DomainChangedEvent
  task : ProjectionTask
  entity : EntityIndex
  now : Time
  changeEvents : Table ChangeEvent.changeEventId
  outbox : Table OutboxEvent.outboxId
  issued : List Uuid
  found : db.tasks.find? receipt.projectionTaskId = some task
  known : db.entityIndex.find? receipt.entityUuid = some entity
  sameEntity : task.entityUuid = receipt.entityUuid
  sameVersion : task.projectionVersion = receipt.projectionVersion
  admitted : (receipt.acknowledgement now).admissible = true
  confirms : (entity.confirm receipt.toReceiptFields now).admissible = true
  succeeds : (task.succeed now).admissible = true
  unacknowledged : db.acknowledgements.find? receipt.projectionTaskId = none
  emission : Emission codec db receipt.toReceiptFields event now changeEvents outbox issued

def Recording.next {codec : Codec} {db : Db} (recording : Recording codec db) : Db :=
  { db with
    entityIndex := db.entityIndex.put (recording.entity.confirm recording.receipt.toReceiptFields
      recording.now)
    tasks := db.tasks.put (recording.task.succeed recording.now)
    acknowledgements := db.acknowledgements.insert (recording.receipt.acknowledgement recording.now)
    changeEvents := recording.changeEvents
    outbox := recording.outbox
    issued := recording.issued }

/-- A task as a lease operation may leave it. -/
def LeaseMove (task next : ProjectionTask) : Prop :=
  next = task ∨ (next.identity = task.identity ∧ task.status.terminal = false ∧
    next.status ≠ .succeeded)

/-- The columns of an outbox row that only its insertion writes. -/
structure OutboxContent where
  eventId : Uuid
  topic : Topic
  eventType : String
  aggregateId : Uuid
  aggregateVersion : Int
  payloadSchemaVersion : String
  payloadBytes : Option Bytes
  payloadMediaType : String
  payloadSha256 : String
  payloadArtifactUri : Option String
  createdAt : Time

def OutboxEvent.content (event : OutboxEvent) : OutboxContent :=
  ⟨event.eventId, event.topic, event.eventType, event.aggregateId, event.aggregateVersion,
    event.payloadSchemaVersion, event.payloadBytes, event.payloadMediaType, event.payloadSha256,
    event.payloadArtifactUri, event.createdAt⟩

/-- An outbox row as a publisher, an operator or a failed delivery may leave it. -/
def OutboxMove (event next : OutboxEvent) : Prop := next.content = event.content

theorem OutboxMove.refl (event : OutboxEvent) : OutboxMove event event := Eq.refl event.content

/-- A receipt that a call recorded, and when. -/
abbrev Recorded (codec : Codec) := AppliedProjectionReceipt codec × Time

/-- What a committed call says about itself: a receipt it recorded, a step of delivery, the cutoff
of a purge, or nothing of these. -/
inductive Label (codec : Codec) where
  | quiet
  | recorded (receipt : Recorded codec)
  | delivered
  | purged (cutoff : Time)

def Label.receipt {codec : Codec} : Label codec → Option (Recorded codec)
  | .recorded receipt => some receipt
  | _ => none

def Event.label {codec : Codec} (entry : Event codec) : Label codec :=
  match entry.call with
  | .acknowledgeProjection _ receipt _ _ _ now =>
    match entry.outcome with
    | .ok (.acknowledged result) => if result.created then .recorded (receipt, now) else .quiet
    | _ => .quiet
  | .fetchUnpublished .. | .markPublished .. | .markFailed .. | .unpark .. => .delivered
  | .purgePublished olderThan _ _ _ now => .purged (now - olderThan)
  | _ => .quiet

inductive Change (codec : Codec) (db : Db) : Label codec → Db → Prop
  | same (label : Label codec) (unrecorded : label.receipt = none) : Change codec db label db
  | registered (row : EntityIndex) (fresh : row.entityUuid ∉ db.issued)
      (unversioned : row.projectionVersion = 0) (unconfirmed : row.confirmedProjectionVersion = 0)
      (unprojected : row.mongoCollection = none) :
      Change codec db .quiet { db with
        entityIndex := db.entityIndex.insert row
        issued := row.entityUuid :: db.issued }
  | attempted (row : ParseAttempt) (fresh : row.parseAttemptId ∉ db.issued) :
      Change codec db .quiet { db with
        parseAttempts := db.parseAttempts.insert row
        issued := row.parseAttemptId :: db.issued }
  | issued (issue : Issue codec db) : Change codec db .quiet issue.next
  | leased (tasks : Table ProjectionTask.taskId)
      (moved : ∀ id, Option.Rel LeaseMove (db.tasks.find? id) (tasks.find? id)) :
      Change codec db .quiet { db with tasks := tasks }
  | acknowledged (recording : Recording codec db) :
      Change codec db (.recorded (recording.receipt, recording.now)) recording.next
  | delivered (outbox : Table OutboxEvent.outboxId) (auditLog : List AuditEntry)
      (moved : ∀ id, Option.Rel OutboxMove (db.outbox.find? id) (outbox.find? id)) :
      Change codec db .delivered { db with outbox := outbox, auditLog := auditLog }
  | purged (gone : OutboxEvent → Bool) (cutoff : Time)
      (only : ∀ event ∈ db.outbox.rows, gone event = true → purgeable db cutoff event = true) :
      Change codec db (.purged cutoff) { db with outbox := db.outbox.delete gone }

section Lookup
variable {codec : Codec} {db : Db}

theorem Issue.newTask_key (issue : Issue codec db) (sound : Issued db) :
    issue.task.taskId ∉ db.tasks.keys := fun known => issue.newTask (sound.tasks _ known)

theorem Issue.find?_task (issue : Issue codec db) (sound : Issued db) (id : Uuid) :
    issue.next.tasks.find? id =
      if issue.task.taskId = id then some issue.task else db.tasks.find? id :=
  db.tasks.find?_insert _ (issue.newTask_key sound) id

theorem Issue.find?_entity (issue : Issue codec db) (e : Uuid) :
    issue.next.entityIndex.find? e =
      if e = issue.task.entityUuid then some issue.bumped else db.entityIndex.find? e := by
  have located : issue.bumped.entityUuid = issue.task.entityUuid :=
    ((db.entityIndex.find?_eq_some _ _).mp issue.known).2
  have known : db.entityIndex.find? issue.bumped.entityUuid = some issue.entity :=
    located.symm ▸ issue.known
  simp only [Issue.next, db.entityIndex.find?_put _ known, located]

theorem Issue.find?_outbox (issue : Issue codec db) (sound : Issued db) (id : Uuid) :
    issue.next.outbox.find? id =
      if issue.outboxId = id then some issue.command else db.outbox.find? id :=
  db.outbox.find?_insert issue.command (fun known => issue.newOutbox (sound.outbox _ known)) id

theorem Recording.find?_task (recording : Recording codec db) (id : Uuid) :
    recording.next.tasks.find? id = if id = recording.receipt.projectionTaskId
      then some (recording.task.succeed recording.now) else db.tasks.find? id := by
  have located : (recording.task.succeed recording.now).taskId =
      recording.receipt.projectionTaskId := ((db.tasks.find?_eq_some _ _).mp recording.found).2
  have known : db.tasks.find? (recording.task.succeed recording.now).taskId =
      some recording.task := located.symm ▸ recording.found
  simp only [Recording.next, db.tasks.find?_put _ known, located]

/-- The entity as the recording of a receipt leaves it. -/
def Recording.confirmed (recording : Recording codec db) : EntityIndex :=
  recording.entity.confirm recording.receipt.toReceiptFields recording.now

theorem Recording.find?_entity (recording : Recording codec db) (e : Uuid) :
    recording.next.entityIndex.find? e = if e = recording.receipt.entityUuid
      then some recording.confirmed else db.entityIndex.find? e := by
  have located : recording.confirmed.entityUuid = recording.receipt.entityUuid :=
    ((db.entityIndex.find?_eq_some _ _).mp recording.known).2
  have known : db.entityIndex.find? recording.confirmed.entityUuid = some recording.entity :=
    located.symm ▸ recording.known
  rw [← located]
  exact db.entityIndex.find?_put recording.confirmed known e

theorem Recording.find?_acknowledgement (recording : Recording codec db) (id : Uuid) :
    recording.next.acknowledgements.find? id = if recording.receipt.projectionTaskId = id
      then some (recording.receipt.acknowledgement recording.now)
      else db.acknowledgements.find? id :=
  db.acknowledgements.find?_insert (recording.receipt.acknowledgement recording.now)
    ((db.acknowledgements.find?_eq_none _).mp recording.unacknowledged) id

end Lookup

section Spec
variable {codec : Codec} {db next : Db}

theorem insertParseAttempt_eq_ok {record : ParseAttemptRecord} {draw : Uuid} {now : Time}
    {row : ParseAttempt} (done : insertParseAttempt db record draw now = .ok (row, next)) :
    row.parseAttemptId ∉ db.issued ∧ next = { db with
      parseAttempts := db.parseAttempts.insert row
      issued := row.parseAttemptId :: db.issued } := by
  unfold insertParseAttempt at done
  simp only [Except.bind_eq_ok, ensure_eq_ok, pure, Except.pure, Except.ok.injEq,
    Prod.mk.injEq] at done
  obtain ⟨_, _, rfl, rfl⟩ := done
  exact ⟨newEntityId_not_mem _ _, rfl⟩

theorem bumpVersion_eq_ok {entity row : EntityIndex} {now : Time}
    (done : bumpVersion db entity now = .ok (row, next)) :
    row = { entity with projectionVersion := entity.projectionVersion + 1, updatedAt := now } ∧
      next = { db with entityIndex := db.entityIndex.put row } := by
  unfold bumpVersion at done
  simp only [Except.bind_eq_ok, ensure_eq_ok, pure, Except.pure, Except.ok.injEq,
    Prod.mk.injEq] at done
  obtain ⟨_, _, rfl, rfl⟩ := done
  exact ⟨rfl, rfl⟩

theorem insertTask_eq_ok {task : ProjectionTask} (done : insertTask db task = .ok next) :
    taskByParseKey db task.parseKey = none ∧ next = { db with
      tasks := db.tasks.insert task
      issued := task.taskId :: db.issued } := by
  unfold insertTask at done
  simp only [Except.bind_eq_ok, ensure_eq_ok, Bool.and_eq_true, Option.isNone_iff_eq_none, pure,
    Except.pure, Except.ok.injEq] at done
  obtain ⟨_, ⟨⟨_, unused⟩, _⟩, rfl⟩ := done
  exact ⟨unused, rfl⟩

theorem insertOutbox_eq_ok {row : OutboxEvent} :
    insertOutbox db row = .ok next ↔
      row.admissible = true ∧ outboxByEventId db row.eventId = none ∧ { db with
        outbox := db.outbox.insert row
        issued := row.outboxId :: db.issued } = next := by
  unfold insertOutbox
  simp only [Except.bind_eq_ok, ensure_eq_ok, Bool.and_eq_true, Option.isNone_iff_eq_none, pure,
    Except.pure, Except.ok.injEq, exists_const, and_assoc]

end Spec
end Collector.Persistence.Projection
