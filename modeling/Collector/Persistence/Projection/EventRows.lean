import Collector.Persistence.Projection.ExactlyOnce

/-!
The rows a first acknowledgement writes for a receipt that emits. Their identity comes from the
caller's event or from the inline bytes, their aggregate from the receipt and their hash from the
receipt; only the event id is compared with anything else.
-/

namespace Collector.Persistence.Projection
open Collector.Lib

section Rows
variable {codec : Codec} {db next : Db} {taskId : Uuid} {receipt : AppliedProjectionReceipt codec}
  {event : Option DomainChangedEvent} {owner : Option String} {draws : EventDraws} {now : Time}
  {result : AcknowledgeResult}

/-- The acknowledgement and the two rows of the event, as they are returned and as they are
stored. -/
structure Stored (next : Db) (result : AcknowledgeResult) (change : ChangeEvent)
    (outboxEvent : OutboxEvent) : Prop where
  returned : result.changeEvent = some change ∧ result.outboxEvent = some outboxEvent
  acknowledged : result.acknowledgement ∈ next.acknowledgements.rows
  logged : change ∈ next.changeEvents.rows
  queued : outboxEvent ∈ next.outbox.rows

/-- A call stores one row of each kind. -/
theorem Stored.unique {change other : ChangeEvent} {outboxEvent otherEvent : OutboxEvent}
    (stored : Stored next result change outboxEvent) (also : Stored next result other otherEvent) :
    other = change ∧ otherEvent = outboxEvent := by
  have first := also.returned.1
  have second := also.returned.2
  rw [stored.returned.1] at first
  rw [stored.returned.2] at second
  exact ⟨(Option.some.inj first).symm, (Option.some.inj second).symm⟩

theorem mem_rows_insert {α κ : Type} [DecidableEq κ] {key : α → κ} (t : Table key) {row : α}
    (fresh : key row ∉ t.keys) : row ∈ (t.insert row).rows := by
  rw [t.rows_insert row fresh]
  exact List.mem_append_right _ (List.mem_singleton_self row)

/-- What the writes of an emitting receipt store. -/
theorem insertDomainChanged_rows {receipt : ReceiptFields} {rows : ChangeEvent × OutboxEvent}
    (done : insertDomainChanged codec db receipt event draws now = .ok (rows, next)) :
    ∃ descriptor eventSha256 mediaType changeEventId outboxId,
      eventDescriptor codec receipt event = .ok descriptor ∧
      receipt.eventId.all (fun eventId => descriptor.eventId = eventId) = true ∧
      receipt.recordedSha256 = some eventSha256 ∧
      changeEventId ∉ db.issued ∧ outboxId ∉ db.issued ∧
      rows = (receipt.changeEvent descriptor eventSha256 mediaType changeEventId now,
        receipt.domainEvent descriptor eventSha256 mediaType outboxId now) ∧
      next.acknowledgements = db.acknowledgements ∧
      next.changeEvents = db.changeEvents.insert rows.1 ∧
      next.outbox = db.outbox.insert rows.2 := by
  unfold insertDomainChanged at done
  simp only [Except.bind_eq_ok, ensure_eq_ok, require_eq_ok, pure, Except.pure, Except.ok.injEq,
    Prod.mk.injEq] at done
  obtain ⟨descriptor, described, _, named, eventSha256, hash, mediaType, _, middle, changeDone,
    last, outboxDone, rfl, rfl⟩ := done
  obtain ⟨_, _, rfl⟩ := insertChangeEvent_eq_ok.mp changeDone
  obtain ⟨_, _, rfl⟩ := insertOutbox_eq_ok.mp outboxDone
  have newOutbox := newEntityId_not_mem
    (newEntityId db.issued draws.changeEvent :: db.issued) draws.outbox
  exact ⟨descriptor, eventSha256, mediaType, _, _, described, named, hash,
    newEntityId_not_mem db.issued draws.changeEvent,
    fun old => newOutbox (List.mem_cons_of_mem _ old), rfl, rfl, rfl, rfl⟩

theorem acknowledgeProjection_rows (sound : Issued db)
    (emits : receipt.shouldEmitDomainChanged = true)
    (done : acknowledgeProjection db taskId receipt event owner draws now = .ok (result, next))
    (created : result.created = true) :
    ∃ descriptor eventSha256 mediaType changeEventId outboxId,
      eventDescriptor codec receipt.toReceiptFields event = .ok descriptor ∧
      receipt.eventId.all (fun eventId => descriptor.eventId = eventId) = true ∧
      receipt.recordedSha256 = some eventSha256 ∧
      result.acknowledgement = receipt.acknowledgement now ∧
      Stored next result (receipt.changeEvent descriptor eventSha256 mediaType changeEventId now)
        (receipt.domainEvent descriptor eventSha256 mediaType outboxId now) := by
  unfold acknowledgeProjection at done
  simp only [Except.bind_eq_ok, ensure_eq_ok, decide_eq_true_eq] at done
  obtain ⟨_, rfl, task, _, _, _, _, _, done⟩ := done
  cases acknowledged : db.acknowledgements.find? receipt.projectionTaskId with
  | some existing =>
    simp only [acknowledged, Except.bind_eq_ok, ensure_eq_ok, require_eq_ok, pure, Except.pure,
      Except.ok.injEq, Prod.mk.injEq] at done
    obtain ⟨_, _, _, _, rfl, _⟩ := done
    cases created
  | none =>
    simp only [acknowledged, recordReceipt, emits, if_true, Except.bind_eq_ok, ensure_eq_ok,
      require_eq_ok, pure, Except.pure, Except.ok.injEq, Prod.mk.injEq] at done
    obtain ⟨entity, _, _, _, _, _, ⟨rows, after⟩, eventsDone, rfl, rfl⟩ := done
    obtain ⟨descriptor, eventSha256, mediaType, changeEventId, outboxId, described, named, hash,
      newChange, newOutbox, rfl, acknowledgements, changeEvents, outbox⟩ :=
      insertDomainChanged_rows eventsDone
    refine ⟨descriptor, eventSha256, mediaType, changeEventId, outboxId, described, named, hash,
      rfl, ⟨rfl, rfl⟩, ?_, ?_, ?_⟩
    · rw [acknowledgements]
      exact mem_rows_insert _ ((db.acknowledgements.find?_eq_none _).mp acknowledged)
    · rw [changeEvents]
      exact mem_rows_insert _ fun known => newChange (sound.changeEvents _ known)
    · rw [outbox]
      exact mem_rows_insert _ fun known => newOutbox (sound.outbox _ known)

/-! ## The hash -/

/-- The hash of what the rows point to: of the inline bytes, or of the artifact. -/
def ReceiptFields.contentSha256 (codec : Codec) (receipt : ReceiptFields) : Option String :=
  (receipt.eventBytes.map codec.sha256Hex).or (receipt.eventArtifact.map ArtifactRef.sha256)

/-- A receipt that emits carries its event in one way. -/
theorem AppliedProjectionReceipt.inline_or_artifact
    (emits : receipt.shouldEmitDomainChanged = true) :
    (∃ bytes, receipt.eventBytes = some bytes ∧ receipt.eventArtifact = none ∧
      receipt.eventSha256 = some (codec.sha256Hex bytes)) ∨
    ∃ artifact, receipt.eventBytes = none ∧ receipt.eventArtifact = some artifact := by
  have valid := receipt.valid
  simp only [ReceiptFields.valid, Bool.and_eq_true, emits, if_true] at valid
  have one := valid.1.1.1.2.1
  have inline := valid.1.1.2
  cases bytes : receipt.eventBytes with
  | some bytes' =>
    rw [bytes] at one inline
    simp only [Option.all_some, Bool.and_eq_true, decide_eq_true_eq] at inline
    refine .inl ⟨bytes', rfl, ?_, inline.2⟩
    simpa using one
  | none =>
    rw [bytes] at one
    right
    simpa [Option.isSome_iff_exists] using one

theorem AppliedProjectionReceipt.recorded_eq_content_iff
    (emits : receipt.shouldEmitDomainChanged = true) :
    receipt.recordedSha256 = receipt.contentSha256 codec ↔
      receipt.eventBytes.isSome ∨ receipt.eventSha256 = none ∨
        receipt.eventSha256 = receipt.eventArtifact.map ArtifactRef.sha256 := by
  unfold ReceiptFields.recordedSha256 ReceiptFields.contentSha256
  rcases receipt.inline_or_artifact emits with ⟨bytes, inline, absent, hash⟩ |
    ⟨artifact, absent, carried⟩
  · simp [inline, absent, hash]
  · cases hash : receipt.eventSha256 with
    | none => simp [absent, carried]
    | some named => simp [absent, carried]

/-- The three rows hold the hash of the content exactly when the receipt names no other one. -/
theorem stored_hash_iff {history : List (Event codec)}
    (run : (machine codec).Run Db.empty history db)
    (emits : receipt.shouldEmitDomainChanged = true)
    (done : acknowledgeProjection db taskId receipt event owner draws now = .ok (result, next))
    (created : result.created = true) :
    (∃ change outboxEvent, Stored next result change outboxEvent ∧
        result.acknowledgement.eventSha256 = receipt.contentSha256 codec ∧
        some change.eventSha256 = receipt.contentSha256 codec ∧
        some outboxEvent.payloadSha256 = receipt.contentSha256 codec) ↔
      receipt.eventBytes.isSome ∨ receipt.eventSha256 = none ∨
        receipt.eventSha256 = receipt.eventArtifact.map ArtifactRef.sha256 := by
  obtain ⟨descriptor, eventSha256, mediaType, changeEventId, outboxId, _, _, hash, acknowledged,
    stored⟩ := acknowledgeProjection_rows (run_issued run) emits done created
  rw [← receipt.recorded_eq_content_iff emits]
  constructor
  · rintro ⟨_, _, _, same, _, _⟩
    rw [acknowledged] at same
    exact same
  · intro same
    refine ⟨_, _, stored, ?_, ?_, ?_⟩
    · rw [acknowledged]
      exact same
    · exact hash.symm.trans same
    · exact hash.symm.trans same

/-- The rows describe the event that the inline bytes decode to. -/
structure Describes (decoded : DomainChangedEvent) (change : ChangeEvent)
    (outboxEvent : OutboxEvent) : Prop where
  eventId : change.eventId = decoded.eventId ∧ outboxEvent.eventId = decoded.eventId
  eventType : change.eventType = decoded.eventType ∧ outboxEvent.eventType = decoded.eventType
  payloadSchemaVersion : change.payloadSchemaVersion = decoded.payloadSchemaVersion ∧
    outboxEvent.payloadSchemaVersion = decoded.payloadSchemaVersion
  aggregateId : change.aggregateId = decoded.aggregateId ∧
    outboxEvent.aggregateId = decoded.aggregateId
  aggregateVersion : change.aggregateVersion = decoded.aggregateVersion ∧
    outboxEvent.aggregateVersion = decoded.aggregateVersion

/-- The receipt and the event of the caller say the same as the decoded event. -/
structure InAgreement (receipt : ReceiptFields) (event : Option DomainChangedEvent)
    (decoded : DomainChangedEvent) : Prop where
  aggregateId : receipt.entityUuid = decoded.aggregateId
  aggregateVersion : receipt.projectionVersion = decoded.aggregateVersion
  given : ∀ given ∈ event, given.eventId = decoded.eventId ∧ given.eventType = decoded.eventType ∧
    given.payloadSchemaVersion = decoded.payloadSchemaVersion

/-- A receipt with inline bytes emits. -/
theorem AppliedProjectionReceipt.emits_of_inline {bytes : Bytes}
    (inline : receipt.eventBytes = some bytes) : receipt.shouldEmitDomainChanged = true := by
  by_contra silent
  have valid := receipt.valid
  simp only [ReceiptFields.valid, Bool.and_eq_true, if_neg silent, inline, Option.isNone_some,
    Bool.false_eq_true, false_and, and_false] at valid

/-- The rows describe the stored bytes exactly when nothing the rows are made of disagrees with
them. -/
theorem rows_describe_bytes_iff {history : List (Event codec)}
    (run : (machine codec).Run Db.empty history db) {bytes : Bytes}
    (inline : receipt.eventBytes = some bytes)
    (done : acknowledgeProjection db taskId receipt event owner draws now = .ok (result, next))
    (created : result.created = true) :
    (∃ decoded change outboxEvent, codec.decodeEvent bytes = some decoded ∧
        Stored next result change outboxEvent ∧ Describes decoded change outboxEvent) ↔
      ∃ decoded, codec.decodeEvent bytes = some decoded ∧
        InAgreement receipt.toReceiptFields event decoded := by
  obtain ⟨descriptor, eventSha256, mediaType, changeEventId, outboxId, described, _, _, _,
    stored⟩ :=
    acknowledgeProjection_rows (run_issued run) (receipt.emits_of_inline inline) done created
  constructor
  · rintro ⟨decoded, change, outboxEvent, decodes, also, describes⟩
    obtain ⟨rfl, rfl⟩ := stored.unique also
    refine ⟨decoded, decodes, describes.aggregateId.1, describes.aggregateVersion.1, ?_⟩
    intro given passed
    cases passed
    cases described
    exact ⟨describes.eventId.1, describes.eventType.1, describes.payloadSchemaVersion.1⟩
  · rintro ⟨decoded, decodes, agreement⟩
    refine ⟨decoded, _, _, decodes, stored, ?_⟩
    have same : descriptor.eventId = decoded.eventId ∧ descriptor.eventType = decoded.eventType ∧
        descriptor.payloadSchemaVersion = decoded.payloadSchemaVersion := by
      cases event with
      | some given =>
        cases described
        exact agreement.given _ rfl
      | none =>
        simp only [eventDescriptor, inline, require_eq_ok, decodes, Option.some.injEq] at described
        rw [described]
        exact ⟨rfl, rfl, rfl⟩
    obtain ⟨eventId, eventType, schemaVersion⟩ := same
    exact ⟨⟨eventId, eventId⟩, ⟨eventType, eventType⟩, ⟨schemaVersion, schemaVersion⟩,
      ⟨agreement.aggregateId, agreement.aggregateId⟩,
      ⟨agreement.aggregateVersion, agreement.aggregateVersion⟩⟩

end Rows

namespace Sample

/-- The first receipt with a bare hash beside the artifact. -/
def barelyHashed : AppliedProjectionReceipt codec :=
  ⟨{ receipt 1 with eventSha256 := some (hash 'f') }, by decide +kernel⟩

/-- The event of the first version in canonical JSON. -/
def eventJson : Bytes :=
  ["\x7b\"aggregate_id\":\"", uuidText (id 1), "\",\"aggregate_version\":1,\"event_id\":\"",
    uuidText (id 0x61), "\",\"event_type\":\"vehicle.listing.changed\",",
    "\"occurred_at\":\"2023-11-14T22:13:20.000000Z\",\"payload\":\x7b\x7d,",
    "\"payload_artifact\":null,\"payload_schema_version\":\"1.0\",\"previous_state_hash\":null,",
    "\"projection_task_id\":\"", uuidText (id 0x21), "\",\"result_state_hash\":\"v1:", hash 'd',
    "\",\"schema_version\":\"1.0\"\x7d"].flatMap utf8

def eventJsonSha256 : String := "cde59843e18893427a2837a62138d58035e7ddda4fe2ca3fc19f09fef0cd3068"

/-- SHA-256 and JSON that also know this event. -/
def inlineCodec : Codec where
  sha256Hex bytes := if bytes = eventJson then eventJsonSha256 else codec.sha256Hex bytes
  canonicalJsonBytes := json
  decodeEvent bytes := if bytes = eventJson then some (event 1) else none

/-- The first receipt with the event inline. -/
def inlineReceipt : AppliedProjectionReceipt inlineCodec :=
  ⟨{ receipt 1 with
    eventArtifact := none
    eventBytes := some eventJson
    eventMediaType := some "application/vnd.ua-collector.domain-changed.v1+json"
    eventSha256 := some eventJsonSha256 }, by decide +kernel⟩

def inlineParsed : List (Event inlineCodec) × Db :=
  (machine inlineCodec).replay Db.empty [register, parse 1]

theorem run_inlineParsed : (machine inlineCodec).Run Db.empty inlineParsed.1 inlineParsed.2 :=
  (machine inlineCodec).run_replay Db.empty [register, parse 1]

/-- The same event under another type. -/
def retyped : DomainChangedEvent := { event 1 with eventType := "vehicle.listing.removed" }

/-- The reconciler acknowledges the first task. -/
def confirm {c : Codec} (db : Db) (receipt : AppliedProjectionReceipt c)
    (event : Option DomainChangedEvent) : Except PersistenceError (AcknowledgeResult × Db) :=
  acknowledgeProjection db (id 0x21) receipt event none ⟨id 0x71, id 0x81⟩ now

/-- The stored hashes. -/
def hashes (result : AcknowledgeResult) : Bool × Option String × Option String × Option String :=
  (result.created, result.acknowledgement.eventSha256,
    result.changeEvent.map ChangeEvent.eventSha256,
    result.outboxEvent.map OutboxEvent.payloadSha256)

/-- The stored bytes and what the rows call them. -/
def types (result : AcknowledgeResult) :
    Bool × Option (Option Bytes) × Option String × Option String :=
  (result.created, result.changeEvent.map ChangeEvent.eventBytes,
    result.changeEvent.map ChangeEvent.eventType, result.outboxEvent.map OutboxEvent.eventType)

end Sample

theorem confirm_hashes :
    (Sample.confirm Sample.parsed.2 Sample.barelyHashed (some (Sample.event 1))).toOption.map
        (fun answer => Sample.hashes answer.1) =
      some (true, some (Sample.hash 'f'), some (Sample.hash 'f'), some (Sample.hash 'f')) ∧
    (Sample.confirm Sample.parsed.2 Sample.firstReceipt (some (Sample.event 1))).toOption.map
        (fun answer => answer.1.created) = some true := by
  decide +kernel

theorem confirm_types :
    (Sample.confirm Sample.inlineParsed.2 Sample.inlineReceipt (some Sample.retyped)).toOption.map
        (fun answer => Sample.types answer.1) =
      some (true, some (some Sample.eventJson), some "vehicle.listing.removed",
        some "vehicle.listing.removed") ∧
    (Sample.confirm Sample.inlineParsed.2 Sample.inlineReceipt none).toOption.map
        (fun answer => answer.1.created) = some true ∧
    Sample.inlineCodec.decodeEvent Sample.eventJson = some (Sample.event 1) := by
  decide +kernel

/-- The artifact has the hash `e…e`, the rows get `f…f`. -/
theorem stored_hash_bare : ∃ result next,
    Sample.confirm Sample.parsed.2 Sample.barelyHashed (some (Sample.event 1)) =
      .ok (result, next) ∧
    Sample.barelyHashed.shouldEmitDomainChanged = true ∧ result.created = true ∧
    Sample.barelyHashed.contentSha256 Sample.codec = some (Sample.hash 'e') ∧
    result.acknowledgement.eventSha256 = some (Sample.hash 'f') ∧
    result.changeEvent.map ChangeEvent.eventSha256 = some (Sample.hash 'f') ∧
    result.outboxEvent.map OutboxEvent.payloadSha256 = some (Sample.hash 'f') := by
  obtain ⟨result, next, done, same⟩ := Except.exists_of_toOption confirm_hashes.1
  simp only [Sample.hashes, Prod.mk.injEq] at same
  exact ⟨result, next, done, by decide, same.1, by decide, same.2⟩

theorem stored_hash_iff_artifact : ∃ result next,
    Sample.confirm Sample.parsed.2 Sample.firstReceipt (some (Sample.event 1)) =
      .ok (result, next) ∧
    ∃ change outboxEvent, Stored next result change outboxEvent ∧
      result.acknowledgement.eventSha256 = Sample.firstReceipt.contentSha256 Sample.codec ∧
      some change.eventSha256 = Sample.firstReceipt.contentSha256 Sample.codec ∧
      some outboxEvent.payloadSha256 = Sample.firstReceipt.contentSha256 Sample.codec := by
  obtain ⟨result, next, done, created⟩ := Except.exists_of_toOption confirm_hashes.2
  exact ⟨result, next, done,
    (stored_hash_iff Sample.run_parsed (by decide) done created).mpr (.inr (.inl rfl))⟩

/-- The bytes say `vehicle.listing.changed`, the rows say what the caller passed. -/
theorem rows_retyped : ∃ result next,
    Sample.confirm Sample.inlineParsed.2 Sample.inlineReceipt (some Sample.retyped) =
      .ok (result, next) ∧
    Sample.inlineCodec.decodeEvent Sample.eventJson = some (Sample.event 1) ∧
    (Sample.event 1).eventType = "vehicle.listing.changed" ∧ result.created = true ∧
    result.changeEvent.map ChangeEvent.eventBytes = some (some Sample.eventJson) ∧
    result.changeEvent.map ChangeEvent.eventType = some "vehicle.listing.removed" ∧
    result.outboxEvent.map OutboxEvent.eventType = some "vehicle.listing.removed" := by
  obtain ⟨result, next, done, same⟩ := Except.exists_of_toOption confirm_types.1
  simp only [Sample.types, Prod.mk.injEq] at same
  exact ⟨result, next, done, confirm_types.2.2, rfl, same⟩

theorem rows_describe_bytes_iff_decoded : ∃ result next,
    Sample.confirm Sample.inlineParsed.2 Sample.inlineReceipt none = .ok (result, next) ∧
    ∃ decoded change outboxEvent,
      Sample.inlineCodec.decodeEvent Sample.eventJson = some decoded ∧
      Stored next result change outboxEvent ∧ Describes decoded change outboxEvent := by
  obtain ⟨result, next, done, created⟩ := Except.exists_of_toOption confirm_types.2.1
  refine ⟨result, next, done,
    (rows_describe_bytes_iff Sample.run_inlineParsed rfl done created).mpr ?_⟩
  exact ⟨Sample.event 1, confirm_types.2.2, rfl, rfl, nofun⟩

end Collector.Persistence.Projection
