import Collector.Persistence.Projection.Parse

/-!
The publisher's side of the outbox. A fetch hides what it returns behind a visibility lease and
counts the delivery in the same transaction; a row that has used up its deliveries is parked
until an operator returns it. Retention deletes what no longer needs delivery.
-/

namespace Collector.Persistence.Projection
open Collector.Lib

/-- `ORDER BY available_at, event_id`. -/
def availableOrder (a b : OutboxEvent) : Prop :=
  a.availableAt < b.availableAt ∨ (a.availableAt = b.availableAt ∧ a.eventId ≤ b.eventId)

instance : DecidableRel availableOrder := fun a b => by
  unfold availableOrder
  infer_instance

/-- The order of the answer: `(created_at, event_id)`. -/
def createdOrder (a b : OutboxEvent) : Prop :=
  a.createdAt < b.createdAt ∨ (a.createdAt = b.createdAt ∧ a.eventId ≤ b.eventId)

instance : DecidableRel createdOrder := fun a b => by
  unfold createdOrder
  infer_instance

/-- `DELIVERY_ATTEMPTS_EXHAUSTED`. -/
def deliveryAttemptsExhausted : String := "delivery_attempts_exhausted"

/-- The CASE expressions of the fetch UPDATE: one more delivery, or the parking of a row that
has had all of them. -/
def OutboxEvent.deliver (event : OutboxEvent) (visibilitySeconds maxDeliveryAttempts : Int)
    (now : Time) : OutboxEvent :=
  if maxDeliveryAttempts ≤ event.deliveryAttempts then
    { event with
      parkedAt := some now
      lastErrorCode := some deliveryAttemptsExhausted
      updatedAt := now }
  else
    { event with
      availableAt := now + seconds visibilitySeconds
      deliveryAttempts := event.deliveryAttempts + 1
      updatedAt := now }

theorem OutboxEvent.deliver_outboxId (visibilitySeconds maxDeliveryAttempts : Int) (now : Time)
    (event : OutboxEvent) :
    (event.deliver visibilitySeconds maxDeliveryAttempts now).outboxId = event.outboxId := by
  unfold deliver
  split <;> rfl

/-- The subquery of `fetch_unpublished`. -/
def fetchCandidates (db : Db) (topics : List Topic) (limit : Int) (skip : List Uuid) (now : Time) :
    List OutboxEvent :=
  db.outbox.select (fun event => event.publishedAt.isNone && event.parkedAt.isNone &&
    decide (event.availableAt ≤ now) && decide (event.topic ∈ topics) &&
    decide (event.outboxId ∉ skip)) availableOrder limit.toNat

def fetchUnpublished (db : Db) (topics : List Topic)
    (limit visibilitySeconds maxDeliveryAttempts : Int) (skip : List Uuid) (now : Time) :
    Except PersistenceError (List OutboxEvent × Db) := do
  ensure (decide (1 ≤ limit ∧ 1 ≤ visibilitySeconds ∧ 1 ≤ maxDeliveryAttempts))
    (.valueError "limit, visibility_seconds, max_delivery_attempts")
  ensure (!topics.isEmpty) (.valueError "topics")
  let candidates := fetchCandidates db topics limit skip now
  let ids := candidates.map OutboxEvent.outboxId
  let leased := candidates.map fun event => event.deliver visibilitySeconds maxDeliveryAttempts now
  ensure (leased.all OutboxEvent.admissible) (.integrityError "outbox_events")
  let outbox := db.outbox.update (fun event => decide (event.outboxId ∈ ids))
    (fun event => event.deliver visibilitySeconds maxDeliveryAttempts now)
    (OutboxEvent.deliver_outboxId visibilitySeconds maxDeliveryAttempts now)
  let delivered := leased.filter fun event => event.parkedAt.isNone
  return (delivered.insertionSort createdOrder, { db with outbox := outbox })

def OutboxEvent.publish (event : OutboxEvent) (now : Time) : OutboxEvent :=
  { event with
    publishedAt := some now
    lastErrorCode := none
    lastErrorMessage := none
    updatedAt := now }

theorem OutboxEvent.publish_outboxId (now : Time) (event : OutboxEvent) :
    (event.publish now).outboxId = event.outboxId := rfl

/-- A row keeps the `published_at` it already has. -/
def markPublished (db : Db) (outboxIds : List Uuid) (now : Time) :
    Except PersistenceError (Nat × Db) :=
  let unpublished (event : OutboxEvent) : Bool :=
    decide (event.outboxId ∈ outboxIds) && event.publishedAt.isNone
  let outbox := db.outbox.update unpublished (fun event => event.publish now)
    (OutboxEvent.publish_outboxId now)
  return (db.outbox.rows.countP unpublished, { db with outbox := outbox })

def Db.writeOutbox (db : Db) (event : OutboxEvent) : Except PersistenceError (OutboxEvent × Db) := do
  ensure event.admissible (.integrityError "outbox_events")
  return (event, { db with outbox := db.outbox.put event })

/-- A failed delivery: backoff, or the parking of the row. -/
def OutboxEvent.fail (event : OutboxEvent) (errorCode : String) (errorMessage : Option String)
    (policy : Backoff) (maxAttempts : Int) (now : Time) : OutboxEvent :=
  let failed := { event with
    attempts := event.attempts + 1
    lastErrorCode := some errorCode
    lastErrorMessage := truncate errorMessage 2048
    updatedAt := now }
  if maxAttempts ≤ failed.attempts then { failed with parkedAt := some now }
  else { failed with availableAt := now + policy failed.attempts }

def markFailed (db : Db) (outboxId : Uuid) (errorCode : String) (errorMessage : Option String)
    (policy : Backoff) (maxAttempts : Int) (now : Time) :
    Except PersistenceError (OutboxEvent × Db) := do
  ensure (decide (1 ≤ maxAttempts)) (.valueError "max_attempts")
  let event ← require (db.outbox.find? outboxId) (.notFound "outbox_events" outboxId)
  if event.publishedAt.isSome || event.parkedAt.isSome then
    return (event, db)
  db.writeOutbox (event.fail errorCode errorMessage policy maxAttempts now)

/-- What `list_parked` shows and `unpark` takes. -/
def OutboxEvent.parked (event : OutboxEvent) : Bool :=
  event.parkedAt.isSome && event.publishedAt.isNone

def OutboxEvent.unpark (event : OutboxEvent) (now : Time) : OutboxEvent :=
  { event with
    parkedAt := none
    attempts := 0
    deliveryAttempts := 0
    availableAt := now
    updatedAt := now }

def unpark (db : Db) (outboxId : Uuid) (actor reason : String) (requestId : Option String)
    (now : Time) : Except PersistenceError (OutboxEvent × Db) := do
  requireAuditContext (some actor) (some reason)
  let event ← require (db.outbox.find? outboxId) (.notFound "outbox_events" outboxId)
  ensure event.parked (.invalidTransition outboxId)
  let (row, next) ← db.writeOutbox (event.unpark now)
  let auditLog ← appendAudit next.auditLog {
    actor := actor
    action := "outbox.unpark"
    resourceType := "outbox_event"
    resourceId := event.eventId
    before := [("parked_at", (event.parkedAt.map .time).getD .null),
      ("attempts", .int event.attempts), ("delivery_attempts", .int event.deliveryAttempts),
      ("last_error_code", (event.lastErrorCode.map .text).getD .null)]
    after := [("parked_at", .null), ("attempts", .int 0), ("delivery_attempts", .int 0),
      ("reason", .text reason)]
    requestId := requestId
    createdAt := now }
  return (row, { next with auditLog := auditLog })

/-- `EXISTS` of the acknowledged task of a command row. -/
def commandAcknowledged (db : Db) (event : OutboxEvent) : Bool :=
  (db.tasks.find? event.eventId).any (isAcknowledged db)

/-- The candidates of one purge: delivered domain rows and commands whose task is done. -/
def purgeable (db : Db) (cutoff : Time) (event : OutboxEvent) : Bool :=
  match event.topic with
  | .domain => event.publishedAt.any fun published => decide (published < cutoff)
  | .internal => decide (event.createdAt < cutoff) && commandAcknowledged db event

/-- `ORDER BY event_id`. -/
def eventIdOrder (a b : OutboxEvent) : Prop := a.eventId ≤ b.eventId

instance : DecidableRel eventIdOrder := fun a b =>
  inferInstanceAs (Decidable (a.eventId ≤ b.eventId))

structure PurgeResult where
  deleted : Nat
  lastEventId : Option Uuid
  deriving DecidableEq

def purgePublished (db : Db) (olderThan : Time) (after : Option Uuid) (limit : Int)
    (skip : List Uuid) (now : Time) : Except PersistenceError (PurgeResult × Db) := do
  ensure (decide (1 ≤ limit)) (.valueError "limit")
  ensure (decide (0 ≤ olderThan)) (.valueError "older_than")
  let rows := db.outbox.select (fun event => purgeable db (now - olderThan) event &&
    decide (event.outboxId ∉ skip) && after.all (fun bound => decide (bound < event.eventId)))
    eventIdOrder limit.toNat
  let ids := rows.map OutboxEvent.outboxId
  return (⟨rows.length, (rows.map OutboxEvent.eventId).max?⟩,
    { db with outbox := db.outbox.delete fun event => decide (event.outboxId ∈ ids) })

end Collector.Persistence.Projection
