import Collector.Persistence.Projection.Rows

/-!
The lease operations on `projection_tasks`. They write no other table. `skip` is the set of
rows that other transactions hold, as in the job queue.
-/

namespace Collector.Persistence.Projection
open Collector.Lib

/-- `ORDER BY priority DESC, not_before, task_id`. -/
def claimOrder (a b : ProjectionTask) : Prop :=
  b.priority < a.priority ∨ (a.priority = b.priority ∧
    (a.notBefore < b.notBefore ∨ (a.notBefore = b.notBefore ∧ a.taskId ≤ b.taskId)))

instance : DecidableRel claimOrder := fun a b => by
  unfold claimOrder
  infer_instance

def ProjectionTask.lease (task : ProjectionTask) (worker : String) (leaseSeconds : Int)
    (now : Time) : ProjectionTask :=
  { task with
    status := .leased
    leaseOwner := some worker
    leaseExpiresAt := some (now + seconds leaseSeconds)
    leasedAt := some now
    attempt := task.attempt + 1
    updatedAt := now }

theorem ProjectionTask.lease_taskId (worker : String) (leaseSeconds : Int) (now : Time)
    (task : ProjectionTask) : (task.lease worker leaseSeconds now).taskId = task.taskId := rfl

def claimProjectionTasks (db : Db) (worker : String) (leaseSeconds : Int)
    (targetCollections : Option (List String)) (limit : Int) (skip : List Uuid) (now : Time) :
    Except PersistenceError (List ProjectionTask × Db) := do
  ensure (decide (1 ≤ limit ∧ 1 ≤ leaseSeconds)) (.valueError "limit, lease_seconds")
  let candidates := db.tasks.select (fun task => task.status.claimable &&
    decide (task.notBefore ≤ now) && decide (task.taskId ∉ skip) &&
    -- An empty sequence of collections filters nothing.
    match targetCollections with
    | some (first :: rest) => decide (task.targetCollection ∈ first :: rest)
    | _ => true) claimOrder limit.toNat
  let ids := candidates.map ProjectionTask.taskId
  let claimed := candidates.map fun task => task.lease worker leaseSeconds now
  ensure (claimed.all ProjectionTask.admissible) (.integrityError "projection_tasks")
  let tasks := db.tasks.update (fun task => decide (task.taskId ∈ ids))
    (fun task => task.lease worker leaseSeconds now)
    (ProjectionTask.lease_taskId worker leaseSeconds now)
  return (claimed.insertionSort claimOrder, { db with tasks := tasks })

/-- `_owned`. -/
def ProjectionTask.owned (task : ProjectionTask) (owner : String) : Bool :=
  decide (task.status = .leased) && decide (task.leaseOwner = some owner)

/-- `_lock_owned`. -/
def lockOwned (db : Db) (taskId : Uuid) (owner : String) : Except PersistenceError ProjectionTask :=
  require ((db.tasks.find? taskId).filter fun task => task.owned owner) (.leaseNotOwned taskId owner)

def Db.writeTask (db : Db) (task : ProjectionTask) :
    Except PersistenceError (ProjectionTask × Db) := do
  ensure task.admissible (.integrityError "projection_tasks")
  return (task, { db with tasks := db.tasks.put task })

def heartbeatProjectionTask (db : Db) (taskId : Uuid) (owner : String) (leaseSeconds : Int)
    (now : Time) : Except PersistenceError (Time × Db) := do
  let task ← lockOwned db taskId owner
  let expires := now + seconds leaseSeconds
  let (_, next) ← db.writeTask { task with leaseExpiresAt := some expires, updatedAt := now }
  return (expires, next)

/-- `_quarantine_locked`. -/
def ProjectionTask.quarantine (task : ProjectionTask) (errorCode : String)
    (errorMessage : Option String) (now : Time) : ProjectionTask :=
  { task with
    status := .quarantined
    leaseOwner := none
    leaseExpiresAt := none
    finishedAt := some now
    lastErrorCode := some errorCode
    lastErrorMessage := truncate errorMessage 2048
    updatedAt := now }

def retryProjectionTask (db : Db) (taskId : Uuid) (owner errorCode : String)
    (errorMessage : Option String) (policy : Backoff) (notBefore : Option Time) (now : Time) :
    Except PersistenceError (ProjectionTask × Db) := do
  let task ← lockOwned db taskId owner
  if task.maxAttempts ≤ task.attempt then
    db.writeTask (task.quarantine errorCode errorMessage now)
  else
    db.writeTask { task with
      status := .retry
      leaseOwner := none
      leaseExpiresAt := none
      notBefore := nextAttemptAt now task.attempt policy notBefore
      lastErrorCode := some errorCode
      lastErrorMessage := truncate errorMessage 2048
      updatedAt := now }

def releaseProjectionTask (db : Db) (taskId : Uuid) (owner : String) (notBefore : Option Time)
    (now : Time) : Except PersistenceError (ProjectionTask × Db) := do
  let task ← lockOwned db taskId owner
  db.writeTask { task with
    status := .pending
    leaseOwner := none
    leaseExpiresAt := none
    leasedAt := none
    notBefore := clampNotBefore notBefore now
    attempt := max (task.attempt - 1) 0
    updatedAt := now }

/-- Takes any task that is not finished, whoever holds it. -/
def quarantineProjectionTask (db : Db) (taskId : Uuid) (errorCode : String)
    (errorMessage : Option String) (now : Time) : Except PersistenceError (ProjectionTask × Db) := do
  let task ← require (db.tasks.find? taskId) (.notFound "projection_tasks" taskId)
  ensure (!task.status.terminal) (.alreadyTerminal taskId task.status)
  db.writeTask (task.quarantine errorCode errorMessage now)

def ProjectionTask.expired (task : ProjectionTask) (now : Time) : Bool :=
  match task.leaseExpiresAt with
  | some expires => decide (expires ≤ now)
  | none => false

/-- `ORDER BY lease_expires_at`, nulls last. -/
def expiryOrder (a b : ProjectionTask) : Prop :=
  match a.leaseExpiresAt, b.leaseExpiresAt with
  | some x, some y => x ≤ y
  | _, none => True
  | none, some _ => False

instance : DecidableRel expiryOrder := fun a b => by
  unfold expiryOrder
  split <;> infer_instance

def ProjectionTask.recover (task : ProjectionTask) (now : Time) : ProjectionTask :=
  { task with status := .pending, leaseOwner := none, leaseExpiresAt := none, updatedAt := now }

theorem ProjectionTask.recover_taskId (now : Time) (task : ProjectionTask) :
    (task.recover now).taskId = task.taskId := rfl

def recoverExpiredProjectionLeases (db : Db) (limit : Int) (skip : List Uuid) (now : Time) :
    Except PersistenceError (List Uuid × Db) := do
  ensure (decide (0 ≤ limit)) (.valueError "limit")
  let ids := (db.tasks.select (fun task => decide (task.status = .leased) && task.expired now &&
    decide (task.taskId ∉ skip)) expiryOrder limit.toNat).map ProjectionTask.taskId
  let tasks := db.tasks.update (fun task => decide (task.taskId ∈ ids))
    (fun task => task.recover now) (ProjectionTask.recover_taskId now)
  return (ids, { db with tasks := tasks })

end Collector.Persistence.Projection
