import Collector.Lib.Table
import Collector.Persistence.Core

/-!
The job queue over `crawl_jobs` and `dead_letters`. Every operation is one transaction.
`skip` lists the rows other transactions hold at that moment: `FOR UPDATE SKIP LOCKED` passes
over them, and since it is arbitrary it also stands for the order PostgreSQL gives to ties.
-/

namespace Collector.Persistence.Queue
open Collector.Lib

structure CrawlJob where
  jobId : Uuid
  runId : Option Uuid
  sourceId : Option Uuid
  jobType : String
  status : JobStatus
  priority : Int
  idempotencyKey : String
  /-- JSON text of the arguments. -/
  args : String
  attempt : Int
  maxAttempts : Int
  notBefore : Time
  leaseOwner : Option String
  leaseExpiresAt : Option Time
  leasedAt : Option Time
  finishedAt : Option Time
  lastErrorCode : Option String
  lastErrorMessage : Option String
  createdAt : Time
  updatedAt : Time
  deriving DecidableEq, Repr

inductive DeadLetterReason where
  | maxAttempts
  | quarantine
  deriving DecidableEq, Repr

structure DeadLetter where
  jobId : Uuid
  jobType : String
  reason : DeadLetterReason
  attempt : Int
  errorCode : Option String
  errorMessage : Option String
  createdAt : Time
  deriving DecidableEq, Repr

/-- `JOB_ARGS_MAX_BYTES`. -/
def jobArgsMaxBytes : Nat := 8 * 1024

/-- The CHECK constraints and column types of `crawl_jobs`. -/
def CrawlJob.admissible (job : CrawlJob) : Bool :=
  decide (0 ≤ job.attempt ∧ 1 ≤ job.maxAttempts) &&
  decide (job.args.utf8ByteSize ≤ jobArgsMaxBytes) &&
  (decide (job.status = .leased) == (job.leaseOwner.isSome && job.leaseExpiresAt.isSome)) &&
  inRange 16 job.priority && inRange 32 job.attempt && inRange 32 job.maxAttempts &&
  fits 64 (some job.jobType) && fits 512 (some job.idempotencyKey) && fits 128 job.leaseOwner &&
  fits 64 job.lastErrorCode && fits 2048 job.lastErrorMessage

structure Db where
  jobs : Table CrawlJob.jobId
  deadLetters : List DeadLetter
  auditLog : List AuditEntry

def Db.empty : Db := ⟨∅, [], []⟩

structure NewJob where
  jobType : String
  idempotencyKey : String
  args : String := "\x7b\x7d"
  priority : Int := 100
  maxAttempts : Int := 5
  notBefore : Option Time := none
  runId : Option Uuid := none
  sourceId : Option Uuid := none
  deriving DecidableEq, Repr

def NewJob.row (job : NewJob) (jobId : Uuid) (now : Time) : CrawlJob where
  jobId := jobId
  runId := job.runId
  sourceId := job.sourceId
  jobType := job.jobType
  status := .pending
  priority := job.priority
  idempotencyKey := job.idempotencyKey
  args := job.args
  attempt := 0
  maxAttempts := job.maxAttempts
  notBefore := job.notBefore.getD now
  leaseOwner := none
  leaseExpiresAt := none
  leasedAt := none
  finishedAt := none
  lastErrorCode := none
  lastErrorMessage := none
  createdAt := now
  updatedAt := now

def byIdempotencyKey (db : Db) (idempotencyKey : String) : Option CrawlJob :=
  db.jobs.rows.find? fun job => job.idempotencyKey = idempotencyKey

/-- `INSERT … ON CONFLICT (idempotency_key) DO NOTHING`, then the row with the key. -/
def enqueue (db : Db) (job : NewJob) (draw : Uuid) (now : Time) :
    Except PersistenceError (CrawlJob × Db) := do
  let row := job.row (newEntityId db.jobs.keys draw) now
  ensure row.admissible (.integrityError "crawl_jobs")
  match byIdempotencyKey db job.idempotencyKey with
  | some existing => return (existing, db)
  | none => return (row, { db with jobs := db.jobs.insert row })

/-- `ORDER BY priority DESC, not_before, job_id`. -/
def claimOrder (a b : CrawlJob) : Prop :=
  b.priority < a.priority ∨ (a.priority = b.priority ∧
    (a.notBefore < b.notBefore ∨ (a.notBefore = b.notBefore ∧ a.jobId ≤ b.jobId)))

instance : DecidableRel claimOrder := fun a b => by
  unfold claimOrder
  infer_instance

def CrawlJob.lease (job : CrawlJob) (worker : String) (leaseSeconds : Int) (now : Time) : CrawlJob :=
  { job with
    status := .leased
    leaseOwner := some worker
    leaseExpiresAt := some (now + seconds leaseSeconds)
    leasedAt := some now
    attempt := job.attempt + 1
    updatedAt := now }

def claim (db : Db) (jobTypes : List String) (worker : String) (leaseSeconds limit : Int)
    (skip : List Uuid) (now : Time) : Except PersistenceError (List CrawlJob × Db) := do
  if jobTypes = [] then
    return ([], db)
  ensure (decide (1 ≤ limit ∧ 1 ≤ leaseSeconds)) (.valueError "limit, lease_seconds")
  let candidates := db.jobs.select (fun job => job.status.claimable &&
    decide (job.notBefore ≤ now) && decide (job.jobType ∈ jobTypes) && decide (job.jobId ∉ skip))
    claimOrder limit.toNat
  let ids := candidates.map CrawlJob.jobId
  let claimed := candidates.map fun job => job.lease worker leaseSeconds now
  ensure (claimed.all CrawlJob.admissible) (.integrityError "crawl_jobs")
  let jobs := db.jobs.update (fun job => decide (job.jobId ∈ ids))
    (fun job => job.lease worker leaseSeconds now) (fun _ => rfl)
  return (claimed.insertionSort claimOrder, { db with jobs := jobs })

/-- `_owned`: the only predicate by which a worker's report finds its job. -/
def CrawlJob.owned (job : CrawlJob) (owner : String) : Bool :=
  decide (job.status = .leased) && decide (job.leaseOwner = some owner)

/-- `_lock_owned`. -/
def lockOwned (db : Db) (jobId : Uuid) (owner : String) : Except PersistenceError CrawlJob :=
  require ((db.jobs.find? jobId).filter fun job => job.owned owner) (.leaseNotOwned jobId owner)

/-- `_lock_any`: the operator's lock of a job that is not finished. -/
def lockAny (db : Db) (jobId : Uuid) : Except PersistenceError CrawlJob := do
  let job ← require (db.jobs.find? jobId) (.notFound "crawl_jobs" jobId)
  ensure (!job.status.terminal) (.alreadyTerminal jobId job.status)
  return job

/-- One row written back. -/
def Db.write (db : Db) (job : CrawlJob) : Except PersistenceError (CrawlJob × Db) := do
  ensure job.admissible (.integrityError "crawl_jobs")
  return (job, { db with jobs := db.jobs.put job })

def heartbeat (db : Db) (jobId : Uuid) (owner : String) (leaseSeconds : Int) (now : Time) :
    Except PersistenceError (Time × Db) := do
  let job ← lockOwned db jobId owner
  let expires := now + seconds leaseSeconds
  let (_, next) ← db.write { job with leaseExpiresAt := some expires, updatedAt := now }
  return (expires, next)

def complete (db : Db) (jobId : Uuid) (owner : String) (now : Time) :
    Except PersistenceError (CrawlJob × Db) := do
  let job ← lockOwned db jobId owner
  db.write { job with
    status := .succeeded
    leaseOwner := none
    leaseExpiresAt := none
    finishedAt := some now
    updatedAt := now }

/-- `_quarantine_locked`: the status and the dead letter in one transaction. -/
def quarantineLocked (db : Db) (job : CrawlJob) (reason : DeadLetterReason) (errorCode : String)
    (errorMessage : Option String) (now : Time) : Except PersistenceError (CrawlJob × Db) := do
  let (row, next) ← db.write { job with
    status := .quarantined
    leaseOwner := none
    leaseExpiresAt := none
    finishedAt := some now
    lastErrorCode := some errorCode
    lastErrorMessage := truncate errorMessage 2048
    updatedAt := now }
  let letter : DeadLetter := {
    jobId := job.jobId
    jobType := job.jobType
    reason := reason
    attempt := job.attempt
    errorCode := some errorCode
    errorMessage := truncate errorMessage 2048
    createdAt := now }
  return (row, { next with deadLetters := next.deadLetters ++ [letter] })

def retry (db : Db) (jobId : Uuid) (owner : String) (errorCode : String)
    (errorMessage : Option String) (policy : Backoff) (notBefore : Option Time) (now : Time) :
    Except PersistenceError (CrawlJob × Db) := do
  let job ← lockOwned db jobId owner
  if job.maxAttempts ≤ job.attempt then
    quarantineLocked db job .maxAttempts errorCode errorMessage now
  else
    db.write { job with
      status := .retry
      leaseOwner := none
      leaseExpiresAt := none
      notBefore := nextAttemptAt now job.attempt policy notBefore
      lastErrorCode := some errorCode
      lastErrorMessage := truncate errorMessage 2048
      updatedAt := now }

/-- Without an owner this is the operator's call: it needs an actor and a reason, takes any
unfinished job and leaves an audit entry. -/
def quarantine (db : Db) (jobId : Uuid) (owner : Option String) (errorCode : String)
    (errorMessage actor reason requestId : Option String) (now : Time) :
    Except PersistenceError (CrawlJob × Db) :=
  match owner with
  | some owner => do
    let job ← lockOwned db jobId owner
    quarantineLocked db job .quarantine errorCode errorMessage now
  | none => do
    requireAuditContext actor reason
    let job ← lockAny db jobId
    let (row, next) ← quarantineLocked db job .quarantine errorCode errorMessage now
    let auditLog ← appendAudit next.auditLog {
      actor := actor.getD ""
      action := "crawl_job.quarantine"
      resourceType := "crawl_job"
      resourceId := jobId
      before := [("status", .status job.status), ("attempt", .int row.attempt)]
      after := [("status", .status row.status), ("error_code", .text errorCode),
        ("reason", .text (reason.getD ""))]
      requestId := requestId
      createdAt := now }
    return (row, { next with auditLog := auditLog })

/-- A planned drain: the claim's increment is taken back and no error is written. -/
def release (db : Db) (jobId : Uuid) (owner : String) (notBefore : Option Time) (now : Time) :
    Except PersistenceError (CrawlJob × Db) := do
  let job ← lockOwned db jobId owner
  db.write { job with
    status := .pending
    leaseOwner := none
    leaseExpiresAt := none
    leasedAt := none
    notBefore := clampNotBefore notBefore now
    attempt := max (job.attempt - 1) 0
    updatedAt := now }

/-- `lease_expires_at <= now`; a null is never in the past. -/
def CrawlJob.expired (job : CrawlJob) (now : Time) : Bool :=
  match job.leaseExpiresAt with
  | some expires => decide (expires ≤ now)
  | none => false

/-- `ORDER BY lease_expires_at`, nulls last. -/
def expiryOrder (a b : CrawlJob) : Prop :=
  match a.leaseExpiresAt, b.leaseExpiresAt with
  | some x, some y => x ≤ y
  | _, none => True
  | none, some _ => False

instance : DecidableRel expiryOrder := fun a b => by
  unfold expiryOrder
  split <;> infer_instance

def CrawlJob.recover (job : CrawlJob) (now : Time) : CrawlJob :=
  { job with status := .pending, leaseOwner := none, leaseExpiresAt := none, updatedAt := now }

/-- The subquery of `recover_expired_leases`. -/
def expiredLeases (db : Db) (limit : Int) (skip : List Uuid) (now : Time) : List CrawlJob :=
  db.jobs.select (fun job => decide (job.status = .leased) && job.expired now &&
    decide (job.jobId ∉ skip)) expiryOrder limit.toNat

/-- Expired leases go back to `pending`; `attempt` keeps its value. -/
def recoverExpiredLeases (db : Db) (limit : Int) (skip : List Uuid) (now : Time) :
    Except PersistenceError (List Uuid × Db) := do
  ensure (decide (0 ≤ limit)) (.valueError "limit")
  let ids := (expiredLeases db limit skip now).map CrawlJob.jobId
  let jobs := db.jobs.update (fun job => decide (job.jobId ∈ ids)) (fun job => job.recover now)
    (fun _ => rfl)
  return (ids, { db with jobs := jobs })

/-- The calls of the queue, each with the `now` its transaction resolved. -/
inductive Call where
  | enqueue (job : NewJob) (draw : Uuid) (now : Time)
  | claim (jobTypes : List String) (worker : String) (leaseSeconds limit : Int)
      (skip : List Uuid) (now : Time)
  | heartbeat (jobId : Uuid) (owner : String) (leaseSeconds : Int) (now : Time)
  | complete (jobId : Uuid) (owner : String) (now : Time)
  | retry (jobId : Uuid) (owner errorCode : String) (errorMessage : Option String)
      (policy : Backoff) (notBefore : Option Time) (now : Time)
  | quarantine (jobId : Uuid) (owner : Option String) (errorCode : String)
      (errorMessage actor reason requestId : Option String) (now : Time)
  | release (jobId : Uuid) (owner : String) (notBefore : Option Time) (now : Time)
  | recoverExpiredLeases (limit : Int) (skip : List Uuid) (now : Time)

inductive Answer where
  | job (job : CrawlJob)
  | jobs (jobs : List CrawlJob)
  | expires (instant : Time)
  | ids (ids : List Uuid)
  deriving DecidableEq, Repr

def Call.now : Call → Time
  | .enqueue _ _ now | .claim _ _ _ _ _ now | .heartbeat _ _ _ now | .complete _ _ now
  | .retry _ _ _ _ _ _ now | .quarantine _ _ _ _ _ _ _ now | .release _ _ _ now
  | .recoverExpiredLeases _ _ now => now

def machine : Machine Db Call Answer PersistenceError where
  exec
    | .enqueue job draw now, db => answer .job (enqueue db job draw now)
    | .claim jobTypes worker leaseSeconds limit skip now, db =>
      answer .jobs (claim db jobTypes worker leaseSeconds limit skip now)
    | .heartbeat jobId owner leaseSeconds now, db =>
      answer .expires (heartbeat db jobId owner leaseSeconds now)
    | .complete jobId owner now, db => answer .job (complete db jobId owner now)
    | .retry jobId owner errorCode errorMessage policy notBefore now, db =>
      answer .job (retry db jobId owner errorCode errorMessage policy notBefore now)
    | .quarantine jobId owner errorCode errorMessage actor reason requestId now, db =>
      answer .job (quarantine db jobId owner errorCode errorMessage actor reason requestId now)
    | .release jobId owner notBefore now, db => answer .job (release db jobId owner notBefore now)
    | .recoverExpiredLeases limit skip now, db =>
      answer .ids (recoverExpiredLeases db limit skip now)

end Collector.Persistence.Queue
