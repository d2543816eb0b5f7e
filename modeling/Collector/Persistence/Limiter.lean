import Collector.Lib.Table
import Collector.Persistence.Core
import Mathlib.Algebra.Order.Round
import Mathlib.Data.Rat.Floor

/-!
The origin limiter, `origin_rate_buckets` and `origin_rate_permits`. A permit costs a rate token
and takes a concurrency slot; both are counted under the row lock of the bucket, so calls on one
bucket are serial. Decimals are exact rationals and a duration is its exact number of seconds.
-/

namespace Collector.Persistence.Limiter
open Collector.Lib

inductive ReleaseReason where
  | released
  | expired
  deriving DecidableEq, Repr

structure OriginRateBucket where
  origin : String
  capacityTokens : ℚ
  refillPerSecond : ℚ
  availableTokens : ℚ
  lastRefillAt : Time
  maxConcurrency : Int
  blockedUntil : Option Time
  blockReason : Option String
  revision : Int
  createdAt : Time
  updatedAt : Time
  deriving DecidableEq, Repr

structure OriginRatePermit where
  permitId : Uuid
  origin : String
  ownerInstance : String
  jobId : Option Uuid
  acquiredAt : Time
  leaseExpiresAt : Time
  releasedAt : Option Time
  releaseReason : Option ReleaseReason
  createdAt : Time
  deriving DecidableEq, Repr

/-- What a `numeric` column with the given scale stores. Half is rounded up, which is away from
zero for every value the CHECK constraints let in. -/
def numeric (scale : Nat) (x : ℚ) : ℚ := round (x * 10 ^ scale) / 10 ^ scale

/-- The CHECK constraints and column types of `origin_rate_buckets`. -/
def OriginRateBucket.admissible (bucket : OriginRateBucket) : Bool :=
  decide (0 < bucket.capacityTokens ∧ 0 < bucket.refillPerSecond) &&
  decide (0 ≤ bucket.maxConcurrency) &&
  decide (0 ≤ bucket.availableTokens ∧ bucket.availableTokens ≤ bucket.capacityTokens) &&
  decide (bucket.capacityTokens < 10 ^ 8) && decide (bucket.refillPerSecond < 10 ^ 6) &&
  inRange 32 bucket.maxConcurrency && inRange 64 bucket.revision &&
  fits 512 (some bucket.origin) && fits 256 bucket.blockReason

def OriginRatePermit.admissible (permit : OriginRatePermit) : Bool :=
  (permit.releasedAt.isNone == permit.releaseReason.isNone) && fits 128 (some permit.ownerInstance)

/-- An entry of `audit_log` about an origin. -/
structure OriginAudit where
  actor : String
  action : String
  resourceType : String
  resourceId : String
  before : List (String × AuditValue)
  after : List (String × AuditValue)
  requestId : Option String
  createdAt : Time
  deriving DecidableEq, Repr

structure Db where
  buckets : Table OriginRateBucket.origin
  permits : Table OriginRatePermit.permitId
  audit : List OriginAudit

def Db.empty : Db := ⟨∅, ∅, []⟩

inductive LimiterError where
  | raised (e : PersistenceError)
  /-- `NotFoundError` of a bucket. -/
  | bucketNotFound (origin : String)
  deriving DecidableEq, Repr

inductive DenyReason where
  | blocked
  | rate
  | concurrency
  deriving DecidableEq, Repr

structure PermitDecision where
  granted : Bool
  permit : Option OriginRatePermit
  reason : Option DenyReason
  retryAfter : Option Time
  livePermits : Nat
  availableTokens : ℚ
  deriving DecidableEq, Repr

/-- `timedelta(seconds=float(x))`, which is computed in floating point; the model takes the
function itself and assumes nothing about it. -/
abbrev Wait := ℚ → Time

def Db.writeBucket (db : Db) (bucket : OriginRateBucket) : Except LimiterError Db := do
  ensure bucket.admissible (.raised (.integrityError "origin_rate_buckets"))
  return { db with buckets := db.buckets.put bucket }

def ensureBucket (db : Db) (origin : String) (capacityTokens refillPerSecond : ℚ)
    (maxConcurrency : Int) (now : Time) : Except LimiterError (OriginRateBucket × Db) :=
  match db.buckets.find? origin with
  | none => do
    let bucket : OriginRateBucket :=
      { origin := origin
        capacityTokens := numeric 4 capacityTokens
        refillPerSecond := numeric 6 refillPerSecond
        availableTokens := numeric 4 capacityTokens
        lastRefillAt := now
        maxConcurrency := maxConcurrency
        blockedUntil := none
        blockReason := none
        revision := 1
        createdAt := now
        updatedAt := now }
    ensure bucket.admissible (.raised (.integrityError "origin_rate_buckets"))
    return (bucket, { db with buckets := db.buckets.insert bucket })
  | some bucket => do
    let updated : OriginRateBucket :=
      { bucket with
        capacityTokens := numeric 4 capacityTokens
        refillPerSecond := numeric 6 refillPerSecond
        availableTokens := numeric 4 (min bucket.availableTokens capacityTokens)
        maxConcurrency := maxConcurrency
        revision := bucket.revision + 1
        updatedAt := now }
    let next ← db.writeBucket updated
    return (updated, next)

/-- `Decimal(str(delta.total_seconds()))`. -/
def totalSeconds (delta : Time) : ℚ := delta / 1000000

/-- `x.quantize(TOKEN_QUANTUM, rounding=ROUND_DOWN)`: digits after the fourth are cut off. -/
def quantizeDown (x : ℚ) : ℚ :=
  if 0 ≤ x then ⌊x * 10000⌋ / 10000 else ⌈x * 10000⌉ / 10000

/-- `_refilled_tokens`. -/
def refilledTokens (bucket : OriginRateBucket) (now : Time) : ℚ :=
  let elapsed := max (totalSeconds (now - bucket.lastRefillAt)) 0
  let refilled := bucket.availableTokens + elapsed * bucket.refillPerSecond
  quantizeDown (min refilled bucket.capacityTokens)

/-- `blocked_until is not None and blocked_until > now`. -/
def OriginRateBucket.blockedAt (bucket : OriginRateBucket) (now : Time) : Bool :=
  match bucket.blockedUntil with
  | none => false
  | some blocked => decide (now < blocked)

/-- The live permits of an origin: not released and not expired. -/
def Db.livePermits (db : Db) (origin : String) (now : Time) : List OriginRatePermit :=
  db.permits.rows.filter fun permit => decide (permit.origin = origin) &&
    permit.releasedAt.isNone && decide (now < permit.leaseExpiresAt)

def denied (reason : DenyReason) (retryAfter : Option Time) (livePermits : Nat)
    (availableTokens : ℚ) : PermitDecision where
  granted := false
  permit := none
  reason := some reason
  retryAfter := retryAfter
  livePermits := livePermits
  availableTokens := availableTokens

/-- The bucket after the refill of an acquire at `now`. -/
def OriginRateBucket.refill (bucket : OriginRateBucket) (now : Time) : OriginRateBucket :=
  { bucket with
    availableTokens := refilledTokens bucket now
    lastRefillAt := now
    updatedAt := now }

/-- The bucket after one of its tokens is spent. -/
def OriginRateBucket.spend (bucket : OriginRateBucket) : OriginRateBucket :=
  { bucket with availableTokens := bucket.availableTokens - 1 }

def newPermit (permitId : Uuid) (origin ownerInstance : String) (jobId : Option Uuid)
    (leaseSeconds : Int) (now : Time) : OriginRatePermit where
  permitId := permitId
  origin := origin
  ownerInstance := ownerInstance
  jobId := jobId
  acquiredAt := now
  leaseExpiresAt := now + seconds leaseSeconds
  releasedAt := none
  releaseReason := none
  createdAt := now

def acquirePermit (wait : Wait) (db : Db) (origin ownerInstance : String) (leaseSeconds : Int)
    (jobId : Option Uuid) (draw : Uuid) (now : Time) :
    Except LimiterError (PermitDecision × Db) := do
  ensure (decide (1 ≤ leaseSeconds)) (.raised (.valueError "lease_seconds"))
  let bucket ← require (db.buckets.find? origin) (.bucketNotFound origin)
  if bucket.blockedAt now then
    return (denied .blocked bucket.blockedUntil 0 bucket.availableTokens, db)
  let refilled := bucket.refill now
  let live := db.livePermits origin now
  if refilled.availableTokens < 1 then
    let deficit := 1 - refilled.availableTokens
    let next ← db.writeBucket refilled
    return (denied .rate (some (now + wait (deficit / bucket.refillPerSecond))) live.length
      refilled.availableTokens, next)
  if bucket.maxConcurrency ≤ live.length then
    let earliest := (live.map OriginRatePermit.leaseExpiresAt).min?
    let next ← db.writeBucket refilled
    return (denied .concurrency (some (earliest.getD now)) live.length refilled.availableTokens, next)
  let permit := newPermit (newEntityId db.permits.keys draw) origin ownerInstance jobId leaseSeconds now
  ensure permit.admissible (.raised (.integrityError "origin_rate_permits"))
  let next ← db.writeBucket refilled.spend
  return (⟨true, some permit, none, none, live.length + 1, refilled.spend.availableTokens⟩,
    { next with permits := next.permits.insert permit })

def OriginRatePermit.release (permit : OriginRatePermit) (reason : ReleaseReason) (now : Time) :
    OriginRatePermit :=
  { permit with releasedAt := some now, releaseReason := some reason }

theorem OriginRatePermit.release_permitId (reason : ReleaseReason) (now : Time)
    (permit : OriginRatePermit) : (permit.release reason now).permitId = permit.permitId := rfl

/-- The predicate of the release UPDATE. -/
def releasable (permitId : Uuid) (ownerInstance : Option String) (permit : OriginRatePermit) : Bool :=
  decide (permit.permitId = permitId) && permit.releasedAt.isNone &&
    ownerInstance.all fun owner => decide (permit.ownerInstance = owner)

def releasePermit (db : Db) (permitId : Uuid) (ownerInstance : Option String) (now : Time) :
    Bool × Db :=
  (db.permits.rows.any (releasable permitId ownerInstance),
    { db with
      permits := db.permits.update (releasable permitId ownerInstance)
        (fun permit => permit.release .released now)
        (OriginRatePermit.release_permitId .released now) })

/-- The predicate of the expiry UPDATE. -/
def expirable (origin : Option String) (now : Time) (permit : OriginRatePermit) : Bool :=
  permit.releasedAt.isNone && decide (permit.leaseExpiresAt ≤ now) &&
    origin.all fun origin => decide (permit.origin = origin)

def expirePermits (db : Db) (origin : Option String) (now : Time) : Nat × Db :=
  (db.permits.rows.countP (expirable origin now),
    { db with
      permits := db.permits.update (expirable origin now)
        (fun permit => permit.release .expired now)
        (OriginRatePermit.release_permitId .expired now) })

/-- `blocked_until is None or blocked_until < until`. -/
def OriginRateBucket.extendedBy (bucket : OriginRateBucket) (untilTime : Time) : Bool :=
  match bucket.blockedUntil with
  | none => true
  | some blocked => decide (blocked < untilTime)

/-- `text[:limit]`. -/
def clip (limit : Nat) (text : String) : String := String.ofList (text.toList.take limit)

def OriginRateBucket.block (bucket : OriginRateBucket) (untilTime : Time) (reason : String)
    (now : Time) : OriginRateBucket :=
  { bucket with
    blockedUntil := some untilTime
    blockReason := some (clip 256 reason)
    availableTokens := 0
    lastRefillAt := untilTime
    revision := bucket.revision + 1
    updatedAt := now }

def blockAudit (bucket : OriginRateBucket) (untilTime : Time) (actor reason : String)
    (requestId : Option String) (now : Time) : OriginAudit where
  actor := actor
  action := "origin.block"
  resourceType := "origin_rate_bucket"
  resourceId := bucket.origin
  before := [("blocked_until", bucket.blockedUntil.elim .null .time)]
  after := [("blocked_until", .time untilTime), ("reason", .text (clip 256 reason))]
  requestId := requestId
  createdAt := now

def blockOrigin (db : Db) (origin : String) (untilTime : Time) (actor reason : String)
    (requestId : Option String) (now : Time) : Except LimiterError (OriginRateBucket × Db) := do
  (requireAuditContext actor reason).mapError .raised
  let bucket ← require (db.buckets.find? origin) (.bucketNotFound origin)
  if bucket.extendedBy untilTime then
    let blocked := bucket.block untilTime reason now
    let next ← db.writeBucket blocked
    let entry := blockAudit bucket untilTime actor reason requestId now
    ensure (fits 128 (some entry.actor) && fits 512 (some entry.resourceId) && fits 128 entry.requestId)
      (.raised (.integrityError "audit_log"))
    return (blocked, { next with audit := next.audit ++ [entry] })
  else
    return (bucket, db)

inductive Call where
  | ensureBucket (origin : String) (capacityTokens refillPerSecond : ℚ) (maxConcurrency : Int)
      (now : Time)
  | acquirePermit (origin ownerInstance : String) (leaseSeconds : Int) (jobId : Option Uuid)
      (draw : Uuid) (now : Time)
  | releasePermit (permitId : Uuid) (ownerInstance : Option String) (now : Time)
  | expirePermits (origin : Option String) (now : Time)
  | blockOrigin (origin : String) (untilTime : Time) (actor reason : String)
      (requestId : Option String) (now : Time)
  deriving DecidableEq, Repr

def Call.now : Call → Time
  | .ensureBucket _ _ _ _ now | .acquirePermit _ _ _ _ _ now | .releasePermit _ _ now
  | .expirePermits _ now | .blockOrigin _ _ _ _ _ now => now

inductive Answer where
  | bucket (bucket : OriginRateBucket)
  | decision (decision : PermitDecision)
  | released (released : Bool)
  | expired (count : Nat)
  deriving DecidableEq, Repr

def machine (wait : Wait) : Machine Db Call Answer LimiterError where
  exec
    | .ensureBucket origin capacityTokens refillPerSecond maxConcurrency now, db =>
      answer .bucket (ensureBucket db origin capacityTokens refillPerSecond maxConcurrency now)
    | .acquirePermit origin ownerInstance leaseSeconds jobId draw now, db =>
      answer .decision (acquirePermit wait db origin ownerInstance leaseSeconds jobId draw now)
    | .releasePermit permitId ownerInstance now, db =>
      .ok ((Answer.released (releasePermit db permitId ownerInstance now).1),
        (releasePermit db permitId ownerInstance now).2)
    | .expirePermits origin now, db =>
      .ok ((Answer.expired (expirePermits db origin now).1), (expirePermits db origin now).2)
    | .blockOrigin origin untilTime actor reason requestId now, db =>
      answer .bucket (blockOrigin db origin untilTime actor reason requestId now)

end Collector.Persistence.Limiter
