import Collector.Persistence.UploadFencing
import Mathlib.Logic.Function.Basic

/-!
Uploads and orphan sweeps around the object store. `ClaimedUploader.upload` and `sweep_orphans`
are cut where another party may come in between: at every transaction and at every request to the
store. A call is its phase; a call that crashed is one that takes no further step. The bytes
behind a key are fixed by the key, so an object is its head, and a request that the store or its
client refuses ends the call.
-/

namespace Collector.Storage
open Collector.Lib Collector.Persistence Collector.Persistence.UploadClaims

structure ObjectHead where
  size : Int
  sha256 : String
  etag : Option String
  mediaType : Option String
  deriving DecidableEq, Repr

structure StoredObject extends ObjectHead where
  bucket : String
  key : String
  deriving DecidableEq, Repr

/-- Where an object of a bucket is found. -/
def uriOf (bucket key : String) : String := "s3://" ++ bucket ++ "/" ++ key

def StoredObject.uri (stored : StoredObject) : String := uriOf stored.bucket stored.key

/-- A `ClaimedUploader` and the arguments of one `upload`. -/
structure Upload where
  owner : String
  leaseSeconds : Int
  maxAttempts : Nat
  bucket : String
  key : String
  size : Int
  sha256 : String
  mediaType : String
  named : owner ≠ ""
  leased : 1 ≤ leaseSeconds
  tries : 1 ≤ maxAttempts

/-- What a call that ends early raises. -/
inductive CallError where
  /-- `UploadBusyError`. -/
  | busy (key : String)
  /-- `UploadRetriesExhaustedError`. -/
  | retriesExhausted (key : String)
  | artifactNotFound (bucket key : String)
  | artifactIntegrity (bucket key : String)
  | persistence (e : PersistenceError)
  /-- The commit callback, `after_put` or a request to the store raised. -/
  | raised
  deriving DecidableEq, Repr

/-- Where an `upload` stands; `attempt` is the counter of its loop. -/
inductive UploadPhase where
  | acquiring (attempt : Nat)
  /-- The acquire raised `StaleClaimError`. -/
  | reading (attempt : Nat)
  /-- The claim was read as committed. -/
  | verifying (attempt : Nat)
  | referencing (attempt : Nat) (stored : StoredObject)
  | putting (attempt : Nat) (generation : Int)
  /-- After the PUT, before the HEAD that verifies it. -/
  | heading (attempt : Nat) (generation : Int)
  | committing (attempt : Nat) (generation : Int) (stored : StoredObject)
  | finished (stored : StoredObject) (deduplicated : Bool) (attempts : Nat)
  | failed (e : CallError)
  deriving DecidableEq, Repr

structure UploadCall where
  upload : Upload
  phase : UploadPhase

/-- The arguments of one `sweep_orphans`. -/
structure Sweep where
  owner : String
  grace : Time
  minimumGrace : Time
  leaseSeconds : Int
  limit : Int
  bucketForKey : String → String
  patient : minimumGrace < grace

inductive SweepPhase where
  | listing
  | visiting (candidates : List String)
  | deleting (key : String) (generation : Int) (candidates : List String)
  /-- The `finally` after a delete, which may have raised. -/
  | releasing (key : String) (generation : Int) (candidates : List String) (raised : Bool)
  | finished
  | failed (e : CallError)
  deriving DecidableEq, Repr

structure SweepCall where
  sweep : Sweep
  phase : SweepPhase
  candidates : Nat
  deleted : List String
  skipped : List String

/-- The claims, the references that commit callbacks created, the store and the calls. -/
structure System where
  db : Db
  references : List (String × String)
  objects : String → String → Option ObjectHead
  uploads : Nat → Option UploadCall
  sweeps : Nat → Option SweepCall

/-- Nothing claimed and nothing running; the store may hold anything. -/
def System.start (objects : String → String → Option ObjectHead) : System where
  db := .empty
  references := []
  objects := objects
  uploads := fun _ => none
  sweeps := fun _ => none

/-- How the commit callback ends. -/
inductive Callback where
  | returns
  | staleClaim
  | raises
  deriving DecidableEq, Repr

inductive Action where
  | startUpload (id : Nat) (upload : Upload)
  | acquire (id : Nat) (now : Time)
  | readClaim (id : Nat)
  | verifyExisting (id : Nat)
  | reference (id : Nat) (callback : Callback)
  | put (id : Nat) (etag : Option String)
  | head (id : Nat)
  | commit (id : Nat) (callback : Callback) (now : Time)
  | failUpload (id : Nat)
  | startSweep (id : Nat) (sweep : Sweep)
  | listOrphans (id : Nat) (now : Time)
  | sweepAcquire (id : Nat) (now : Time)
  /-- The request to delete took effect; the client may still have raised. -/
  | delete (id : Nat) (raised : Bool)
  | failDelete (id : Nat)
  | release (id : Nat) (now : Time)
  | expireClaims (limit : Int) (skip : List String) (now : Time)

namespace System
variable (s : System)

def setUpload (id : Nat) (call : UploadCall) (phase : UploadPhase) : System :=
  { s with uploads := Function.update s.uploads id (some { call with phase := phase }) }

def setSweep (id : Nat) (call : SweepCall) (phase : SweepPhase) : System :=
  { s with sweeps := Function.update s.sweeps id (some { call with phase := phase }) }

/-- The next turn of the attempt loop, or its end. -/
def retryPhase (upload : Upload) (attempt : Nat) : UploadPhase :=
  if attempt < upload.maxAttempts then .acquiring (attempt + 1)
  else .failed (.retriesExhausted upload.key)

/-- The transaction of `_acquire`. -/
def acquire (id : Nat) (call : UploadCall) (attempt : Nat) (now : Time) : System :=
  match acquireUploadClaim s.db call.upload.key call.upload.owner call.upload.leaseSeconds
    (some call.upload.mediaType) now with
  | .ok (claim, db) => { s with db := db }.setUpload id call (.putting attempt claim.claimGeneration)
  | .error (.staleClaim _) => s.setUpload id call (.reading attempt)
  | .error e => s.setUpload id call (.failed (.persistence e))

/-- `_committed_claim`. -/
def readClaim (id : Nat) (call : UploadCall) (attempt : Nat) : System :=
  match s.db.claims.find? call.upload.key with
  | some claim =>
    if claim.status = .committed then s.setUpload id call (.verifying attempt)
    else s.setUpload id call (.failed (.busy call.upload.key))
  | none => s.setUpload id call (.failed (.busy call.upload.key))

/-- A HEAD that has to show the expected bytes. -/
def verifiedHead (upload : Upload) : Except CallError ObjectHead :=
  match s.objects upload.bucket upload.key with
  | none => .error (.artifactNotFound upload.bucket upload.key)
  | some head =>
    if head.sha256 ≠ upload.sha256 ∨ head.size ≠ upload.size then
      .error (.artifactIntegrity upload.bucket upload.key)
    else .ok head

/-- `head.media_type or media_type`. -/
def headMediaType (head : ObjectHead) (mediaType : String) : Option String :=
  orElse head.mediaType (some mediaType)

/-- `_verify_existing`. -/
def verifyExisting (id : Nat) (call : UploadCall) (attempt : Nat) : System :=
  match s.verifiedHead call.upload with
  | .error e => s.setUpload id call (.failed e)
  | .ok head => s.setUpload id call (.referencing attempt
      { head with
        mediaType := headMediaType head call.upload.mediaType
        bucket := call.upload.bucket
        key := call.upload.key })

/-- The callback of a deduplicated upload, in a transaction of its own. -/
def reference (id : Nat) (call : UploadCall) (attempt : Nat) (stored : StoredObject)
    (callback : Callback) : System :=
  match callback with
  | .returns =>
    { s with references := s.references ++ [(stored.bucket, stored.key)] }.setUpload id call
      (.finished stored true attempt)
  | .staleClaim | .raises => s.setUpload id call (.failed .raised)

/-- The PUT of `store.put`. -/
def put (id : Nat) (call : UploadCall) (attempt : Nat) (generation : Int) (etag : Option String) :
    System :=
  { s with
    objects := Function.update s.objects call.upload.bucket
      (Function.update (s.objects call.upload.bucket) call.upload.key
        (some ⟨call.upload.size, call.upload.sha256, etag, some call.upload.mediaType⟩)) }.setUpload
    id call (.heading attempt generation)

/-- The HEAD of `store.put`. -/
def head (id : Nat) (call : UploadCall) (attempt : Nat) (generation : Int) : System :=
  match s.verifiedHead call.upload with
  | .error e => s.setUpload id call (.failed e)
  | .ok head => s.setUpload id call (.committing attempt generation
      { head with bucket := call.upload.bucket, key := call.upload.key })

/-- The transaction of `commit_reference` and the callback. -/
def commit (id : Nat) (call : UploadCall) (attempt : Nat) (generation : Int) (stored : StoredObject)
    (callback : Callback) (now : Time) : System :=
  match commitReference s.db call.upload.key generation call.upload.owner stored.sha256 stored.size
    stored.uri stored.mediaType now with
  | .ok (_, db) =>
    match callback with
    | .returns =>
      { s with
        db := db
        references := s.references ++ [(stored.bucket, stored.key)] }.setUpload id call
        (.finished stored false attempt)
    | .staleClaim => s.setUpload id call (retryPhase call.upload attempt)
    | .raises => s.setUpload id call (.failed .raised)
  | .error (.staleClaim _) => s.setUpload id call (retryPhase call.upload attempt)
  | .error e => s.setUpload id call (.failed (.persistence e))

/-- `ORDER BY lease_expires_at, object_key`. -/
def orphanOrder (a b : UploadClaim) : Prop :=
  a.leaseExpiresAt < b.leaseExpiresAt ∨
    a.leaseExpiresAt = b.leaseExpiresAt ∧ a.objectKey ≤ b.objectKey

instance : DecidableRel orphanOrder := fun a b =>
  inferInstanceAs (Decidable (a.leaseExpiresAt < b.leaseExpiresAt ∨
    a.leaseExpiresAt = b.leaseExpiresAt ∧ a.objectKey ≤ b.objectKey))

def listOrphanCandidates (grace : Time) (limit : Int) (now : Time) :
    Except PersistenceError (List String) := do
  ensure (decide (0 ≤ grace)) (.valueError "grace")
  ensure (decide (0 ≤ limit)) (.valueError "limit")
  return (s.db.claims.select (fun claim => decide (claim.status ≠ .committed) &&
    decide (claim.leaseExpiresAt ≤ now - grace) &&
    decide (claim.objectKey ∉ s.references.map Prod.snd)) orphanOrder limit.toNat).map
      UploadClaim.objectKey

/-- The first statement of a sweep. -/
def listOrphans (id : Nat) (call : SweepCall) (now : Time) : System :=
  match s.listOrphanCandidates call.sweep.grace call.sweep.limit now with
  | .ok keys => s.setSweep id { call with candidates := keys.length } (.visiting keys)
  | .error e => s.setSweep id call (.failed (.persistence e))

/-- A turn of the sweep's loop up to the acquire. -/
def sweepAcquire (id : Nat) (call : SweepCall) (keys : List String) (now : Time) : System :=
  match keys with
  | [] => s.setSweep id call .finished
  | key :: rest =>
    match acquireUploadClaim s.db key call.sweep.owner call.sweep.leaseSeconds none now with
    | .ok (claim, db) =>
      { s with db := db }.setSweep id call (.deleting key claim.claimGeneration rest)
    | .error (.staleClaim _) =>
      s.setSweep id { call with skipped := call.skipped ++ [key] } (.visiting rest)
    | .error e => s.setSweep id call (.failed (.persistence e))

/-- The claim of the key is still the one that the sweep acquired. -/
def claimCurrent (key owner : String) (generation : Int) : Bool :=
  match s.db.claims.find? key with
  | some claim => decide (claim.owner = owner ∧ claim.claimGeneration = generation)
  | none => false

def delete (id : Nat) (call : SweepCall) (key : String) (generation : Int) (rest : List String)
    (raised : Bool) : System :=
  { s with
    objects := Function.update s.objects (call.sweep.bucketForKey key)
      (Function.update (s.objects (call.sweep.bucketForKey key)) key none) }.setSweep id
    { call with deleted := if raised then call.deleted else call.deleted ++ [key] }
    (.releasing key generation rest raised)

def release (id : Nat) (call : SweepCall) (key : String) (generation : Int) (rest : List String)
    (raised : Bool) (now : Time) : System :=
  match releaseClaim s.db key generation call.sweep.owner now with
  | .ok (_, db) =>
    { s with db := db }.setSweep id call (if raised then .failed .raised else .visiting rest)
  | .error e => s.setSweep id call (.failed (.persistence e))

/-- One step of one party; `none` where the party is not at that point. A delete is only taken
while the claim of the sweep is current. -/
def step : Action → Option System
  | .startUpload id upload =>
    if (s.uploads id).isNone then
      some { s with uploads := Function.update s.uploads id (some ⟨upload, .acquiring 1⟩) }
    else none
  | .acquire id now => (s.uploads id).bind fun call =>
    match call.phase with
    | .acquiring attempt => some (s.acquire id call attempt now)
    | _ => none
  | .readClaim id => (s.uploads id).bind fun call =>
    match call.phase with
    | .reading attempt => some (s.readClaim id call attempt)
    | _ => none
  | .verifyExisting id => (s.uploads id).bind fun call =>
    match call.phase with
    | .verifying attempt => some (s.verifyExisting id call attempt)
    | _ => none
  | .reference id callback => (s.uploads id).bind fun call =>
    match call.phase with
    | .referencing attempt stored => some (s.reference id call attempt stored callback)
    | _ => none
  | .put id etag => (s.uploads id).bind fun call =>
    match call.phase with
    | .putting attempt generation => some (s.put id call attempt generation etag)
    | _ => none
  | .head id => (s.uploads id).bind fun call =>
    match call.phase with
    | .heading attempt generation => some (s.head id call attempt generation)
    | _ => none
  | .commit id callback now => (s.uploads id).bind fun call =>
    match call.phase with
    | .committing attempt generation stored =>
      some (s.commit id call attempt generation stored callback now)
    | _ => none
  | .failUpload id => (s.uploads id).bind fun call => some (s.setUpload id call (.failed .raised))
  | .startSweep id sweep =>
    if (s.sweeps id).isNone then
      some { s with sweeps := Function.update s.sweeps id (some ⟨sweep, .listing, 0, [], []⟩) }
    else none
  | .listOrphans id now => (s.sweeps id).bind fun call =>
    match call.phase with
    | .listing => some (s.listOrphans id call now)
    | _ => none
  | .sweepAcquire id now => (s.sweeps id).bind fun call =>
    match call.phase with
    | .visiting keys => some (s.sweepAcquire id call keys now)
    | _ => none
  | .delete id raised => (s.sweeps id).bind fun call =>
    match call.phase with
    | .deleting key generation rest =>
      if s.claimCurrent key call.sweep.owner generation then
        some (s.delete id call key generation rest raised)
      else none
    | _ => none
  | .failDelete id => (s.sweeps id).bind fun call =>
    match call.phase with
    | .deleting key generation rest => some (s.setSweep id call (.releasing key generation rest true))
    | _ => none
  | .release id now => (s.sweeps id).bind fun call =>
    match call.phase with
    | .releasing key generation rest raised => some (s.release id call key generation rest raised now)
    | _ => none
  | .expireClaims limit skip now =>
    match UploadClaims.expireClaims s.db limit skip now with
    | .ok (_, db) => some { s with db := db }
    | .error _ => none

/-- What a sequence of steps leads to. -/
def run (s : System) (actions : List Action) : Option System := actions.foldlM step s

end System
end Collector.Storage
