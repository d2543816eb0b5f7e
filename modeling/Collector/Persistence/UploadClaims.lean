import Collector.Lib.Table
import Collector.Persistence.Core

/-!
Claims on object keys of the artifact store, `artifact_upload_claims`. A producer acquires a
key, writes the bytes outside any transaction and commits the reference; `claim_generation` is
the fencing token. `object_key` is unique and stands for the row; the surrogate `claim_id` only
joins the subquery of `expire_claims` and is left out.
-/

namespace Collector.Persistence.UploadClaims
open Collector.Lib

inductive UploadClaimStatus where
  | leased
  | committed
  | released
  | expired
  deriving DecidableEq, Repr

structure UploadClaim where
  objectKey : String
  owner : String
  status : UploadClaimStatus
  claimGeneration : Int
  acquiredAt : Time
  leaseExpiresAt : Time
  committedAt : Option Time
  releasedAt : Option Time
  sha256 : Option String
  sizeBytes : Option Int
  uri : Option String
  mediaType : Option String
  createdAt : Time
  updatedAt : Time
  deriving DecidableEq, Repr

/-- The CHECK constraints and column types of `artifact_upload_claims`. -/
def UploadClaim.admissible (claim : UploadClaim) : Bool :=
  decide (1 ≤ claim.claimGeneration) && inRange 64 claim.claimGeneration &&
  (decide (claim.status = .committed) == (claim.committedAt.isSome && claim.sha256.isSome &&
    claim.uri.isSome && claim.sizeBytes.isSome)) &&
  claim.sha256.all isSha256Hex && claim.sizeBytes.all (inRange 64) &&
  fits 128 (some claim.owner) && fits 128 claim.mediaType

structure Db where
  claims : Table UploadClaim.objectKey

def Db.empty : Db := ⟨∅⟩

/-- `alive` of `acquire_upload_claim`. -/
def UploadClaim.live (claim : UploadClaim) (now : Time) : Bool :=
  decide (claim.status = .leased) && decide (now < claim.leaseExpiresAt)

def newClaim (objectKey owner : String) (expires : Time) (mediaType : Option String) (now : Time) :
    UploadClaim where
  objectKey := objectKey
  owner := owner
  status := .leased
  claimGeneration := 1
  acquiredAt := now
  leaseExpiresAt := expires
  committedAt := none
  releasedAt := none
  sha256 := none
  sizeBytes := none
  uri := none
  mediaType := mediaType
  createdAt := now
  updatedAt := now

/-- Reacquire of a claim that is not live: the old generation is void. -/
def UploadClaim.reacquire (claim : UploadClaim) (owner : String) (now : Time) : UploadClaim :=
  { claim with
    claimGeneration := claim.claimGeneration + 1
    owner := owner
    acquiredAt := now
    releasedAt := none
    status := .leased }

/-- The new lease, for the reacquired and for the owner's own live claim alike. -/
def UploadClaim.extend (claim : UploadClaim) (expires : Time) (mediaType : Option String)
    (now : Time) : UploadClaim :=
  { claim with
    mediaType := mediaType.or claim.mediaType
    leaseExpiresAt := expires
    updatedAt := now }

def Db.write (db : Db) (claim : UploadClaim) : Except PersistenceError (UploadClaim × Db) := do
  ensure claim.admissible (.integrityError "artifact_upload_claims")
  return (claim, ⟨db.claims.put claim⟩)

def acquireUploadClaim (db : Db) (objectKey owner : String) (leaseSeconds : Int)
    (mediaType : Option String) (now : Time) : Except PersistenceError (UploadClaim × Db) := do
  ensure (decide (1 ≤ leaseSeconds)) (.valueError "lease_seconds")
  let expires := now + seconds leaseSeconds
  let fresh := newClaim objectKey owner expires mediaType now
  ensure fresh.admissible (.integrityError "artifact_upload_claims")
  match db.claims.find? objectKey with
  | none => return (fresh, ⟨db.claims.insert fresh⟩)
  | some claim =>
    if claim.status = .committed then
      throw (.staleClaim objectKey)
    if claim.live now && decide (claim.owner ≠ owner) then
      throw (.staleClaim objectKey)
    if claim.live now then
      db.write (claim.extend expires mediaType now)
    else
      db.write ((claim.reacquire owner now).extend expires mediaType now)

/-- The predicate of the commit UPDATE. -/
def UploadClaim.commitable (claim : UploadClaim) (generation : Int) (owner : String)
    (now : Time) : Bool :=
  decide (claim.owner = owner) && decide (claim.claimGeneration = generation) &&
    decide (claim.status = .leased) && decide (now < claim.leaseExpiresAt)

/-- Python's `media_type or …`: an empty string is no media type. -/
def orElse (mediaType fallback : Option String) : Option String :=
  match mediaType with
  | some text => if text = "" then fallback else some text
  | none => fallback

def commitReference (db : Db) (objectKey : String) (generation : Int) (owner sha256 : String)
    (sizeBytes : Int) (uri : String) (mediaType : Option String) (now : Time) :
    Except PersistenceError (UploadClaim × Db) := do
  let claim ← require (db.claims.find? objectKey) (.claimNotFound objectKey)
  if claim.commitable generation owner now then
    db.write { claim with
      status := .committed
      committedAt := some now
      sha256 := some sha256
      sizeBytes := some sizeBytes
      uri := some uri
      mediaType := orElse mediaType claim.mediaType
      updatedAt := now }
  else
    -- A repeated commit of the same bytes is answered from the row.
    ensure (decide (claim.status = .committed) && decide (claim.claimGeneration = generation) &&
      decide (claim.owner = owner) && decide (claim.sha256 = some sha256)) (.staleClaim objectKey)
    return (claim, db)

def releaseClaim (db : Db) (objectKey : String) (generation : Int) (owner : String) (now : Time) :
    Except PersistenceError (Option UploadClaim × Db) :=
  match db.claims.find? objectKey with
  | none => return (none, db)
  | some claim =>
    if claim.owner = owner ∧ claim.claimGeneration = generation ∧ claim.status = .leased then do
      let (row, next) ← db.write
        { claim with status := .released, releasedAt := some now, updatedAt := now }
      return (some row, next)
    else if claim.status = .released ∨ claim.status = .committed then
      return (some claim, db)
    else
      return (none, db)

/-- `ORDER BY lease_expires_at`. -/
def expiryOrder (a b : UploadClaim) : Prop := a.leaseExpiresAt ≤ b.leaseExpiresAt

instance : DecidableRel expiryOrder := fun a b =>
  inferInstanceAs (Decidable (a.leaseExpiresAt ≤ b.leaseExpiresAt))

def UploadClaim.expire (claim : UploadClaim) (now : Time) : UploadClaim :=
  { claim with status := .expired, updatedAt := now }

theorem UploadClaim.expire_objectKey (now : Time) (claim : UploadClaim) :
    (claim.expire now).objectKey = claim.objectKey := rfl

def expireClaims (db : Db) (limit : Int) (skip : List String) (now : Time) :
    Except PersistenceError (List String × Db) := do
  ensure (decide (0 ≤ limit)) (.valueError "limit")
  let keys := (db.claims.select (fun claim => decide (claim.status = .leased) &&
    decide (claim.leaseExpiresAt ≤ now) && decide (claim.objectKey ∉ skip))
    expiryOrder limit.toNat).map UploadClaim.objectKey
  return (keys, ⟨db.claims.update (fun claim => decide (claim.objectKey ∈ keys))
    (fun claim => claim.expire now) (UploadClaim.expire_objectKey now)⟩)

inductive Call where
  | acquireUploadClaim (objectKey owner : String) (leaseSeconds : Int) (mediaType : Option String)
      (now : Time)
  | commitReference (objectKey : String) (generation : Int) (owner sha256 : String)
      (sizeBytes : Int) (uri : String) (mediaType : Option String) (now : Time)
  | releaseClaim (objectKey : String) (generation : Int) (owner : String) (now : Time)
  | expireClaims (limit : Int) (skip : List String) (now : Time)
  deriving DecidableEq, Repr

inductive Answer where
  | claim (claim : UploadClaim)
  | released (claim : Option UploadClaim)
  | keys (keys : List String)
  deriving DecidableEq, Repr

def machine : Machine Db Call Answer PersistenceError where
  exec
    | .acquireUploadClaim objectKey owner leaseSeconds mediaType now, db =>
      answer .claim (acquireUploadClaim db objectKey owner leaseSeconds mediaType now)
    | .commitReference objectKey generation owner sha256 sizeBytes uri mediaType now, db =>
      answer .claim
        (commitReference db objectKey generation owner sha256 sizeBytes uri mediaType now)
    | .releaseClaim objectKey generation owner now, db =>
      answer .released (releaseClaim db objectKey generation owner now)
    | .expireClaims limit skip now, db => answer .keys (expireClaims db limit skip now)

end Collector.Persistence.UploadClaims
