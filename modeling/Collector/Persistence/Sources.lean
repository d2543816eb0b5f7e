import Mathlib.Algebra.Order.Ring.Rat
import Collector.Contracts.Canonical
import Collector.Lib.Table
import Collector.Lib.WatchedRow
import Collector.Persistence.AuditLog

/-!
The control plane of a source: its state, its policy versions and their trail in the audit log. Each call
is a READ COMMITTED transaction that names the revision it has seen. A change of the state is one
`UPDATE … WHERE revision = …`; a new policy version locks the row first and counts on from the last one.
-/

namespace Collector.Persistence.Sources
open Collector.Lib

inductive SourceState where
  | enabled
  | paused
  | disabled
  | blockedAnonymous
  deriving DecidableEq, Repr

def SourceState.value : SourceState → String
  | .enabled => "enabled"
  | .paused => "paused"
  | .disabled => "disabled"
  | .blockedAnonymous => "blocked_anonymous"

structure PolicySnapshot where
  requestsPerSecond : ℚ
  maxConcurrency : Int
  crawlIntervalSeconds : Int
  robotsPolicy : String
  manifestSha256 : String
  burstTokens : Int := 1
  browserAllowed : Bool := false
  manifestUri : Option String := none
  deriving DecidableEq, Repr

structure Source where
  id : Uuid
  sourceId : String
  domain : String
  country : String
  state : SourceState
  stateReason : Option String
  currentPolicyVersionId : Option Uuid
  revision : Int
  updatedBy : Option String
  createdAt : Time
  updatedAt : Time
  deriving DecidableEq, Repr

def Source.admissible (source : Source) : Bool :=
  fits 128 (some source.sourceId) && fits 16 (some source.domain) && fits 2 (some source.country) &&
    fits 512 source.stateReason && fits 128 source.updatedBy && inRange 64 source.revision

structure SourcePolicyVersion extends PolicySnapshot where
  id : Uuid
  sourceId : Uuid
  version : Int
  effectiveFrom : Time
  createdBy : Option String
  createdAt : Time
  deriving DecidableEq, Repr

def SourcePolicyVersion.admissible (policy : SourcePolicyVersion) : Bool :=
  inRange 32 policy.version && decide (|policy.requestsPerSecond| < 10 ^ 6 - 1 / 20000) &&
    inRange 32 policy.maxConcurrency && inRange 32 policy.burstTokens &&
    inRange 32 policy.crawlIntervalSeconds && fits 32 (some policy.robotsPolicy) &&
    fits 64 (some policy.manifestSha256) && fits 1024 policy.manifestUri && fits 128 policy.createdBy

structure ControlDb where
  sources : Table Source.id
  policies : List SourcePolicyVersion
  audit : List AuditRow

/-- A row of `sources`, or an entry of a unique index. -/
inductive ControlLock where
  | source (id : Uuid)
  | sourceId (name : String)
  | policyVersion (source : Uuid) (version : Int)
  deriving DecidableEq, Repr

inductive ControlError where
  /-- `InvalidValueError`. -/
  | invalidValue (field : String)
  /-- A constraint or a column type refused the row. -/
  | integrityError (table : String)
  /-- `NotFoundError` of a source. -/
  | sourceNotFound (id : Uuid)
  /-- `StaleRevisionError`. -/
  | staleRevision (id : Uuid) (expected actual : Int)
  /-- `ConflictError`: the source is registered already. -/
  | registered (sourceId : String)
  deriving DecidableEq, Repr

abbrev ControlTxn := Txn ControlDb ControlLock ControlError

/-- What the clock and the id generator give inside one transaction. -/
structure Drawn where
  sourceId : Uuid
  policyId : Uuid
  auditId : Uuid
  now : Time
  deriving DecidableEq, Repr

def addSource (source : Source) (db : ControlDb) : ControlDb :=
  { db with sources := db.sources.insert source }

def putSource (source : Source) (db : ControlDb) : ControlDb := { db with sources := db.sources.put source }

def addPolicy (policy : SourcePolicyVersion) (db : ControlDb) : ControlDb :=
  { db with policies := db.policies ++ [policy] }

def addAudit (row : AuditRow) (db : ControlDb) : ControlDb := { db with audit := db.audit ++ [row] }

/-- `create_source`. -/
def createSource (sourceId domain country : String) (d : Drawn) (state : SourceState := .paused)
    (actor : Option String := none) : ControlTxn Source := do
  if (← .view).sources.rows.any fun other => other.sourceId = sourceId then
    .raise (.registered sourceId)
  else
    let source : Source := {
      id := d.sourceId, sourceId, domain, country, state, stateReason := none
      currentPolicyVersionId := none, revision := 1, updatedBy := actor, createdAt := d.now, updatedAt := d.now }
    .ensure source.admissible (.integrityError "sources")
    .insertUnique (.sourceId sourceId)
      (fun db => db.sources.rows.any fun other => other.sourceId = sourceId) (.integrityError "sources")
    .modify (addSource source)
    return source

/-- `_raise_stale_or_missing`. -/
def raiseStaleOrMissing {α : Type} (sourcePk : Uuid) (expectedRevision : Int) : ControlTxn α := do
  match (← .view).sources.find? sourcePk with
  | none => .raise (.sourceNotFound sourcePk)
  | some source => .raise (.staleRevision sourcePk expectedRevision source.revision)

/-- The row with the revision that the caller has seen, locked. -/
def lockRevision (mode : LockMode) (sourcePk : Uuid) (expectedRevision : Int) : ControlTxn (Option Source) :=
  .selectLocked mode (.source sourcePk) fun db =>
    (db.sources.find? sourcePk).filter fun source => source.revision = expectedRevision

/-- `append_audit` about a source; it passes no idempotency key. -/
def auditSource (d : Drawn) (source : Source) (actor action : String)
    (before after : List (String × AuditValue)) (requestId : Option String) : AuditRow where
  auditId := d.auditId
  createdAt := d.now
  actor := actor
  action := action
  resourceType := "source"
  resourceId := source.sourceId
  beforeState := some before
  afterState := some after
  requestId := requestId
  idempotencyKey := none

def appendAudit (row : AuditRow) : ControlTxn AuditRow :=
  appendAuditRow ControlDb.audit addAudit (.integrityError "audit_log") row

def Source.setState (state : SourceState) (reason actor : String) (now : Time) (source : Source) : Source :=
  { source with
    state, stateReason := some reason, revision := source.revision + 1, updatedBy := some actor
    updatedAt := now }

/-- `set_source_state`. The state for the audit is read before the row is locked. -/
def setSourceState (sourcePk : Uuid) (state : SourceState) (expectedRevision : Int) (reason actor : String)
    (requestId : Option String) (d : Drawn) : ControlTxn Source := do
  .ensure (!blank (some actor)) (.invalidValue "actor")
  .ensure (!blank (some reason)) (.invalidValue "reason")
  let beforeState := ((← .view).sources.find? sourcePk).map Source.state
  match ← lockRevision .noKeyUpdate sourcePk expectedRevision with
  | none => raiseStaleOrMissing sourcePk expectedRevision
  | some found =>
    let source := found.setState state reason actor d.now
    .ensure source.admissible (.integrityError "sources")
    .modify (putSource source)
    let _ ← appendAudit (auditSource d source actor "source.set_state"
      [("state", (beforeState.map fun s => AuditValue.text s.value).getD .null),
        ("revision", .int expectedRevision)]
      [("state", .text source.state.value), ("revision", .int source.revision), ("reason", .text reason)]
      requestId)
    return source

def policiesOf (sourcePk : Uuid) (db : ControlDb) : List SourcePolicyVersion :=
  db.policies.filter fun policy => policy.sourceId = sourcePk

/-- `ORDER BY version DESC LIMIT 1`. -/
def lastVersion (sourcePk : Uuid) (db : ControlDb) : Option Int :=
  ((policiesOf sourcePk db).map SourcePolicyVersion.version).max?

def auditId (id : Option Uuid) : AuditValue := (id.map fun id => .text (Contracts.uuidText id)).getD .null

def PolicySnapshot.row (policy : PolicySnapshot) (sourcePk : Uuid) (version : Int) (actor : String)
    (effectiveFrom : Option Time) (d : Drawn) : SourcePolicyVersion :=
  { policy with
    id := d.policyId, sourceId := sourcePk, version, effectiveFrom := effectiveFrom.getD d.now
    createdBy := some actor, createdAt := d.now }

def Source.setPolicy (policyVersionId : Uuid) (actor : String) (now : Time) (source : Source) : Source :=
  { source with
    currentPolicyVersionId := some policyVersionId, revision := source.revision + 1, updatedBy := some actor
    updatedAt := now }

/-- `add_policy_version`. -/
def addPolicyVersion (sourcePk : Uuid) (policy : PolicySnapshot) (expectedRevision : Int)
    (actor reason : String) (effectiveFrom : Option Time) (requestId : Option String) (d : Drawn) :
    ControlTxn SourcePolicyVersion := do
  .ensure (!blank (some actor)) (.invalidValue "actor")
  .ensure (!blank (some reason)) (.invalidValue "reason")
  match ← lockRevision .update sourcePk expectedRevision with
  | none => raiseStaleOrMissing sourcePk expectedRevision
  | some found =>
    let last := lastVersion sourcePk (← .view)
    let version := policy.row sourcePk (last.getD 0 + 1) actor effectiveFrom d
    .ensure version.admissible (.integrityError "source_policy_versions")
    .insertUnique (.policyVersion sourcePk version.version)
      (fun db => (policiesOf sourcePk db).any fun other => other.version = version.version)
      (.integrityError "source_policy_versions")
    .modify (addPolicy version)
    let source := found.setPolicy version.id actor d.now
    .ensure source.admissible (.integrityError "sources")
    .modify (putSource source)
    let _ ← appendAudit (auditSource d source actor "source.add_policy_version"
      [("current_policy_version_id", auditId found.currentPolicyVersionId), ("revision", .int expectedRevision)]
      [("current_policy_version_id", auditId (some version.id)), ("policy_version", .int version.version),
        ("manifest_sha256", .text policy.manifestSha256), ("revision", .int source.revision),
        ("reason", .text reason)] requestId)
    return version

/-- The transactions on one source. -/
inductive SourceCall where
  | setState (state : SourceState) (expectedRevision : Int) (reason actor : String)
      (requestId : Option String) (d : Drawn)
  | addPolicy (policy : PolicySnapshot) (expectedRevision : Int) (actor reason : String)
      (effectiveFrom : Option Time) (requestId : Option String) (d : Drawn)

def SourceCall.expectedRevision : SourceCall → Int
  | .setState _ expected _ _ _ _ | .addPolicy _ expected _ _ _ _ _ => expected

inductive SourceAnswer where
  | source (source : Source)
  | policy (policy : SourcePolicyVersion)

def sourceProgram (sourcePk : Uuid) : SourceCall → ControlTxn SourceAnswer
  | .setState state expectedRevision reason actor requestId d =>
    .source <$> setSourceState sourcePk state expectedRevision reason actor requestId d
  | .addPolicy policy expectedRevision actor reason effectiveFrom requestId d =>
    .policy <$> addPolicyVersion sourcePk policy expectedRevision actor reason effectiveFrom requestId d

abbrev SourceEnded := Ended ControlDb ControlError SourceAnswer SourceCall

end Collector.Persistence.Sources
