import Collector.Lib.Table
import Collector.Persistence.AuditLog

/-!
Worker pools, worker instances and scale commands: the desired state under an optimistic
revision, the heartbeat of a boot instance, and the commands that move a pool to a new
desired state. Every repository call is one READ COMMITTED transaction; `session.get` with a
lock and `SELECT … FOR UPDATE` return the newest version of the row, and a query never finds an
object that an earlier query of the session left in the identity map.
-/

namespace Collector.Persistence.Pools
open Collector.Lib Collector.Persistence

inductive WorkerRole where
  | discovery
  | fetch
  | browser
  | parse
  | projector
  | translation
  | «export»
  | maintenance
  deriving DecidableEq, Repr

def WorkerRole.value : WorkerRole → String
  | .discovery => "discovery"
  | .fetch => "fetch"
  | .browser => "browser"
  | .parse => "parse"
  | .projector => "projector"
  | .translation => "translation"
  | .export => "export"
  | .maintenance => "maintenance"

inductive InstanceStatus where
  | starting
  | ready
  | draining
  | stopped
  | stale
  deriving DecidableEq, Repr

/-- `INSTANCE_TRANSITIONS`. -/
def InstanceStatus.transitions : InstanceStatus → List InstanceStatus
  | .starting => [.ready, .stopped, .stale]
  | .ready => [.draining, .stopped, .stale]
  | .draining => [.ready, .stopped, .stale]
  | .stale => [.ready, .draining, .stopped]
  | .stopped => []

inductive ScaleStatus where
  | requested
  | draining
  | awaitingManualApply
  | applying
  | applied
  | failed
  | superseded
  deriving DecidableEq, Repr

/-- `SCALE_COMMAND_TRANSITIONS`. -/
def ScaleStatus.transitions : ScaleStatus → List ScaleStatus
  | .requested => [.draining, .failed, .superseded]
  | .draining => [.awaitingManualApply, .applying, .failed, .superseded]
  | .awaitingManualApply => [.applying, .applied, .failed, .superseded]
  | .applying => [.applied, .failed, .superseded]
  | .applied | .failed | .superseded => []

/-- `SCALE_COMMAND_TERMINAL`. -/
def ScaleStatus.terminal : ScaleStatus → Bool
  | .applied | .failed | .superseded => true
  | _ => false

theorem ScaleStatus.transitions_of_terminal {status : ScaleStatus}
    (ended : status.terminal = true) : status.transitions = [] := by
  cases status <;> first | rfl | cases ended

inductive Orchestrator where
  | compose
  | swarm
  deriving DecidableEq, Repr

inductive PoolError where
  /-- `InvalidValueError` about a parameter or a column. -/
  | invalidValue (field : String)
  /-- `ConflictError` of a second creation. -/
  | conflict (role : WorkerRole)
  /-- `NotFoundError` of a pool. -/
  | poolNotFound (role : WorkerRole)
  /-- `StaleRevisionError`. -/
  | staleRevision (role : WorkerRole) (expected actual : Int)
  /-- `NotFoundError` of a row with a UUID. -/
  | notFound (table : String) (id : Uuid)
  /-- `InvalidTransitionError`. -/
  | invalidTransition (id : Uuid)
  /-- A constraint or a column type refused the row. -/
  | integrityError (table : String)
  deriving DecidableEq, Repr

structure WorkerPool where
  role : WorkerRole
  desiredReplicas : Int
  desiredConcurrency : Int
  minReplicas : Int
  maxReplicas : Int
  mode : String
  resourceProfile : String
  revision : Int
  updatedBy : Option String
  updateReason : Option String
  createdAt : Time
  updatedAt : Time
  deriving DecidableEq, Repr

structure WorkerInstance where
  instanceId : Uuid
  role : WorkerRole
  status : InstanceStatus
  deployment : Option String
  containerId : Option String
  hostname : Option String
  version : String
  slotsTotal : Int
  slotsActive : Int
  activeLeases : Int
  poolRevision : Option Int
  drainRequestedAt : Option Time
  startedAt : Time
  lastHeartbeatAt : Time
  stoppedAt : Option Time
  createdAt : Time
  updatedAt : Time
  deriving DecidableEq, Repr

structure ScaleCommand where
  commandId : Uuid
  idempotencyKey : String
  role : WorkerRole
  expectedPoolRevision : Int
  appliedPoolRevision : Int
  requestedReplicas : Int
  requestedConcurrency : Int
  status : ScaleStatus
  cliCommand : Option String
  result : Option String
  actor : String
  reason : String
  auditId : Uuid
  auditCreatedAt : Time
  createdAt : Time
  updatedAt : Time
  appliedAt : Option Time
  deriving DecidableEq, Repr

/-- `POOL_MODES`. -/
def poolModes : List String := ["manual", "autoscale"]

/-- The CHECK constraints and column types of `worker_pools`. -/
def WorkerPool.admissible (pool : WorkerPool) : Bool :=
  decide (pool.mode ∈ poolModes) && fits 64 (some pool.resourceProfile) && fits 128 pool.updatedBy &&
    fits 512 pool.updateReason && inRange 32 pool.desiredReplicas &&
    inRange 32 pool.desiredConcurrency && inRange 32 pool.minReplicas &&
    inRange 32 pool.maxReplicas && inRange 64 pool.revision &&
    decide (0 ≤ pool.minReplicas ∧ pool.minReplicas ≤ pool.maxReplicas ∧
      pool.minReplicas ≤ pool.desiredReplicas ∧ pool.desiredReplicas ≤ pool.maxReplicas ∧
      1 ≤ pool.desiredConcurrency)

/-- The CHECK constraints and column types of `worker_instances`. -/
def WorkerInstance.admissible (row : WorkerInstance) : Bool :=
  fits 128 row.deployment && fits 128 row.containerId && fits 256 row.hostname &&
    fits 128 (some row.version) && inRange 32 row.slotsTotal && inRange 32 row.slotsActive &&
    inRange 32 row.activeLeases && (row.poolRevision.all fun n => inRange 64 n) &&
    decide (0 ≤ row.slotsTotal ∧ 0 ≤ row.slotsActive ∧ 0 ≤ row.activeLeases)

/-- The CHECK constraints and column types of `scale_commands`. -/
def ScaleCommand.admissible (row : ScaleCommand) : Bool :=
  fits 512 (some row.idempotencyKey) && fits 1024 row.cliCommand && fits 2048 row.result &&
    fits 128 (some row.actor) && fits 512 (some row.reason) &&
    inRange 64 row.expectedPoolRevision && inRange 64 row.appliedPoolRevision &&
    inRange 32 row.requestedReplicas && inRange 32 row.requestedConcurrency &&
    decide (0 ≤ row.requestedReplicas ∧ 1 ≤ row.requestedConcurrency)

/-- The tables of the control plane; `queue` is whatever the task backends keep. -/
structure Fleet (queue : Type) where
  pools : Table WorkerPool.role
  instances : Table WorkerInstance.instanceId
  commands : Table ScaleCommand.commandId
  audit : List AuditRow
  tasks : queue

/-- What a transaction locks: rows, entries of the unique index on the idempotency key, and
the rows of the task backends. -/
inductive FleetLock (lock : Type) where
  | pool (role : WorkerRole)
  | instance (id : Uuid)
  | command (id : Uuid)
  | commandKey (key : String)
  | task (row : lock)
  deriving DecidableEq, Repr

structure PoolDesiredState where
  desiredReplicas : Int
  desiredConcurrency : Int
  maxReplicas : Int
  minReplicas : Int
  mode : String
  resourceProfile : String
  deriving DecidableEq, Repr

section Transactions
variable {queue lock : Type}

def PoolDesiredState.validate (state : PoolDesiredState) :
    Txn (Fleet queue) (FleetLock lock) PoolError Unit := do
  .ensure (decide (0 ≤ state.minReplicas)) (.invalidValue "min_replicas")
  .ensure (decide (state.minReplicas ≤ state.maxReplicas)) (.invalidValue "max_replicas")
  .ensure (decide (state.minReplicas ≤ state.desiredReplicas ∧
    state.desiredReplicas ≤ state.maxReplicas)) (.invalidValue "desired_replicas")
  .ensure (decide (1 ≤ state.desiredConcurrency)) (.invalidValue "desired_concurrency")
  .ensure (decide (state.mode ∈ poolModes)) (.invalidValue "mode")

/-- `_pool_state`. -/
def WorkerPool.state (pool : WorkerPool) : List (String × AuditValue) :=
  [("desired_replicas", .int pool.desiredReplicas),
    ("desired_concurrency", .int pool.desiredConcurrency), ("min_replicas", .int pool.minReplicas),
    ("max_replicas", .int pool.maxReplicas), ("mode", .text pool.mode),
    ("revision", .int pool.revision)]

def Fleet.setPool (pool : WorkerPool) (c : Fleet queue) : Fleet queue :=
  { c with pools := c.pools.put pool }

def Fleet.addPool (pool : WorkerPool) (c : Fleet queue) : Fleet queue :=
  { c with pools := c.pools.insert pool }

def Fleet.setInstance (row : WorkerInstance) (c : Fleet queue) : Fleet queue :=
  { c with instances := c.instances.put row }

def Fleet.addInstance (row : WorkerInstance) (c : Fleet queue) : Fleet queue :=
  { c with instances := c.instances.insert row }

def Fleet.setCommand (row : ScaleCommand) (c : Fleet queue) : Fleet queue :=
  { c with commands := c.commands.put row }

def Fleet.addCommand (row : ScaleCommand) (c : Fleet queue) : Fleet queue :=
  { c with commands := c.commands.insert row }

def Fleet.addAudit (row : AuditRow) (c : Fleet queue) : Fleet queue :=
  { c with audit := c.audit ++ [row] }

def appendFleetAudit (row : AuditRow) : Txn (Fleet queue) (FleetLock lock) PoolError AuditRow :=
  appendAuditRow Fleet.audit Fleet.addAudit (.integrityError "audit_log") row

/-- `_raise_stale_or_missing_pool`. -/
def raiseStaleOrMissingPool {α : Type} (role : WorkerRole) (expected : Int) :
    Txn (Fleet queue) (FleetLock lock) PoolError α := do
  match (← .view).pools.find? role with
  | none => .raise (.poolNotFound role)
  | some pool => .raise (.staleRevision role expected pool.revision)

/-- The row of the pool as long as it has the expected revision. -/
def poolAt (role : WorkerRole) (expected : Int) (c : Fleet queue) : Option WorkerPool :=
  (c.pools.find? role).filter fun pool => pool.revision = expected

def upsertPool (role : WorkerRole) (state : PoolDesiredState) (actor reason : String)
    (expectedRevision : Option Int) (now : Time) (auditId : Uuid) :
    Txn (Fleet queue) (FleetLock lock) PoolError WorkerPool := do
  .ensure (!blank (some actor)) (.invalidValue "actor")
  .ensure (!blank (some reason)) (.invalidValue "reason")
  state.validate
  let entry (action : String) (before : Option WorkerPool) (pool : WorkerPool) : AuditRow :=
    { auditId, createdAt := now, actor, action, resourceType := "worker_pool"
      resourceId := role.value, beforeState := before.map WorkerPool.state
      afterState := some (pool.state ++ [("reason", .text reason)])
      requestId := none, idempotencyKey := none }
  match expectedRevision with
  | none =>
    .ensure ((← .view).pools.find? role).isNone (.conflict role)
    let pool : WorkerPool :=
      { role, desiredReplicas := state.desiredReplicas, desiredConcurrency := state.desiredConcurrency
        minReplicas := state.minReplicas, maxReplicas := state.maxReplicas, mode := state.mode
        resourceProfile := state.resourceProfile, revision := 1, updatedBy := some actor
        updateReason := some reason, createdAt := now, updatedAt := now }
    .ensure pool.admissible (.integrityError "worker_pools")
    .insertUnique (.pool role) (fun c => (c.pools.find? role).isSome) (.integrityError "worker_pools")
    .modify (Fleet.addPool pool)
    let _ ← appendFleetAudit (entry "worker_pool.create" none pool)
    return pool
  | some expected =>
    let before := (← .view).pools.find? role
    match ← .selectLocked .noKeyUpdate (.pool role) (poolAt role expected) with
    | none => raiseStaleOrMissingPool role expected
    | some pool =>
      let updated : WorkerPool :=
        { pool with
          desiredReplicas := state.desiredReplicas, desiredConcurrency := state.desiredConcurrency
          minReplicas := state.minReplicas, maxReplicas := state.maxReplicas, mode := state.mode
          resourceProfile := state.resourceProfile, revision := pool.revision + 1
          updatedBy := some actor, updateReason := some reason, updatedAt := now }
      .ensure updated.admissible (.integrityError "worker_pools")
      .modify (Fleet.setPool updated)
      let _ ← appendFleetAudit (entry "worker_pool.update" before updated)
      return updated

/-- `_find_command`. -/
def findCommand (key : String) (c : Fleet queue) : Option ScaleCommand :=
  c.commands.rows.find? fun row => row.idempotencyKey = key

structure ScaleRequest where
  role : WorkerRole
  expectedRevision : Int
  requestedReplicas : Int
  requestedConcurrency : Int
  actor : String
  reason : String
  idempotencyKey : String
  orchestrator : Orchestrator
  requestId : Option String
  now : Time
  commandId : Uuid
  auditId : Uuid
  deriving DecidableEq, Repr

/-- An active command of the role, as the supersede statement matches it. -/
def activeCommand (role : WorkerRole) (c : Fleet queue) (id : Uuid) : Bool :=
  (c.commands.find? id).any fun row => decide (row.role = role) && !row.status.terminal

def ScaleCommand.superseded (now : Time) (row : ScaleCommand) : ScaleCommand :=
  { row with status := .superseded, result := some "superseded by newer command", updatedAt := now }

def supersede (now : Time) (id : Uuid) (c : Fleet queue) : Fleet queue :=
  { c with
    commands := c.commands.update (fun row => row.commandId = id) (.superseded now) fun _ => rfl }

def supersedeActive (role : WorkerRole) (now : Time) :
    Txn (Fleet queue) (FleetLock lock) PoolError (List Uuid) := do
  let c ← .view
  .updateEach .command (activeCommand role) (supersede now)
    (c.commands.keys.filter (activeCommand role c))

/-- The desired state a scale command asks for. -/
def ScaleRequest.desired (request : ScaleRequest) (pool : WorkerPool) : WorkerPool :=
  { pool with
    desiredReplicas := request.requestedReplicas, desiredConcurrency := request.requestedConcurrency
    revision := pool.revision + 1, updatedBy := some request.actor
    updateReason := some request.reason, updatedAt := request.now }

def WorkerPool.summary (pool : WorkerPool) : List (String × AuditValue) :=
  [("desired_replicas", .int pool.desiredReplicas),
    ("desired_concurrency", .int pool.desiredConcurrency), ("revision", .int pool.revision)]

def ScaleRequest.command (request : ScaleRequest) (pool : WorkerPool) (audit : AuditRow) :
    ScaleCommand :=
  { commandId := request.commandId, idempotencyKey := request.idempotencyKey, role := request.role
    expectedPoolRevision := request.expectedRevision, appliedPoolRevision := pool.revision
    requestedReplicas := request.requestedReplicas
    requestedConcurrency := request.requestedConcurrency, status := .requested
    cliCommand := match request.orchestrator with
      | .compose => some ("docker compose up -d --no-recreate --scale worker-" ++
          request.role.value ++ "=" ++ toString request.requestedReplicas)
      | .swarm => none
    result := none, actor := request.actor, reason := request.reason, auditId := audit.auditId
    auditCreatedAt := audit.createdAt, createdAt := request.now, updatedAt := request.now
    appliedAt := none }

/-- The part of `request_scale` that writes, with the pool row locked. -/
def createCommand (request : ScaleRequest) (pool : WorkerPool) :
    Txn (Fleet queue) (FleetLock lock) PoolError ScaleCommand := do
  .ensure (decide (pool.minReplicas ≤ request.requestedReplicas ∧
    request.requestedReplicas ≤ pool.maxReplicas)) (.invalidValue "requested_replicas")
  let desired := request.desired pool
  .ensure desired.admissible (.integrityError "worker_pools")
  .modify (Fleet.setPool desired)
  let _ ← supersedeActive request.role request.now
  let audit ← appendFleetAudit
    { auditId := request.auditId, createdAt := request.now, actor := request.actor
      action := "worker_pool.scale", resourceType := "worker_pool", resourceId := request.role.value
      beforeState := some pool.summary, afterState := some desired.summary
      requestId := request.requestId, idempotencyKey := some request.idempotencyKey }
  let command := request.command desired audit
  .ensure command.admissible (.integrityError "scale_commands")
  .insertUnique (.command command.commandId)
    (fun c => (c.commands.find? command.commandId).isSome) (.integrityError "scale_commands")
  .insertUnique (.commandKey command.idempotencyKey)
    (fun c => (findCommand command.idempotencyKey c).isSome) (.integrityError "scale_commands")
  .modify (Fleet.addCommand command)
  return command

def requestScale (request : ScaleRequest) :
    Txn (Fleet queue) (FleetLock lock) PoolError ScaleCommand := do
  .ensure (decide (0 ≤ request.requestedReplicas)) (.invalidValue "requested_replicas")
  .ensure (decide (1 ≤ request.requestedConcurrency)) (.invalidValue "requested_concurrency")
  match findCommand request.idempotencyKey (← .view) with
  | some existing => return existing
  | none =>
    match ← .selectLocked .update (.pool request.role) (poolAt request.role request.expectedRevision) with
    | none =>
      -- Someone may have created the command while this call waited for the pool row.
      match findCommand request.idempotencyKey (← .view) with
      | some concurrent => return concurrent
      | none => raiseStaleOrMissingPool request.role request.expectedRevision
    | some pool => createCommand request pool

structure ObservedCapacity where
  readyReplicas : Nat
  totalSlots : Int
  minPoolRevision : Option Int
  deriving DecidableEq, Repr

/-- `observed_capacity`; like `min` of SQL, the revision skips the rows that confirmed none. -/
def observedCapacity (c : Fleet queue) (role : WorkerRole) (heartbeatTtl now : Time) :
    ObservedCapacity :=
  let ready := c.instances.rows.filter fun row =>
    decide (row.role = role ∧ row.status = .ready ∧ now - heartbeatTtl ≤ row.lastHeartbeatAt)
  { readyReplicas := ready.length
    totalSlots := (ready.map WorkerInstance.slotsTotal).sum
    minPoolRevision := (ready.filterMap WorkerInstance.poolRevision).min? }

/-- The check that lets a command become `applied`. -/
def ObservedCapacity.confirms (observed : ObservedCapacity) (command : ScaleCommand) : Bool :=
  decide ((observed.readyReplicas : Int) = command.requestedReplicas) &&
    decide (observed.totalSlots = command.requestedReplicas * command.requestedConcurrency) &&
    ((observed.minPoolRevision.any fun n => decide (command.appliedPoolRevision ≤ n)) ||
      decide (command.requestedReplicas = 0))

def transitionScaleCommand (commandId : Uuid) (status : ScaleStatus) (result : Option String)
    (heartbeatTtl now : Time) : Txn (Fleet queue) (FleetLock lock) PoolError ScaleCommand := do
  match ← .selectLocked .update (.command commandId) (fun c => c.commands.find? commandId) with
  | none => .raise (.notFound "scale_commands" commandId)
  | some command =>
    .ensure (decide (status ∈ command.status.transitions)) (.invalidTransition commandId)
    if status = .applied then
      let observed := observedCapacity (← .view) command.role heartbeatTtl now
      .ensure (observed.confirms command) (.invalidTransition commandId)
    let updated : ScaleCommand :=
      { command with
        status, result, updatedAt := now
        appliedAt := if status = .applied then some now else command.appliedAt }
    .ensure updated.admissible (.integrityError "scale_commands")
    .modify (Fleet.setCommand updated)
    return updated

end Transactions
end Collector.Persistence.Pools
