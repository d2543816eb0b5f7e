import Collector.Persistence.Pools

/-!
The row of a worker instance: registration at boot, the heartbeat, the transitions that
operators and the worker itself ask for, and the sweep that marks silent instances stale. The
drain intent is kept in `drain_requested_at`, apart from the status.
-/

namespace Collector.Persistence.Pools
open Collector.Lib Collector.Persistence

section Transactions
variable {queue lock : Type}

/-- `_lock_instance`. -/
def lockInstance (instanceId : Uuid) :
    Txn (Fleet queue) (FleetLock lock) PoolError WorkerInstance := do
  let row ← .selectLocked .update (.instance instanceId) (fun c => c.instances.find? instanceId)
  .require row (.notFound "worker_instances" instanceId)

structure Registration where
  instanceId : Uuid
  role : WorkerRole
  version : String
  slotsTotal : Int
  deployment : Option String
  containerId : Option String
  hostname : Option String
  poolRevision : Option Int
  now : Time
  deriving DecidableEq, Repr

def Registration.row (r : Registration) : WorkerInstance :=
  { instanceId := r.instanceId, role := r.role, status := .starting, deployment := r.deployment
    containerId := r.containerId, hostname := r.hostname, version := r.version
    slotsTotal := r.slotsTotal, slotsActive := 0, activeLeases := 0, poolRevision := r.poolRevision
    drainRequestedAt := none, startedAt := r.now, lastHeartbeatAt := r.now, stoppedAt := none
    createdAt := r.now, updatedAt := r.now }

/-- `register_instance`; the foreign key takes a `FOR KEY SHARE` lock on the pool row. -/
def registerInstance (r : Registration) :
    Txn (Fleet queue) (FleetLock lock) PoolError WorkerInstance := do
  .ensure r.row.admissible (.integrityError "worker_instances")
  .insertUnique (.instance r.instanceId) (fun c => (c.instances.find? r.instanceId).isSome)
    (.integrityError "worker_instances")
  .modify (Fleet.addInstance r.row)
  let pool ← .selectLocked .keyShare (.pool r.role) (fun c => c.pools.find? r.role)
  .ensure pool.isSome (.integrityError "worker_instances")
  return r.row

structure Heartbeat where
  slotsTotal : Option Int
  slotsActive : Int
  activeLeases : Int
  poolRevision : Option Int
  now : Time
  deriving DecidableEq, Repr

/-- A stale instance that beats again goes back to what it was asked to be. -/
def WorkerInstance.revivedStatus (row : WorkerInstance) : InstanceStatus :=
  if row.status = .stale then
    if row.drainRequestedAt.isSome then .draining else .ready
  else row.status

def WorkerInstance.beat (row : WorkerInstance) (h : Heartbeat) : WorkerInstance :=
  { row with
    status := row.revivedStatus, slotsActive := h.slotsActive, activeLeases := h.activeLeases
    slotsTotal := h.slotsTotal.getD row.slotsTotal, poolRevision := h.poolRevision
    lastHeartbeatAt := h.now, updatedAt := h.now }

def heartbeatInstance (instanceId : Uuid) (h : Heartbeat) :
    Txn (Fleet queue) (FleetLock lock) PoolError WorkerInstance := do
  let row ← lockInstance instanceId
  .ensure (decide (row.status ≠ .stopped)) (.invalidTransition instanceId)
  .ensure (row.beat h).admissible (.integrityError "worker_instances")
  .modify (Fleet.setInstance (row.beat h))
  return row.beat h

/-- The columns a transition writes. -/
def WorkerInstance.moved (row : WorkerInstance) (status : InstanceStatus) (now : Time) :
    WorkerInstance :=
  let row := { row with status, updatedAt := now }
  match status with
  | .draining => { row with drainRequestedAt := some now }
  | .ready => { row with drainRequestedAt := none }
  | .stopped => { row with stoppedAt := some now, slotsActive := 0, activeLeases := 0 }
  | .starting | .stale => row

/-- `set_instance_status`, with `mark_ready`, `mark_draining` and `mark_stopped` as its uses. A
status that is not in the enumeration is in no row of the table, so it is refused. -/
def setInstanceStatus (instanceId : Uuid) (status : InstanceStatus) (now : Time) :
    Txn (Fleet queue) (FleetLock lock) PoolError WorkerInstance := do
  let row ← lockInstance instanceId
  if row.status = status then
    return row
  else
    .ensure (decide (status ∈ row.status.transitions)) (.invalidTransition instanceId)
    .modify (Fleet.setInstance (row.moved status now))
    return row.moved status now

/-- A live instance whose last heartbeat is older than the time to live. -/
def WorkerInstance.silent (row : WorkerInstance) (heartbeatTtl now : Time) : Bool :=
  decide (row.status ∈ [.starting, .ready, .draining]) &&
    decide (row.lastHeartbeatAt < now - heartbeatTtl)

def silentInstance (heartbeatTtl now : Time) (c : Fleet queue) (id : Uuid) : Bool :=
  (c.instances.find? id).any fun row => row.silent heartbeatTtl now

def WorkerInstance.toStale (now : Time) (row : WorkerInstance) : WorkerInstance :=
  { row with status := .stale, updatedAt := now }

def markStale (now : Time) (id : Uuid) (c : Fleet queue) : Fleet queue :=
  { c with
    instances := c.instances.update (fun row => row.instanceId = id) (.toStale now) fun _ => rfl }

def markStaleInstances (heartbeatTtl now : Time) :
    Txn (Fleet queue) (FleetLock lock) PoolError (List Uuid) := do
  let c ← .view
  .updateEach .instance (silentInstance heartbeatTtl now) (markStale now)
    (c.instances.keys.filter (silentInstance heartbeatTtl now c))

end Transactions
end Collector.Persistence.Pools
