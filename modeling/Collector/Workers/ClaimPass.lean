import Collector.Persistence.Instances

/-!
One claim pass of the worker runtime and, with it, all transactions on the control-plane
tables. The pass looks at the instance's own row under `FOR SHARE` in the transaction that
takes the tasks, then goes round the bindings of the role. A binding's backend is any
transaction on the task tables.
-/

namespace Collector.Workers
open Collector.Lib Collector.Persistence Collector.Persistence.Pools

/-- `binding.backend.claim` with the handler's job types, the owner and the lease fixed. -/
abbrev Claimer (queue lock task : Type) :=
  (limit : Nat) → (now : Time) → Txn queue lock PoolError (List task)

section Transactions
variable {queue lock task : Type}

/-- `_claim_allowed`. -/
def claimAllowed (instanceId : Uuid) : Txn (Fleet queue) (FleetLock lock) PoolError Bool := do
  match ← .selectLocked .share (.instance instanceId) (fun c => c.instances.find? instanceId) with
  | none => return false
  | some row => return row.drainRequestedAt.isNone && decide (row.status = .ready)

/-- What a pass took, each task with the index of its binding, and where the next pass starts. -/
structure Claimed (task : Type) where
  tasks : List (task × Nat)
  nextBinding : Nat
  deriving DecidableEq, Repr

/-- The loop over the bindings, in the order in which they are visited. -/
def claimFrom (bindings : List (Claimer queue lock task)) (limit : Nat) (now : Time) :
    List Nat → Claimed task → Txn (Fleet queue) (FleetLock lock) PoolError (Claimed task)
  | [], claimed => return claimed
  | index :: rest, claimed => do
    if limit ≤ claimed.tasks.length then
      return claimed
    else
      match bindings[index]? with
      | none => claimFrom bindings limit now rest claimed
      | some binding =>
        let tasks ← (binding (limit - claimed.tasks.length) now).zoom Fleet.tasks
          (fun tasks c => { c with tasks }) FleetLock.task
        if tasks.isEmpty then
          claimFrom bindings limit now rest claimed
        else
          claimFrom bindings limit now rest
            { tasks := claimed.tasks ++ tasks.map fun task => (task, index)
              nextBinding := (index + 1) % bindings.length }

/-- `_claim`: `start` is `_next_binding`. -/
def claimPass (instanceId : Uuid) (bindings : List (Claimer queue lock task)) (start limit : Nat)
    (now : Time) : Txn (Fleet queue) (FleetLock lock) PoolError (Claimed task) := do
  if ← claimAllowed instanceId then
    claimFrom bindings limit now
      ((List.range bindings.length).map fun offset => (start + offset) % bindings.length) ⟨[], start⟩
  else
    return ⟨[], start⟩

inductive FleetCall (queue lock task : Type) where
  | upsertPool (role : WorkerRole) (state : PoolDesiredState) (actor reason : String)
      (expectedRevision : Option Int) (now : Time) (auditId : Uuid)
  | requestScale (request : ScaleRequest)
  | transitionScaleCommand (commandId : Uuid) (status : ScaleStatus) (result : Option String)
      (heartbeatTtl now : Time)
  | registerInstance (registration : Registration)
  | heartbeatInstance (instanceId : Uuid) (heartbeat : Heartbeat)
  | setInstanceStatus (instanceId : Uuid) (status : InstanceStatus) (now : Time)
  | markStaleInstances (heartbeatTtl now : Time)
  | claimPass (instanceId : Uuid) (bindings : List (Claimer queue lock task)) (start limit : Nat)
      (now : Time)

inductive FleetAnswer (task : Type) where
  | pool (row : WorkerPool)
  | command (row : ScaleCommand)
  | instance (row : WorkerInstance)
  | stale (ids : List Uuid)
  | claimed (claimed : Claimed task)
  deriving DecidableEq, Repr

/-- The transaction behind each call. -/
def fleetProgram : FleetCall queue lock task →
    Txn (Fleet queue) (FleetLock lock) PoolError (FleetAnswer task)
  | .upsertPool role state actor reason expectedRevision now auditId =>
    .pool <$> upsertPool role state actor reason expectedRevision now auditId
  | .requestScale request => .command <$> requestScale request
  | .transitionScaleCommand commandId status result heartbeatTtl now =>
    .command <$> transitionScaleCommand commandId status result heartbeatTtl now
  | .registerInstance registration => .instance <$> registerInstance registration
  | .heartbeatInstance instanceId heartbeat => .instance <$> heartbeatInstance instanceId heartbeat
  | .setInstanceStatus instanceId status now => .instance <$> setInstanceStatus instanceId status now
  | .markStaleInstances heartbeatTtl now => .stale <$> markStaleInstances heartbeatTtl now
  | .claimPass instanceId bindings start limit now =>
    .claimed <$> claimPass instanceId bindings start limit now

end Transactions

/-- A transaction on the control-plane tables that ended. -/
abbrev FleetEnded (queue lock task : Type) :=
  Ended (Fleet queue) PoolError (FleetAnswer task) (FleetCall queue lock task)

abbrev FleetSystem (queue lock task : Type) :=
  System (Fleet queue) (FleetLock lock) PoolError (FleetAnswer task) (FleetCall queue lock task)

end Collector.Workers
