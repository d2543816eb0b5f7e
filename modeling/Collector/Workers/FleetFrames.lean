import Collector.Lib.RelyGuarantee
import Collector.Workers.ClaimPass

/-!
What each transaction on the control-plane tables leaves alone: the pool transactions write no
instance, the instance transactions write no pool and no command, and a claim pass writes only
task tables.
-/

namespace Collector.Workers
open Collector.Lib Collector.Persistence Collector.Persistence.Pools

variable {queue lock task : Type} {γ : Type} {kept : Fleet queue → γ}

theorem keeps_appendFleetAudit (same : ∀ row c, kept (Fleet.addAudit row c) = kept c)
    (row : AuditRow) :
    (appendFleetAudit row : Txn (Fleet queue) (FleetLock lock) PoolError AuditRow).Keeps kept := by
  apply Txn.keeps_view
  intro c
  split
  · trivial
  · refine .bind Txn.keeps_ensure fun _ => ?_
    exact Txn.keeps_modify (same row) trivial

theorem keeps_validate (state : PoolDesiredState) :
    (state.validate : Txn (Fleet queue) (FleetLock lock) PoolError Unit).Keeps kept := by
  unfold PoolDesiredState.validate
  refine .bind Txn.keeps_ensure fun _ => ?_
  refine .bind Txn.keeps_ensure fun _ => ?_
  refine .bind Txn.keeps_ensure fun _ => ?_
  refine .bind Txn.keeps_ensure fun _ => ?_
  exact Txn.keeps_ensure

theorem keeps_raiseStaleOrMissingPool {α : Type} (role : WorkerRole) (expected : Int) :
    (raiseStaleOrMissingPool role expected :
      Txn (Fleet queue) (FleetLock lock) PoolError α).Keeps kept := by
  apply Txn.keeps_view
  intro c
  split <;> trivial

/-- The pool transactions never write an instance. -/
theorem upsertPool_keeps_instances (role : WorkerRole) (state : PoolDesiredState)
    (actor reason : String) (expectedRevision : Option Int) (now : Time) (auditId : Uuid) :
    (upsertPool role state actor reason expectedRevision now auditId :
      Txn (Fleet queue) (FleetLock lock) PoolError WorkerPool).Keeps Fleet.instances := by
  unfold upsertPool
  refine .bind Txn.keeps_ensure fun _ => ?_
  refine .bind Txn.keeps_ensure fun _ => ?_
  refine .bind (keeps_validate state) fun _ => ?_
  cases expectedRevision with
  | none =>
    refine Txn.keeps_view fun c => ?_
    refine .bind Txn.keeps_ensure fun _ => ?_
    refine .bind Txn.keeps_ensure fun _ => ?_
    refine .bind Txn.keeps_insertUnique fun _ => ?_
    refine Txn.keeps_modify (fun _ => rfl) ?_
    exact .bind (keeps_appendFleetAudit (fun _ _ => rfl) _) fun _ => trivial
  | some expected =>
    refine Txn.keeps_view fun c => ?_
    refine .bind Txn.keeps_selectLocked fun found => ?_
    split
    · exact keeps_raiseStaleOrMissingPool role expected
    · refine .bind Txn.keeps_ensure fun _ => ?_
      refine Txn.keeps_modify (fun _ => rfl) ?_
      exact .bind (keeps_appendFleetAudit (fun _ _ => rfl) _) fun _ => trivial

theorem createCommand_keeps_instances (request : ScaleRequest) (pool : WorkerPool) :
    (createCommand request pool :
      Txn (Fleet queue) (FleetLock lock) PoolError ScaleCommand).Keeps Fleet.instances := by
  unfold createCommand
  refine .bind Txn.keeps_ensure fun _ => ?_
  refine .bind Txn.keeps_ensure fun _ => ?_
  refine Txn.keeps_modify (fun _ => rfl) ?_
  refine .bind (p := supersedeActive _ _) ?_ fun _ => ?_
  · refine Txn.keeps_view fun c => ?_
    apply Txn.keeps_updateEach
    intro id c
    rfl
  refine .bind (keeps_appendFleetAudit (fun _ _ => rfl) _) fun _ => ?_
  refine .bind Txn.keeps_ensure fun _ => ?_
  refine .bind Txn.keeps_insertUnique fun _ => ?_
  refine .bind Txn.keeps_insertUnique fun _ => ?_
  exact Txn.keeps_modify (fun _ => rfl) trivial

theorem requestScale_keeps_instances (request : ScaleRequest) :
    (requestScale request :
      Txn (Fleet queue) (FleetLock lock) PoolError ScaleCommand).Keeps Fleet.instances := by
  unfold requestScale
  refine .bind Txn.keeps_ensure fun _ => ?_
  refine .bind Txn.keeps_ensure fun _ => ?_
  refine Txn.keeps_view fun c => ?_
  split
  · trivial
  refine .bind Txn.keeps_selectLocked fun found => ?_
  split
  · refine Txn.keeps_view fun c => ?_
    split
    · trivial
    · exact keeps_raiseStaleOrMissingPool _ _
  · exact createCommand_keeps_instances request _

theorem transitionScaleCommand_keeps_instances (commandId : Uuid) (status : ScaleStatus)
    (result : Option String) (heartbeatTtl now : Time) :
    (transitionScaleCommand commandId status result heartbeatTtl now :
      Txn (Fleet queue) (FleetLock lock) PoolError ScaleCommand).Keeps Fleet.instances := by
  unfold transitionScaleCommand
  refine .bind Txn.keeps_selectLocked fun found => ?_
  split
  · trivial
  refine .bind Txn.keeps_ensure fun _ => ?_
  split
  · refine Txn.keeps_view fun c => ?_
    refine .bind Txn.keeps_ensure fun _ => ?_
    refine .bind Txn.keeps_ensure fun _ => ?_
    exact Txn.keeps_modify (fun _ => rfl) trivial
  · refine .bind Txn.keeps_ensure fun _ => ?_
    exact Txn.keeps_modify (fun _ => rfl) trivial

theorem keeps_claimFrom (same : ∀ tasks c, kept { c with tasks } = kept c)
    (bindings : List (Claimer queue lock task)) (limit : Nat) (now : Time) (visit : List Nat)
    (claimed : Claimed task) : (claimFrom bindings limit now visit claimed).Keeps kept := by
  induction visit generalizing claimed with
  | nil => trivial
  | cons index rest ih =>
    unfold claimFrom
    split
    · trivial
    split
    · exact ih claimed
    refine .bind (Txn.keeps_zoom same _) fun tasks => ?_
    split
    · exact ih claimed
    · exact ih _

theorem keeps_claimPass (same : ∀ tasks c, kept { c with tasks } = kept c) (instanceId : Uuid)
    (bindings : List (Claimer queue lock task)) (start limit : Nat) (now : Time) :
    (claimPass instanceId bindings start limit now).Keeps kept := by
  unfold claimPass claimAllowed
  refine .bind (.bind Txn.keeps_selectLocked fun found => ?_) fun allowed => ?_
  · split <;> trivial
  · split
    · exact keeps_claimFrom same bindings limit now _ _
    · trivial

/-- What the scale commands are about. -/
def desiredState (c : Fleet queue) : Table WorkerPool.role × Table ScaleCommand.commandId :=
  (c.pools, c.commands)

theorem keeps_lockInstance (instanceId : Uuid) :
    (lockInstance instanceId :
      Txn (Fleet queue) (FleetLock lock) PoolError WorkerInstance).Keeps kept := by
  refine .bind Txn.keeps_selectLocked fun found => ?_
  cases found <;> trivial

theorem registerInstance_keeps_desiredState (r : Registration) :
    (registerInstance r :
      Txn (Fleet queue) (FleetLock lock) PoolError WorkerInstance).Keeps desiredState := by
  unfold registerInstance
  refine .bind Txn.keeps_ensure fun _ => ?_
  refine .bind Txn.keeps_insertUnique fun _ => ?_
  refine Txn.keeps_modify (fun _ => rfl) ?_
  refine .bind Txn.keeps_selectLocked fun found => ?_
  exact .bind Txn.keeps_ensure fun _ => trivial

theorem heartbeatInstance_keeps_desiredState (instanceId : Uuid) (h : Heartbeat) :
    (heartbeatInstance instanceId h :
      Txn (Fleet queue) (FleetLock lock) PoolError WorkerInstance).Keeps desiredState := by
  unfold heartbeatInstance
  refine .bind (keeps_lockInstance instanceId) fun row => ?_
  refine .bind Txn.keeps_ensure fun _ => ?_
  refine .bind Txn.keeps_ensure fun _ => ?_
  exact Txn.keeps_modify (fun _ => rfl) trivial

theorem setInstanceStatus_keeps_desiredState (instanceId : Uuid) (status : InstanceStatus)
    (now : Time) : (setInstanceStatus instanceId status now :
      Txn (Fleet queue) (FleetLock lock) PoolError WorkerInstance).Keeps desiredState := by
  unfold setInstanceStatus
  refine .bind (keeps_lockInstance instanceId) fun row => ?_
  split
  · trivial
  · refine .bind Txn.keeps_ensure fun _ => ?_
    exact Txn.keeps_modify (fun _ => rfl) trivial

theorem markStaleInstances_keeps_desiredState (heartbeatTtl now : Time) :
    (markStaleInstances heartbeatTtl now :
      Txn (Fleet queue) (FleetLock lock) PoolError (List Uuid)).Keeps desiredState := by
  refine Txn.keeps_view fun c => ?_
  apply Txn.keeps_updateEach
  intro id c
  rfl

end Collector.Workers
