import Collector.Workers.InstanceRows

/-!
When a scale command becomes `applied`. The check counts the ready instances with a fresh
heartbeat, adds up their slots and takes the least revision that they confirmed. The aggregate
skips an instance that confirmed none, so the command is truthful exactly when there is no such
instance among them.
-/

namespace Collector.Workers
open Collector.Lib Collector.Persistence Collector.Persistence.Pools

variable {queue lock task : Type}

/-- The ready instances of the role with a fresh heartbeat. -/
def freshReady (c : Fleet queue) (role : WorkerRole) (heartbeatTtl now : Time) : List WorkerInstance :=
  c.instances.rows.filter fun row =>
    decide (row.role = role ∧ row.status = .ready ∧ now - heartbeatTtl ≤ row.lastHeartbeatAt)

/-- Every one of them has confirmed some revision. -/
def AllConfirmed (c : Fleet queue) (role : WorkerRole) (heartbeatTtl now : Time) : Prop :=
  ∀ row ∈ freshReady c role heartbeatTtl now, row.poolRevision.isSome

/-- What `applied` says about the instances of the role. -/
structure Truthful (c : Fleet queue) (command : ScaleCommand) (heartbeatTtl now : Time) : Prop where
  replicas : ((freshReady c command.role heartbeatTtl now).length : Int) = command.requestedReplicas
  slots : ((freshReady c command.role heartbeatTtl now).map WorkerInstance.slotsTotal).sum =
    command.requestedReplicas * command.requestedConcurrency
  revisions : ∀ row ∈ freshReady c command.role heartbeatTtl now,
    ∃ n, row.poolRevision = some n ∧ command.appliedPoolRevision ≤ n

/-- `transition_scale_command` to `applied` succeeds in the state and returns the command. -/
def Applies (lock : Type) (c : Fleet queue) (commandId : Uuid) (result : Option String)
    (heartbeatTtl now : Time) (command : ScaleCommand) : Prop :=
  ((transitionScaleCommand commandId .applied result heartbeatTtl now :
    Txn (Fleet queue) (FleetLock lock) PoolError ScaleCommand).alone id c).1 = .ok command

section Check
variable {c : Fleet queue} {commandId : Uuid} {result : Option String} {heartbeatTtl now : Time}
  {command : ScaleCommand}

/-- A command that is returned as `applied` passed the check on the observed capacity. -/
theorem Applies.confirmed (applies : Applies lock c commandId result heartbeatTtl now command) :
    (observedCapacity c command.role heartbeatTtl now).confirms command = true := by
  rw [Applies, transitionScaleCommand, Txn.alone_selectLocked] at applies
  cases found : c.commands.find? commandId with
  | none =>
    rw [id, found] at applies
    cases applies
  | some before =>
    rw [id, found] at applies
    dsimp only at applies
    obtain ⟨_, checked⟩ := Txn.ok_of_alone_ensure applies
    obtain ⟨passed, written⟩ : (observedCapacity c before.role heartbeatTtl now).confirms before =
        true ∧ _ := Txn.ok_of_alone_ensure (f := fun _ => _) checked
    obtain ⟨_, returned⟩ := Txn.ok_of_alone_ensure written
    cases returned
    exact passed

/-- The parts of the check, with the exact meaning of the revision: it is about the instances
that confirmed one, and there is one unless no replica is asked for. -/
theorem confirms_iff : (observedCapacity c command.role heartbeatTtl now).confirms command = true ↔
    ((freshReady c command.role heartbeatTtl now).length : Int) = command.requestedReplicas ∧
    ((freshReady c command.role heartbeatTtl now).map WorkerInstance.slotsTotal).sum =
      command.requestedReplicas * command.requestedConcurrency ∧
    (((∃ row ∈ freshReady c command.role heartbeatTtl now, row.poolRevision.isSome) ∧
      ∀ row ∈ freshReady c command.role heartbeatTtl now, ∀ n, row.poolRevision = some n →
        command.appliedPoolRevision ≤ n) ∨ command.requestedReplicas = 0) := by
  have least : ((freshReady c command.role heartbeatTtl now).filterMap
      WorkerInstance.poolRevision).min?.any (fun n => decide (command.appliedPoolRevision ≤ n)) = true ↔
      (∃ row ∈ freshReady c command.role heartbeatTtl now, row.poolRevision.isSome) ∧
      ∀ row ∈ freshReady c command.role heartbeatTtl now, ∀ n, row.poolRevision = some n →
        command.appliedPoolRevision ≤ n := by
    generalize freshReady c command.role heartbeatTtl now = ready
    rw [Option.any_eq_true]
    constructor
    · rintro ⟨least, found, above⟩
      obtain ⟨member, below⟩ := List.min?_eq_some_iff.mp found
      obtain ⟨row, here, confirmed⟩ := List.mem_filterMap.mp member
      refine ⟨⟨row, here, by rw [confirmed]; rfl⟩, ?_⟩
      intro other there n stated
      exact le_trans (of_decide_eq_true above) (below n (List.mem_filterMap.mpr ⟨other, there, stated⟩))
    · rintro ⟨⟨row, here, confirmed⟩, above⟩
      obtain ⟨n, stated⟩ := Option.isSome_iff_exists.mp confirmed
      obtain ⟨least, found⟩ : ∃ least, (ready.filterMap WorkerInstance.poolRevision).min? = some least := by
        rw [← Option.isSome_iff_exists, List.isSome_min?_iff]
        exact List.ne_nil_of_mem (List.mem_filterMap.mpr ⟨row, here, stated⟩)
      obtain ⟨other, there, other_stated⟩ :=
        List.mem_filterMap.mp (List.min?_eq_some_iff.mp found).1
      exact ⟨least, found, decide_eq_true (above other there least other_stated)⟩
  rw [ObservedCapacity.confirms, Bool.and_eq_true, Bool.and_eq_true, Bool.or_eq_true, decide_eq_true_eq,
    decide_eq_true_eq, decide_eq_true_eq, and_assoc]
  exact and_congr_right' (and_congr_right' (or_congr_left least))

/-- A command that becomes `applied` is truthful exactly when no ready instance of the role
with a fresh heartbeat is without a confirmed revision. -/
theorem Applies.truthful_iff (applies : Applies lock c commandId result heartbeatTtl now command) :
    Truthful c command heartbeatTtl now ↔ AllConfirmed c command.role heartbeatTtl now := by
  obtain ⟨replicas, slots, revisions⟩ := confirms_iff.mp applies.confirmed
  constructor
  · intro truthful row ready
    obtain ⟨n, stated, _⟩ := truthful.revisions row ready
    rw [stated]
    rfl
  · intro confirmed
    refine ⟨replicas, slots, ?_⟩
    intro row ready
    obtain ⟨n, stated⟩ := Option.isSome_iff_exists.mp (confirmed row ready)
    refine ⟨n, stated, ?_⟩
    rcases revisions with ⟨_, above⟩ | unasked
    · exact above row ready n stated
    · -- No replica was asked for, and there is one.
      rw [unasked] at replicas
      have nobody : freshReady c command.role heartbeatTtl now = [] :=
        List.length_eq_zero_iff.mp (by exact_mod_cast replicas)
      rw [nobody] at ready
      cases ready

end Check

section Runs

/-- A registration or a heartbeat says which revision the instance runs with. -/
def SaysRevision : FleetCall queue lock task → Prop
  | .registerInstance registration => registration.poolRevision.isSome
  | .heartbeatInstance _ heartbeat => heartbeat.poolRevision.isSome
  | _ => True

/-- The row, if there is one, has a confirmed revision. -/
def Confirmed (row : Option WorkerInstance) : Prop := ∀ r, row = some r → r.poolRevision.isSome

theorem RowStep.confirmed {me : Uuid} {call : FleetCall queue lock task}
    {outcome : Except PoolError (FleetAnswer task)} {before after : Option WorkerInstance}
    (step : RowStep me call outcome before after) (stated : SaysRevision call)
    (was : Confirmed before) : Confirmed after := by
  intro row found
  cases step with
  | still same _ => exact was row (same ▸ found)
  | registered r asked _ written =>
    subst asked
    cases written.symm.trans found
    exact stated
  | beat h old asked _ _ written =>
    subst asked
    cases written.symm.trans found
    exact stated
  | moved status now old _ _ known _ written =>
    cases written.symm.trans found
    have kept : (old.moved status now).poolRevision = old.poolRevision := by cases status <;> rfl
    rw [kept]
    exact was old known
  | swept heartbeatTtl now old _ known _ written =>
    cases written.symm.trans found
    exact was old known

/-- Where every registration and every heartbeat says a revision, each instance has one. -/
theorem confirmed_of_run {start : Fleet queue} (empty : start.instances = ∅)
    {history : List (FleetEnded queue lock task)} {s : FleetSystem queue lock task}
    (run : System.Run fleetProgram start history s) (stated : ∀ entry ∈ history, SaysRevision entry.call)
    (role : WorkerRole) (heartbeatTtl now : Time) :
    AllConfirmed s.committed role heartbeatTtl now := by
  intro row ready
  have row_kept : (∀ entry ∈ history, SaysRevision entry.call) →
      Confirmed (s.committed.instances.find? row.instanceId) := by
    have closed : RowInvariant queue lock task (fun _ => True) row.instanceId :=
      fun _ _ _ _ _ _ => trivial
    refine watched_serial (rows_verified closed) trivial
      (Q := fun history now => (∀ entry ∈ history, SaysRevision entry.call) → Confirmed now) ?_ ?_ run
    · intro _ r found
      rw [empty, Table.find?_empty] at found
      cases found
    · intro history entry earlier _ _ step stated
      apply step.confirmed (stated entry List.mem_cons_self)
      exact earlier fun older member => stated older (List.mem_cons_of_mem _ member)
  exact row_kept stated row (Table.find?_of_mem _ (List.mem_of_mem_filter ready))

/-- In every state of every run, a command that becomes `applied` is truthful exactly when the
ready instances of the role with a fresh heartbeat have all confirmed a revision, and it is
truthful throughout a run whose registrations and heartbeats all say one. -/
theorem applied_truthful_iff_confirmed {start : Fleet queue} (empty : start.instances = ∅)
    {history : List (FleetEnded queue lock task)} {s : FleetSystem queue lock task}
    (run : System.Run fleetProgram start history s) {commandId : Uuid} {result : Option String}
    {heartbeatTtl now : Time} {command : ScaleCommand}
    (applies : Applies lock s.committed commandId result heartbeatTtl now command) :
    (Truthful s.committed command heartbeatTtl now ↔
      AllConfirmed s.committed command.role heartbeatTtl now) ∧
    ((∀ entry ∈ history, SaysRevision entry.call) → Truthful s.committed command heartbeatTtl now) := by
  refine ⟨applies.truthful_iff, ?_⟩
  intro stated
  exact applies.truthful_iff.mpr (confirmed_of_run empty run stated command.role heartbeatTtl now)

section Samples

def emptyFleet : Fleet Unit := ⟨∅, ∅, ∅, [], ()⟩

def scaleToTwo : ScaleRequest :=
  ⟨.fetch, 1, 2, 1, "op", "load", "key", .compose, none, 0, 40, 41⟩

/-- Two fetch workers boot; the second one says the revision that is given. -/
def bootCalls (second : Option Int) : List (FleetCall Unit Unit Unit) :=
  [.upsertPool .fetch ⟨1, 1, 2, 0, "manual", "default"⟩ "op" "boot" none 0 1, .requestScale scaleToTwo,
    .registerInstance ⟨5, .fetch, "1", 1, none, none, none, some 2, 0⟩,
    .registerInstance ⟨6, .fetch, "1", 1, none, none, none, second, 0⟩,
    .setInstanceStatus 5 .ready 1, .setInstanceStatus 6 .ready 1,
    .transitionScaleCommand 40 .draining none 90 1,
    .transitionScaleCommand 40 .awaitingManualApply none 90 1]

def booted (second : Option Int) : List (FleetEnded Unit Unit Unit) × Fleet Unit :=
  System.serially fleetProgram emptyFleet (bootCalls second)

/-- The command as it is returned with the status `applied`. -/
def scaledToTwo : ScaleCommand :=
  { commandId := 40, idempotencyKey := "key", role := .fetch, expectedPoolRevision := 1
    appliedPoolRevision := 2, requestedReplicas := 2, requestedConcurrency := 1, status := .applied
    cliCommand := some "docker compose up -d --no-recreate --scale worker-fetch=2", result := none
    actor := "op", reason := "load", auditId := 41, auditCreatedAt := 0, createdAt := 0, updatedAt := 2
    appliedAt := some 2 }

theorem booted_confirmed_truthful : Truthful (booted (some 2)).2 scaledToTwo 90 2 := by
  have run : System.Run fleetProgram emptyFleet (booted (some 2)).1 (System.idle (booted (some 2)).2) :=
    System.run_serially fleetProgram emptyFleet (bootCalls (some 2))
  have applies : Applies Unit (booted (some 2)).2 40 none 90 2 scaledToTwo := by
    rw [Applies]
    decide +kernel
  apply (applied_truthful_iff_confirmed (s := System.idle (booted (some 2)).2) rfl run applies).2
  intro entry member
  simp only [booted, bootCalls, System.serially, List.foldl_cons, List.foldl_nil, List.mem_cons,
    List.not_mem_nil, or_false] at member
  rcases member with rfl | rfl | rfl | rfl | rfl | rfl | rfl | rfl <;> simp [SaysRevision]

/-- An instance that confirmed nothing is skipped: the command becomes `applied` over it. -/
theorem applied_over_unconfirmed : ¬ ∀ (history : List (FleetEnded Unit Unit Unit))
    (s : FleetSystem Unit Unit Unit), System.Run fleetProgram emptyFleet history s →
    ∀ commandId result heartbeatTtl now command,
      Applies Unit s.committed commandId result heartbeatTtl now command →
      Truthful s.committed command heartbeatTtl now := by
  intro claimed
  have applies : Applies Unit (booted none).2 40 none 90 2 scaledToTwo := by
    rw [Applies]
    decide +kernel
  have truthful := claimed (booted none).1 (System.idle (booted none).2)
    (System.run_serially fleetProgram emptyFleet (bootCalls none)) 40 none 90 2 scaledToTwo applies
  have all : ∀ row ∈ freshReady (booted none).2 .fetch 90 2, row.poolRevision.isSome := by
    intro row ready
    obtain ⟨n, stated, _⟩ := truthful.revisions row ready
    rw [stated]
    rfl
  revert all
  decide +kernel

end Samples
end Runs
end Collector.Workers
