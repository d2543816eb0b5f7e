import Collector.Persistence.LeaseRuns
import Collector.Persistence.Projection.Machine

/-!
What an answered lease operation does to one projection task. The columns that say which parse
step a task stands for are written once, when the task is inserted; a lease operation moves the
lease of a task that is not finished and never makes it succeed.
-/

namespace Collector.Persistence.Projection
open Collector.Lib Collector.Lib.Lease

variable {codec : Codec}

def ProjectionTask.columns (task : ProjectionTask) : LeaseColumns :=
  ⟨task.status, task.leaseOwner, task.leaseExpiresAt, task.attempt, task.maxAttempts⟩

/-- The columns of a task that only its insertion writes. -/
structure TaskIdentity where
  artifactId : Uuid
  entityUuid : Uuid
  parseAttemptId : Option Uuid
  parseKey : String
  projectionVersion : Int
  targetCollection : String
  targetSchemaVersion : String
  priority : Int
  createdAt : Time

def ProjectionTask.identity (task : ProjectionTask) : TaskIdentity :=
  ⟨task.artifactId, task.entityUuid, task.parseAttemptId, task.parseKey, task.projectionVersion,
    task.targetCollection, task.targetSchemaVersion, task.priority, task.createdAt⟩

/-- The act of an entry on the lease of one task. -/
def act (entry : Event codec) (id : Uuid) : Option (Act String Time) :=
  match entry with
  | ⟨.claimProjectionTasks worker leaseSeconds _ _ _ now, .ok (.tasks tasks)⟩ =>
    if id ∈ tasks.map ProjectionTask.taskId then some (.claim worker (now + seconds leaseSeconds))
    else none
  | ⟨.heartbeatProjectionTask taskId owner _ _, .ok (.expires instant)⟩ =>
    if id = taskId then some (.extend owner instant) else none
  -- A retry on the last attempt quarantines, which the returned row shows.
  | ⟨.retryProjectionTask taskId owner _ _ _ _ _, .ok (.task task)⟩ =>
    if id = taskId then
      if task.status = .quarantined then some (.finish owner) else some (.retry owner)
    else none
  | ⟨.releaseProjectionTask taskId owner _ _, .ok _⟩ =>
    if id = taskId then some (.refund owner) else none
  | ⟨.quarantineProjectionTask taskId _ _ _, .ok _⟩ => if id = taskId then some .revoke else none
  | ⟨.recoverExpiredProjectionLeases _ _ now, .ok (.ids ids)⟩ =>
    if id ∈ ids then some (.expire now) else none
  -- The repetition of an acknowledgement writes nothing.
  | ⟨.acknowledgeProjection taskId _ _ owner _ _, .ok (.acknowledged result)⟩ =>
    if id = taskId ∧ result.created = true then
      match owner with
      | some owner => some (.finish owner)
      | none => some .revoke
    else none
  | _ => none

/-- The effect of a lease operation on one task. -/
inductive TaskEffect :
    Option ProjectionTask → Option (Act String Time) → Option ProjectionTask → Prop
  | absent : TaskEffect none none none
  | kept (task : ProjectionTask) : TaskEffect (some task) none (some task)
  | moved {task next : ProjectionTask} {act : Act String Time}
      (advances : task.columns.Advances act next.columns) (same : next.identity = task.identity)
      (unfinished : task.status.terminal = false) (pending : next.status ≠ .succeeded) :
      TaskEffect (some task) (some act) (some next)

theorem TaskEffect.same (task : Option ProjectionTask) : TaskEffect task none task := by
  cases task with
  | none => exact .absent
  | some task => exact .kept task

/-- A call that wrote `projection_tasks` and no other table, seen from every task. -/
def LeaseStep (db next : Db) (entry : Event codec) : Prop :=
  ∃ tasks, next = { db with tasks := tasks } ∧
    ∀ id, TaskEffect (db.tasks.find? id) (act entry id) (tasks.find? id)

theorem lockOwned_eq_ok {db : Db} {taskId : Uuid} {owner : String} {task : ProjectionTask} :
    lockOwned db taskId owner = .ok task ↔
      db.tasks.find? taskId = some task ∧ task.status = .leased ∧ task.leaseOwner = some owner := by
  unfold lockOwned
  rw [require_eq_ok, Option.filter_eq_some_iff]
  simp [ProjectionTask.owned]

theorem writeTask_eq_ok {db next : Db} {task row : ProjectionTask} :
    db.writeTask task = .ok (row, next) ↔
      task.admissible = true ∧ row = task ∧ next = { db with tasks := db.tasks.put task } := by
  unfold Db.writeTask
  simp only [Except.bind_eq_ok, ensure_eq_ok, pure, Except.pure, Except.ok.injEq, Prod.mk.injEq]
  constructor
  · rintro ⟨_, admissible, rfl, rfl⟩
    exact ⟨admissible, rfl, rfl⟩
  · rintro ⟨admissible, rfl, rfl⟩
    exact ⟨(), admissible, rfl, rfl⟩

theorem unfinished_of_leased {task : ProjectionTask} (leased : task.status = .leased) :
    task.status.terminal = false := by
  rw [leased]
  rfl

/-- The step of a call that writes one task back. -/
private theorem leaseStep_put {db : Db} {entry : Event codec} {taskId : Uuid}
    {task row : ProjectionTask} {performed : Act String Time}
    (found : db.tasks.find? taskId = some task) (same : row.taskId = task.taskId)
    (recorded : ∀ id, act entry id = if id = taskId then some performed else none)
    (advances : task.columns.Advances performed row.columns)
    (identity : row.identity = task.identity) (unfinished : task.status.terminal = false)
    (pending : row.status ≠ .succeeded) :
    LeaseStep db { db with tasks := db.tasks.put row } entry := by
  have located := ((db.tasks.find?_eq_some _ _).mp found).2
  refine ⟨_, rfl, ?_⟩
  intro id
  rw [db.tasks.find?_put _ (same ▸ located ▸ found), recorded, same, located]
  by_cases here : id = taskId
  · rw [if_pos here, if_pos here, here, found]
    exact .moved advances identity unfinished pending
  · rw [if_neg here, if_neg here]
    exact .same _

/-- The step of a call that updates the tasks it selected. -/
private theorem leaseStep_update {db : Db} {entry : Event codec} {chosen : List ProjectionTask}
    {tasks : Table ProjectionTask.taskId} (f : ProjectionTask → ProjectionTask)
    (bulk : ∃ keeps, tasks = db.tasks.update
      (fun task => decide (task.taskId ∈ chosen.map ProjectionTask.taskId)) f keeps)
    (members : ∀ task ∈ chosen, task ∈ db.tasks.rows) {performed : Act String Time}
    (recorded : ∀ id, act entry id =
      if id ∈ chosen.map ProjectionTask.taskId then some performed else none)
    (advances : ∀ task ∈ chosen, task.columns.Advances performed (f task).columns)
    (identity : ∀ task, (f task).identity = task.identity)
    (unfinished : ∀ task ∈ chosen, task.status.terminal = false)
    (pending : ∀ task, (f task).status ≠ .succeeded) :
    LeaseStep db { db with tasks := tasks } entry := by
  obtain ⟨keeps, rfl⟩ := bulk
  refine ⟨_, rfl, ?_⟩
  intro id
  rw [Table.find?_update, recorded]
  cases found : db.tasks.find? id with
  | none =>
    have unchosen : id ∉ chosen.map ProjectionTask.taskId := by
      intro member
      obtain ⟨task, picked, rfl⟩ := List.mem_map.mp member
      rw [db.tasks.find?_of_mem (members task picked)] at found
      cases found
    rw [if_neg unchosen]
    exact .absent
  | some task =>
    obtain ⟨present, rfl⟩ := (db.tasks.find?_eq_some _ _).mp found
    simp only [Option.map_some, decide_eq_true_eq]
    by_cases member : task.taskId ∈ chosen.map ProjectionTask.taskId
    · obtain ⟨picked, isPicked, same⟩ := List.mem_map.mp member
      obtain rfl := db.tasks.eq_of_key_eq (members picked isPicked) present same
      rw [if_pos member, if_pos member]
      exact .moved (advances picked isPicked) (identity picked) (unfinished picked isPicked)
        (pending picked)
    · rw [if_neg member, if_neg member]
      exact .kept task

theorem claimProjectionTasks_step {db next : Db} {worker : String} {leaseSeconds limit : Int}
    {targetCollections : Option (List String)} {skip : List Uuid} {now : Time}
    {tasks : List ProjectionTask}
    (done : claimProjectionTasks db worker leaseSeconds targetCollections limit skip now =
      .ok (tasks, next)) :
    LeaseStep db next (⟨.claimProjectionTasks worker leaseSeconds targetCollections limit skip now,
      .ok (.tasks tasks)⟩ : Event codec) := by
  unfold claimProjectionTasks at done
  simp only [Except.bind_eq_ok, ensure_eq_ok, pure, Except.pure, Except.ok.injEq,
    Prod.mk.injEq] at done
  obtain ⟨_, _, _, _, rfl, rfl⟩ := done
  apply leaseStep_update fun task => task.lease worker leaseSeconds now
  · exact ⟨_, rfl⟩
  · exact fun task picked => (Table.mem_of_mem_select picked).1
  · intro id
    simp only [act, List.mem_map, List.mem_insertionSort]
    congr 1
    simp [ProjectionTask.lease]
  · intro task picked
    have chosen := (Table.mem_of_mem_select picked).2
    simp only [Bool.and_eq_true] at chosen
    exact LeaseColumns.advances_claim chosen.1.1.1 _
  · exact fun _ => rfl
  · intro task picked
    have chosen := (Table.mem_of_mem_select picked).2
    simp only [Bool.and_eq_true] at chosen
    have claimable := chosen.1.1.1
    cases status : task.status <;> simp [status, JobStatus.claimable, JobStatus.terminal] at claimable ⊢
  · rintro _ ⟨⟩

theorem recoverExpiredProjectionLeases_step {db next : Db} {limit : Int} {skip : List Uuid}
    {now : Time} {ids : List Uuid}
    (done : recoverExpiredProjectionLeases db limit skip now = .ok (ids, next)) :
    LeaseStep db next
      (⟨.recoverExpiredProjectionLeases limit skip now, .ok (.ids ids)⟩ : Event codec) := by
  unfold recoverExpiredProjectionLeases at done
  simp only [Except.bind_eq_ok, ensure_eq_ok, pure, Except.pure, Except.ok.injEq,
    Prod.mk.injEq] at done
  obtain ⟨_, _, rfl, rfl⟩ := done
  apply leaseStep_update fun task => task.recover now
  · exact ⟨_, rfl⟩
  · exact fun task picked => (Table.mem_of_mem_select picked).1
  · exact fun _ => rfl
  · intro task picked
    have chosen := (Table.mem_of_mem_select picked).2
    simp only [Bool.and_eq_true, decide_eq_true_eq] at chosen
    have ended := chosen.1.2
    unfold ProjectionTask.expired at ended
    split at ended
    · rename_i expires deadline
      exact LeaseColumns.advances_expire chosen.1.1 deadline (by simpa using ended)
    · cases ended
  · exact fun _ => rfl
  · intro task picked
    have chosen := (Table.mem_of_mem_select picked).2
    simp only [Bool.and_eq_true, decide_eq_true_eq] at chosen
    exact unfinished_of_leased chosen.1.1
  · rintro _ ⟨⟩

section Reports
variable {db next : Db} {taskId : Uuid} {owner : String} {now : Time}

theorem heartbeatProjectionTask_step {leaseSeconds : Int} {instant : Time}
    (done : heartbeatProjectionTask db taskId owner leaseSeconds now = .ok (instant, next)) :
    LeaseStep db next
      (⟨.heartbeatProjectionTask taskId owner leaseSeconds now, .ok (.expires instant)⟩ :
        Event codec) := by
  unfold heartbeatProjectionTask at done
  simp only [Except.bind_eq_ok, lockOwned_eq_ok, pure, Except.pure, Except.ok.injEq,
    Prod.mk.injEq] at done
  obtain ⟨task, ⟨found, leased, owned⟩, ⟨row, middle⟩, wrote, rfl, rfl⟩ := done
  obtain ⟨_, _, rfl⟩ := writeTask_eq_ok.mp wrote
  exact leaseStep_put found rfl (fun _ => rfl) (LeaseColumns.advances_extend leased owned _) rfl
    (unfinished_of_leased leased) (by simp [leased])

theorem retryProjectionTask_step {errorCode : String} {errorMessage : Option String}
    {policy : Backoff} {notBefore : Option Time} {row : ProjectionTask}
    (done : retryProjectionTask db taskId owner errorCode errorMessage policy notBefore now =
      .ok (row, next)) :
    LeaseStep db next
      (⟨.retryProjectionTask taskId owner errorCode errorMessage policy notBefore now,
        .ok (.task row)⟩ : Event codec) := by
  unfold retryProjectionTask at done
  simp only [Except.bind_eq_ok, lockOwned_eq_ok] at done
  obtain ⟨task, ⟨found, leased, owned⟩, done⟩ := done
  split at done
  · obtain ⟨_, rfl, rfl⟩ := writeTask_eq_ok.mp done
    exact leaseStep_put found rfl (fun _ => rfl) (LeaseColumns.advances_finish leased owned rfl) rfl
      (unfinished_of_leased leased) (by rintro ⟨⟩)
  · rename_i budget
    obtain ⟨_, rfl, rfl⟩ := writeTask_eq_ok.mp done
    exact leaseStep_put found rfl (fun _ => rfl)
      (LeaseColumns.advances_retry leased owned (not_le.mp budget)) rfl
      (unfinished_of_leased leased) (by rintro ⟨⟩)

theorem releaseProjectionTask_step {notBefore : Option Time} {row : ProjectionTask}
    (done : releaseProjectionTask db taskId owner notBefore now = .ok (row, next)) :
    LeaseStep db next
      (⟨.releaseProjectionTask taskId owner notBefore now, .ok (.task row)⟩ : Event codec) := by
  unfold releaseProjectionTask at done
  simp only [Except.bind_eq_ok, lockOwned_eq_ok] at done
  obtain ⟨task, ⟨found, leased, owned⟩, done⟩ := done
  obtain ⟨_, rfl, rfl⟩ := writeTask_eq_ok.mp done
  exact leaseStep_put found rfl (fun _ => rfl) (LeaseColumns.advances_refund leased owned) rfl
    (unfinished_of_leased leased) (by rintro ⟨⟩)

theorem quarantineProjectionTask_step {errorCode : String} {errorMessage : Option String}
    {row : ProjectionTask}
    (done : quarantineProjectionTask db taskId errorCode errorMessage now = .ok (row, next)) :
    LeaseStep db next
      (⟨.quarantineProjectionTask taskId errorCode errorMessage now, .ok (.task row)⟩ :
        Event codec) := by
  unfold quarantineProjectionTask at done
  simp only [Except.bind_eq_ok, require_eq_ok, ensure_eq_ok, Bool.not_eq_true'] at done
  obtain ⟨task, found, _, unfinished, done⟩ := done
  obtain ⟨_, rfl, rfl⟩ := writeTask_eq_ok.mp done
  exact leaseStep_put found rfl (fun _ => rfl) (LeaseColumns.advances_revoke rfl) rfl unfinished
    (by rintro ⟨⟩)

end Reports
end Collector.Persistence.Projection
