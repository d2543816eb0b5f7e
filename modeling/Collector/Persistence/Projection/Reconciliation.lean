import Collector.Lib.KeysetScan
import Collector.Persistence.Projection.Confirmation
import Collector.Persistence.Projection.TaskLeases
import Mathlib.Data.List.Perm.Subperm

/-!
What the reconciler reads. It lists the tasks that nobody finishes page by page, and asks whether all
tasks up to a watermark are done. The answer is about receipts: a cursor is complete exactly if the
receipt of every task that it covers is recorded. It stays complete, because no task is opened again and
the tasks that come later are created after the watermark.
-/

namespace Collector.Persistence.Projection
open Collector.Lib Collector.Lib.Lease

/-- `OPEN_TASK_STATUSES`. -/
def ProjectionTask.isOpen (task : ProjectionTask) : Bool :=
  task.status.claimable || decide (task.status = .leased)

/-- Nobody has taken the task, or nobody has finished it, since the cutoff. -/
def ProjectionTask.stale (task : ProjectionTask) (cutoff : Time) : Bool :=
  (task.status.claimable && decide (task.notBefore ≤ cutoff)) ||
    (decide (task.status = .leased) && task.leasedAt.any fun leasedAt => decide (leasedAt ≤ cutoff))

def listStaleProjectionTasks (db : Db) (olderThan : Time) (after : Option Uuid) (limit : Int)
    (now : Time) : Except PersistenceError (List ProjectionTask) := do
  ensure (decide (1 ≤ limit)) (.valueError "limit")
  ensure (decide (0 ≤ olderThan)) (.valueError "older_than")
  return db.tasks.keyset (fun task => task.stale (now - olderThan)) ProjectionTask.taskId after
    limit.toNat

/-- The source of an entity, as the joins with `entity_index` find it. -/
def Db.sourceOf (db : Db) (entityUuid : Uuid) : Option String :=
  (db.entityIndex.find? entityUuid).map EntityIndex.sourceId

/-- A task for the report: quarantined, and of the source if one is asked for. -/
def Db.reported (db : Db) (sourceId : Option String) (task : ProjectionTask) : Bool :=
  decide (task.status = .quarantined) &&
    sourceId.all fun source => decide (db.sourceOf task.entityUuid = some source)

def listQuarantinedProjectionTasks (db : Db) (sourceId : Option String) (after : Option Uuid)
    (limit : Int) : Except PersistenceError (List ProjectionTask) := do
  ensure (decide (1 ≤ limit)) (.valueError "limit")
  return db.tasks.keyset (db.reported sourceId) ProjectionTask.taskId after limit.toNat

/-- The arguments of `projection_completeness`. -/
structure Cursor where
  sourceId : Option String := none
  entityUuid : Option Uuid := none
  createdBefore : Option Time := none

/-- The conditions that the arguments add to both of its queries. -/
def Cursor.covers (cursor : Cursor) (db : Db) (entityUuid : Uuid) (createdAt : Time) : Bool :=
  (cursor.sourceId.all fun source => decide (db.sourceOf entityUuid = some source)) &&
    (cursor.entityUuid.all fun e => decide (entityUuid = e)) &&
    cursor.createdBefore.all fun watermark => decide (createdAt < watermark)

structure ProjectionCompleteness where
  openTasks : Nat
  oldestOpenTaskCreatedAt : Option Time
  quarantinedTasks : Nat
  oldestQuarantinedTaskCreatedAt : Option Time
  unpublishedDomainEvents : Nat
  oldestUnpublishedDomainEventCreatedAt : Option Time
  deriving DecidableEq

def ProjectionCompleteness.settled (c : ProjectionCompleteness) : Bool := decide (c.openTasks = 0)

def ProjectionCompleteness.complete (c : ProjectionCompleteness) : Bool :=
  decide (c.openTasks = 0) && decide (c.quarantinedTasks = 0)

/-- The rows of the first query: tasks of the cursor that have not succeeded. -/
def Db.unfinished (db : Db) (cursor : Cursor) : List ProjectionTask :=
  db.tasks.rows.filter fun task =>
    decide (task.status ≠ .succeeded) && cursor.covers db task.entityUuid task.createdAt

/-- The rows of the second query. -/
def Db.unpublished (db : Db) (cursor : Cursor) : List OutboxEvent :=
  db.outbox.rows.filter fun event => decide (event.topic = .domain) && event.publishedAt.isNone &&
    cursor.covers db event.aggregateId event.createdAt

def projectionCompleteness (db : Db) (cursor : Cursor) : ProjectionCompleteness :=
  let opened := (db.unfinished cursor).filter ProjectionTask.isOpen
  let quarantined := (db.unfinished cursor).filter fun task => decide (task.status = .quarantined)
  let events := db.unpublished cursor
  { openTasks := opened.length
    oldestOpenTaskCreatedAt := (opened.map ProjectionTask.createdAt).min?
    quarantinedTasks := quarantined.length
    oldestQuarantinedTaskCreatedAt := (quarantined.map ProjectionTask.createdAt).min?
    unpublishedDomainEvents := events.length
    oldestUnpublishedDomainEventCreatedAt := (events.map OutboxEvent.createdAt).min? }

section Steps
variable {codec : Codec} {db next : Db}

theorem ProjectionTask.isOpen_eq (task : ProjectionTask) : task.isOpen = !task.status.terminal := by
  unfold isOpen
  cases task.status <;> rfl

/-- What becomes of a task: it stands for the same parse step, it is not opened again, and a success
lasts. -/
structure Continues (task next : ProjectionTask) : Prop where
  same : next.identity = task.identity
  closed : task.isOpen = false → next.isOpen = false
  succeeded : task.status = .succeeded → next.status = .succeeded

theorem Continues.refl (task : ProjectionTask) : Continues task task := ⟨rfl, id, id⟩

theorem Continues.trans {task middle last : ProjectionTask} (first : Continues task middle)
    (second : Continues middle last) : Continues task last :=
  ⟨second.same.trans first.same, fun shut => second.closed (first.closed shut),
    fun done => second.succeeded (first.succeeded done)⟩

/-- What an answered call does to one task. -/
inductive TaskChange (now : Time) :
    Option ProjectionTask → Option (Act String Time) → Option ProjectionTask → Prop
  | absent : TaskChange now none none none
  | created (task : ProjectionTask) (stamped : task.createdAt = now) :
      TaskChange now none none (some task)
  | kept (task : ProjectionTask) : TaskChange now (some task) none (some task)
  | moved {task next : ProjectionTask} {act : Act String Time} (continues : Continues task next) :
      TaskChange now (some task) (some act) (some next)

theorem TaskEffect.change {before after : Option ProjectionTask} {performed : Option (Act String Time)}
    (effect : TaskEffect before performed after) (now : Time) : TaskChange now before performed after := by
  cases effect with
  | absent => exact .absent
  | kept task => exact .kept task
  | @moved task next _ _ same unfinished pending =>
    have opened : task.isOpen = true := by
      rw [task.isOpen_eq, unfinished]
      rfl
    refine .moved ⟨same, fun shut => ?_, fun done => ?_⟩
    · rw [opened] at shut
      cases shut
    · rw [done] at unfinished
      cases unfinished

theorem taskChange_of_tasks_eq {performed : Option (Act String Time)} (same : next.tasks = db.tasks)
    (silent : performed = none) (now : Time) (id : Uuid) :
    TaskChange now (db.tasks.find? id) performed (next.tasks.find? id) := by
  subst silent
  rw [same]
  cases db.tasks.find? id with
  | none => exact .absent
  | some task => exact .kept task

theorem LeaseStep.taskChange {entry : Event codec} (step : LeaseStep db next entry) (now : Time)
    (id : Uuid) : TaskChange now (db.tasks.find? id) (act entry id) (next.tasks.find? id) := by
  obtain ⟨tasks, rfl, effect⟩ := step
  exact (effect id).change now

/-- A task that a parse result creates is created now. -/
theorem recordParseResult_createdAt {attempt : ParseAttemptRecord} {ref : NormalizedArtifactRef}
    {options : TaskOptions} {draws : ParseDraws} {now : Time} {result : ParseResult}
    (done : recordParseResult codec db attempt ref options draws now = .ok (result, next))
    (created : result.created = true) : result.task.createdAt = now := by
  unfold recordParseResult at done
  simp only [Except.bind_eq_ok] at done
  obtain ⟨_, _, _, _, entity, _, done⟩ := done
  split at done
  · unfold existingParseResult at done
    simp only [Except.bind_eq_ok, pure, Except.pure, Except.ok.injEq, Prod.mk.injEq] at done
    obtain ⟨_, ⟨_, _, _, _, _, _, _, _, _, _, rfl⟩, rfl, _⟩ := done
    cases created
  · unfold issueVersion at done
    simp only [Except.bind_eq_ok, pure, Except.pure, Except.ok.injEq, Prod.mk.injEq] at done
    obtain ⟨_, _, _, _, _, _, _, _, _, _, rfl, _⟩ := done
    rfl

theorem acknowledgeProjection_taskChange {taskId : Uuid} {receipt : AppliedProjectionReceipt codec}
    {event : Option DomainChangedEvent} {owner : Option String} {draws : EventDraws} {now : Time}
    {result : AcknowledgeResult}
    (done : acknowledgeProjection db taskId receipt event owner draws now = .ok (result, next))
    (id : Uuid) :
    TaskChange now (db.tasks.find? id)
      (act (⟨.acknowledgeProjection taskId receipt event owner draws now,
        .ok (.acknowledged result)⟩ : Event codec) id) (next.tasks.find? id) := by
  obtain ⟨rfl, task, locked, _, _, ⟨_, _, _, old, rfl⟩ | ⟨recording, rfl, _, rfl, rfl, created, rfl⟩⟩ :=
    acknowledgeProjection_eq_ok done
  · exact taskChange_of_tasks_eq rfl (by simp [act, old]) _ id
  · simp only [act, created, and_true, recording.find?_task]
    by_cases here : id = recording.receipt.projectionTaskId
    · rw [if_pos here, if_pos here, here, recording.found]
      cases owner <;> exact .moved ⟨rfl, fun _ => rfl, fun _ => rfl⟩
    · rw [if_neg here, if_neg here]
      exact taskChange_of_tasks_eq rfl rfl _ id

/-- What any answered call does to any task. -/
theorem exec_taskChange (sound : Issued db) {call : Call codec} {a : Answer}
    (answered : (machine codec).exec call db = .ok (a, next)) (id : Uuid) :
    TaskChange call.now (db.tasks.find? id) (act (⟨call, .ok a⟩ : Event codec) id)
      (next.tasks.find? id) := by
  cases call with
  | upsertEntity =>
    obtain ⟨_, done, rfl⟩ := answer_eq_ok.mp answered
    exact taskChange_of_tasks_eq (upsertEntity_tasks done) rfl _ id
  | recordParseResult attempt ref options draws now =>
    obtain ⟨_, done, rfl⟩ := answer_eq_ok.mp answered
    rcases recordParseResult_eq_ok sound done with ⟨_, _, _, rfl⟩ | ⟨issue, task, _, _, _, created, rfl⟩
    · exact taskChange_of_tasks_eq rfl rfl _ id
    · rw [issue.find?_task sound]
      by_cases here : issue.task.taskId = id
      · have absent : db.tasks.find? id = none :=
          (db.tasks.find?_eq_none _).mpr (here ▸ issue.newTask_key sound)
        rw [if_pos here, absent]
        exact .created _ (task ▸ recordParseResult_createdAt done created)
      · rw [if_neg here]
        exact taskChange_of_tasks_eq rfl rfl _ id
  | recordParseFailure =>
    obtain ⟨_, done, rfl⟩ := answer_eq_ok.mp answered
    exact taskChange_of_tasks_eq (recordParseFailure_tasks done) rfl _ id
  | claimProjectionTasks =>
    obtain ⟨_, done, rfl⟩ := answer_eq_ok.mp answered
    exact (claimProjectionTasks_step done).taskChange _ id
  | heartbeatProjectionTask =>
    obtain ⟨_, done, rfl⟩ := answer_eq_ok.mp answered
    exact (heartbeatProjectionTask_step done).taskChange _ id
  | retryProjectionTask =>
    obtain ⟨_, done, rfl⟩ := answer_eq_ok.mp answered
    exact (retryProjectionTask_step done).taskChange _ id
  | releaseProjectionTask =>
    obtain ⟨_, done, rfl⟩ := answer_eq_ok.mp answered
    exact (releaseProjectionTask_step done).taskChange _ id
  | quarantineProjectionTask =>
    obtain ⟨_, done, rfl⟩ := answer_eq_ok.mp answered
    exact (quarantineProjectionTask_step done).taskChange _ id
  | recoverExpiredProjectionLeases =>
    obtain ⟨_, done, rfl⟩ := answer_eq_ok.mp answered
    exact (recoverExpiredProjectionLeases_step done).taskChange _ id
  | acknowledgeProjection =>
    obtain ⟨_, done, rfl⟩ := answer_eq_ok.mp answered
    exact acknowledgeProjection_taskChange done id
  | fetchUnpublished =>
    obtain ⟨_, done, rfl⟩ := answer_eq_ok.mp answered
    exact taskChange_of_tasks_eq (fetchUnpublished_tasks done) rfl _ id
  | markPublished outboxIds now =>
    cases answered
    exact taskChange_of_tasks_eq rfl rfl _ id
  | markFailed =>
    obtain ⟨_, done, rfl⟩ := answer_eq_ok.mp answered
    exact taskChange_of_tasks_eq (markFailed_tasks done) rfl _ id
  | unpark =>
    obtain ⟨_, done, rfl⟩ := answer_eq_ok.mp answered
    exact taskChange_of_tasks_eq (unpark_tasks done) rfl _ id
  | purgePublished =>
    obtain ⟨_, done, rfl⟩ := answer_eq_ok.mp answered
    exact taskChange_of_tasks_eq (purgePublished_tasks done) rfl _ id

end Steps

section Runs
variable {codec : Codec} {db next : Db} {newer : List (Event codec)} {later : Db} {watermark : Time}

/-- A task from before the watermark was there before the calls that came after it. -/
theorem run_task (sound : Issued db) (run : (machine codec).Run db newer later)
    (late : ∀ entry ∈ newer, watermark ≤ entry.call.now) {id : Uuid} {task : ProjectionTask}
    (found : later.tasks.find? id = some task) (early : task.createdAt < watermark) :
    ∃ old, db.tasks.find? id = some old ∧ Continues old task := by
  induction run generalizing task with
  | nil => exact ⟨task, found, .refl task⟩
  | raise _ _ ih =>
    rw [List.forall_mem_cons] at late
    exact ih late.2 found early
  | @answer newer s next call a before answered ih =>
    rw [List.forall_mem_cons] at late
    have kept := (run_keeps sound trivial (fun _ _ _ _ _ _ => trivial) before).1
    have change := exec_taskChange kept answered id
    rw [found] at change
    generalize known : s.tasks.find? id = earlier, act _ id = performed at change
    cases change with
    | created _ stamped => exact absurd (late.1.trans_eq stamped.symm) (not_le.mpr early)
    | kept => exact ih late.2 known early
    | moved continues =>
      have stamp := congrArg TaskIdentity.createdAt continues.same
      obtain ⟨old, there, first⟩ := ih late.2 known (stamp.symm.trans_lt early)
      exact ⟨old, there, first.trans continues⟩

/-- An entity keeps its source. -/
theorem Change.sourceOf {label : Label codec} (change : Change codec db label next) (sound : Issued db)
    {e : Uuid} {source : String} (known : db.sourceOf e = some source) :
    next.sourceOf e = some source := by
  obtain ⟨row, found, rfl⟩ := Option.map_eq_some_iff.mp known
  cases change with
  | same | attempted | leased | delivered | purged => exact known
  | registered new fresh =>
    have absent : new.entityUuid ∉ db.entityIndex.keys := fun member =>
      fresh (sound.entities _ member)
    have apart : new.entityUuid ≠ e := by
      intro here
      rw [← here, (db.entityIndex.find?_eq_none _).mpr absent] at found
      cases found
    rw [Db.sourceOf, db.entityIndex.find?_insert new absent, if_neg apart, found]
    rfl
  | issued issue =>
    rw [Db.sourceOf, issue.find?_entity]
    split
    · rename_i here
      rw [here, issue.known] at found
      cases found
      rfl
    · exact known
  | acknowledged recording =>
    rw [Db.sourceOf, recording.find?_entity]
    split
    · rename_i here
      rw [here, recording.known] at found
      cases found
      rfl
    · exact known

theorem run_sourceOf (sound : Issued db) (run : (machine codec).Run db newer later) {e : Uuid}
    {source : String} (known : db.sourceOf e = some source) : later.sourceOf e = some source :=
  (run_keeps sound known (fun _ _ _ sound held change => change.sourceOf sound held) run).2

/-- What is unfinished below the watermark was unfinished before. -/
theorem run_unfinished (sound : Issued db) (versions : Versions db)
    (run : (machine codec).Run db newer later) (late : ∀ entry ∈ newer, watermark ≤ entry.call.now)
    {cursor : Cursor} (bounded : cursor.createdBefore = some watermark) {task : ProjectionTask}
    (unfinished : task ∈ later.unfinished cursor) :
    ∃ old ∈ db.unfinished cursor, Continues old task ∧ old.taskId = task.taskId := by
  simp only [Db.unfinished, Cursor.covers, bounded, List.mem_filter, Bool.and_eq_true,
    decide_eq_true_eq, Option.all_some] at unfinished ⊢
  obtain ⟨present, pending, ⟨ofSource, ofEntity⟩, early⟩ := unfinished
  obtain ⟨old, found, continues⟩ := run_task sound run late (later.tasks.find?_of_mem present) early
  obtain ⟨there, named⟩ := (db.tasks.find?_eq_some _ _).mp found
  have stamp := congrArg TaskIdentity.createdAt continues.same
  have entity : task.entityUuid = old.entityUuid := congrArg TaskIdentity.entityUuid continues.same
  obtain ⟨_, counted, _⟩ := versions.within _ _ (identityOf_eq_some.mpr ⟨old, found, rfl⟩)
  obtain ⟨row, known, _⟩ := Option.map_eq_some_iff.mp counted
  have source : db.sourceOf old.entityUuid = some row.sourceId := congrArg (Option.map _) known
  rw [entity] at ofSource ofEntity
  rw [run_sourceOf sound run source] at ofSource
  exact ⟨old, ⟨there, fun done => pending (continues.succeeded done),
    ⟨source ▸ ofSource, ofEntity⟩, stamp.symm.trans_lt early⟩, continues, named⟩

end Runs

namespace Sample

/-- The listing's first page is parsed, and its receipt acknowledged. -/
def finished : List (Event codec) × Db :=
  (machine codec).replay Db.empty [register, parse 1, acknowledge firstReceipt (some (event 1)) none]

theorem run_finished : (machine codec).Run Db.empty finished.1 finished.2 :=
  (machine codec).run_replay Db.empty _

/-- The task of the first page, which nobody has claimed. -/
def waiting : ProjectionTask :=
  TaskOptions.task ⟨"normalized/" ++ (ref 1).sha256, "vehicles", "1.0", 0, 5, none⟩ (id 0x21) (id 0x31)
    (id 0x41) (id 1) (parseKey codec (id 0x11) (hash 'a') "p1" (id 1) "vehicles") 1 now

theorem rows_parsed : parsed.2.tasks.rows = [waiting] := by
  decide +kernel

/-- An operator gives the task up, one microsecond later. -/
def giveUp : Call codec := .quarantineProjectionTask (id 0x21) "invalid" none (now + 1)

def untilThen : Cursor := { sourceId := some "auto", createdBefore := some (now + 1) }

end Sample

section Results
variable {codec : Codec} {db later : Db} {history newer : List (Event codec)} {watermark : Time}
  {cursor : Cursor}

/-- The receipt of the task is recorded. -/
def Db.Recorded (db : Db) (task : ProjectionTask) : Prop :=
  db.acknowledged task.taskId = some (task.entityUuid, task.projectionVersion)

theorem Confirmed.recorded_iff (confirmed : Confirmed db) {task : ProjectionTask}
    (present : task ∈ db.tasks.rows) : db.Recorded task ↔ task.status = .succeeded := by
  rw [Db.Recorded, ← confirmed.agreed, settled_eq_some]
  constructor
  · rintro ⟨row, found, done, _⟩
    rw [db.tasks.find?_of_mem present] at found
    cases found
    exact done
  · exact fun done => ⟨task, db.tasks.find?_of_mem present, done, rfl, rfl⟩

theorem mem_unfinished {task : ProjectionTask} : task ∈ db.unfinished cursor ↔ task ∈ db.tasks.rows ∧
    task.status ≠ .succeeded ∧ cursor.covers db task.entityUuid task.createdAt = true := by
  simp [Db.unfinished]

/-- The tasks of a cursor without a receipt are its unfinished ones. -/
theorem Confirmed.forall_unfinished (confirmed : Confirmed db) (p : ProjectionTask → Prop) :
    (∀ task ∈ db.unfinished cursor, p task) ↔ ∀ task ∈ db.tasks.rows,
      cursor.covers db task.entityUuid task.createdAt = true → db.Recorded task ∨ p task := by
  refine forall_congr' fun task => ?_
  rw [mem_unfinished]
  constructor
  · intro each present covered
    rw [confirmed.recorded_iff present, or_iff_not_imp_left]
    exact fun pending => each ⟨present, pending, covered⟩
  · rintro all ⟨present, pending, covered⟩
    rw [confirmed.recorded_iff present] at all
    exact (all present covered).resolve_left pending

theorem settled_iff : (projectionCompleteness db cursor).settled = true ↔
    ∀ task ∈ db.unfinished cursor, task.status = .quarantined := by
  simp only [ProjectionCompleteness.settled, projectionCompleteness, decide_eq_true_eq,
    List.length_eq_zero_iff, List.filter_eq_nil_iff]
  refine forall₂_congr fun task unfinished => ?_
  have pending := (mem_unfinished.mp unfinished).2.1
  rw [task.isOpen_eq]
  cases status : task.status <;> simp_all [JobStatus.terminal]

theorem complete_iff : (projectionCompleteness db cursor).complete = true ↔ db.unfinished cursor = [] := by
  have parts : (projectionCompleteness db cursor).complete = true ↔
      (projectionCompleteness db cursor).settled = true ∧
        ∀ task ∈ db.unfinished cursor, task.status ≠ .quarantined := by
    simp [ProjectionCompleteness.complete, ProjectionCompleteness.settled, projectionCompleteness]
  rw [parts, settled_iff, List.eq_nil_iff_forall_not_mem]
  constructor
  · exact fun ⟨quarantined, others⟩ task member => others task member (quarantined task member)
  · exact fun vacant => ⟨fun task member => absurd member (vacant task), fun task member =>
      absurd member (vacant task)⟩

/-- A cursor is settled exactly if every task it covers has its receipt or is quarantined, and complete
exactly if every one has its receipt; then the entities have reached the versions of all of them. -/
theorem projection_completeness (run : (machine codec).Run Db.empty history db) (cursor : Cursor) :
    ((projectionCompleteness db cursor).settled = true ↔ ∀ task ∈ db.tasks.rows,
      cursor.covers db task.entityUuid task.createdAt = true →
        db.Recorded task ∨ task.status = .quarantined) ∧
    ((projectionCompleteness db cursor).complete = true ↔ ∀ task ∈ db.tasks.rows,
      cursor.covers db task.entityUuid task.createdAt = true → db.Recorded task) ∧
    ((projectionCompleteness db cursor).complete = true → ∀ task ∈ db.tasks.rows,
      cursor.covers db task.entityUuid task.createdAt = true →
        ∃ entity, db.entityIndex.find? task.entityUuid = some entity ∧
          task.projectionVersion ≤ entity.confirmedProjectionVersion) := by
  obtain ⟨_, versions, confirmed⟩ := run_confirmed run
  have complete : (projectionCompleteness db cursor).complete = true ↔ ∀ task ∈ db.tasks.rows,
      cursor.covers db task.entityUuid task.createdAt = true → db.Recorded task := by
    rw [complete_iff, List.eq_nil_iff_forall_not_mem]
    refine (confirmed.forall_unfinished fun _ => False).trans ?_
    simp only [or_false]
  refine ⟨?_, complete, fun done task present covered => ?_⟩
  · rw [settled_iff]
    exact confirmed.forall_unfinished _
  · have recorded := complete.mp done task present covered
    obtain ⟨_, counted, _⟩ := versions.within _ _ (identityOf_eq_some.mpr
      ⟨task, db.tasks.find?_of_mem present, rfl⟩)
    obtain ⟨entity, known, _⟩ := Option.map_eq_some_iff.mp counted
    exact ⟨entity, known, confirmed.bounded _ _ _ _ recorded (congrArg (Option.map _) known)⟩

theorem projection_completeness_finished : ∃ task ∈ Sample.finished.2.tasks.rows,
    Sample.finished.2.Recorded task := by
  have done : (projectionCompleteness Sample.finished.2 {}).complete = true := by decide +kernel
  obtain ⟨task, first⟩ := Option.isSome_iff_exists.mp
    (show Sample.finished.2.tasks.rows.head?.isSome = true by decide +kernel)
  have present := List.mem_of_head? first
  exact ⟨task, present, (projection_completeness Sample.run_finished {}).2.1.mp done task present rfl⟩

/-- Rows of another table that all come from different rows of this one. -/
theorem length_filter_le {t t' : Table ProjectionTask.taskId} {p q : ProjectionTask → Bool}
    (each : ∀ row ∈ t'.rows.filter q, ∃ old ∈ t.rows.filter p, old.taskId = row.taskId) :
    (t'.rows.filter q).length ≤ (t.rows.filter p).length := by
  have nodup : ((t'.rows.filter q).map ProjectionTask.taskId).Nodup :=
    (List.filter_sublist.map _).nodup t'.nodup
  have inside : (t'.rows.filter q).map ProjectionTask.taskId ⊆
      (t.rows.filter p).map ProjectionTask.taskId := by
    intro id member
    obtain ⟨row, there, rfl⟩ := List.mem_map.mp member
    obtain ⟨old, here, same⟩ := each row there
    exact List.mem_map.mpr ⟨old, here, same⟩
  simpa using (List.subperm_of_subset nodup inside).length_le

/-- Below its watermark a cursor only gets fewer tasks that are open, or not acknowledged. Once it is
settled or complete it stays so. -/
theorem completeness_lasts (reached : (machine codec).Run Db.empty history db)
    (run : (machine codec).Run db newer later) (late : ∀ entry ∈ newer, watermark ≤ entry.call.now)
    (bounded : cursor.createdBefore = some watermark) :
    (projectionCompleteness later cursor).openTasks ≤ (projectionCompleteness db cursor).openTasks ∧
    (later.unfinished cursor).length ≤ (db.unfinished cursor).length ∧
    ((projectionCompleteness db cursor).settled = true →
      (projectionCompleteness later cursor).settled = true) ∧
    ((projectionCompleteness db cursor).complete = true →
      (projectionCompleteness later cursor).complete = true) := by
  obtain ⟨sound, versions, _⟩ := run_confirmed reached
  have each : ∀ task ∈ later.unfinished cursor, ∃ old ∈ db.unfinished cursor,
      Continues old task ∧ old.taskId = task.taskId :=
    fun _ member => run_unfinished sound versions run late bounded member
  have fewer : (later.unfinished cursor).length ≤ (db.unfinished cursor).length :=
    length_filter_le fun task member =>
      (each task member).imp fun old ⟨there, _, same⟩ => ⟨there, same⟩
  have opened : (projectionCompleteness later cursor).openTasks ≤
      (projectionCompleteness db cursor).openTasks := by
    simp only [projectionCompleteness, Db.unfinished, List.filter_filter]
    apply length_filter_le
    intro task member
    rw [← List.filter_filter, List.mem_filter] at member
    obtain ⟨old, there, continues, same⟩ := each task member.1
    refine ⟨old, ?_, same⟩
    rw [← List.filter_filter, List.mem_filter]
    refine ⟨there, ?_⟩
    by_contra shut
    rw [continues.closed (by simpa using shut)] at member
    cases member.2
  refine ⟨opened, fewer, fun done => ?_, fun done => ?_⟩
  · have closed : (projectionCompleteness db cursor).openTasks = 0 := of_decide_eq_true done
    exact decide_eq_true (Nat.eq_zero_of_le_zero (closed ▸ opened))
  · rw [complete_iff, ← List.length_eq_zero_iff] at done ⊢
    omega

theorem completeness_lasts_given_up :
    (projectionCompleteness ((machine Sample.codec).commit Sample.parsed.2 Sample.giveUp).2
      Sample.untilThen).openTasks ≤
      (projectionCompleteness Sample.parsed.2 Sample.untilThen).openTasks := by
  refine (completeness_lasts Sample.run_parsed (Machine.Run.nil.commit Sample.giveUp) ?_ rfl).1
  simp [Sample.giveUp, Call.now]

example : (projectionCompleteness Sample.parsed.2 Sample.untilThen).openTasks = 1 ∧
    (projectionCompleteness ((machine Sample.codec).commit Sample.parsed.2 Sample.giveUp).2
      Sample.untilThen).settled = true := by
  decide +kernel

end Results

section Scans
variable {codec : Codec} {db next start : Db} {history : List (Event codec)} {id : Uuid}
  {task : ProjectionTask}

/-- The others write what they like, but not this task. -/
def Untouched (codec : Codec) (id : Uuid) (db next : Db) : Prop :=
  ∃ history : List (Event codec), (machine codec).Run db history next ∧
    ∀ entry ∈ history, act entry id = none

/-- A task that no entry of a run acts on is the same at its end. -/
theorem run_untouched (sound : Issued db) {newer : List (Event codec)} {later : Db}
    (run : (machine codec).Run db newer later) (left : ∀ entry ∈ newer, act entry id = none)
    (found : db.tasks.find? id = some task) : later.tasks.find? id = some task := by
  induction run with
  | nil => exact found
  | raise _ _ ih =>
    rw [List.forall_mem_cons] at left
    exact ih left.2
  | @answer newer s next call a before answered ih =>
    rw [List.forall_mem_cons] at left
    have kept := (run_keeps sound trivial (fun _ _ _ _ _ _ => trivial) before).1
    have change := exec_taskChange kept answered id
    rw [ih left.2, left.1] at change
    generalize next.tasks.find? id = after at change ⊢
    cases change
    rfl

/-- A page of tasks in the order of their identifiers shows a task that it selects or stops short of it. -/
theorem keyset_shows {selects : ProjectionTask → Bool} {after : Option Uuid} {limit : Nat}
    (found : db.tasks.find? id = some task) (selected : selects task = true)
    (ahead : Beyond after task.taskId) :
    task ∈ db.tasks.keyset selects ProjectionTask.taskId after limit ∨
      limit ≤ (db.tasks.keyset selects ProjectionTask.taskId after limit).length ∧
        ∀ chosen ∈ db.tasks.keyset selects ProjectionTask.taskId after limit,
          chosen.taskId < task.taskId := by
  have page := db.tasks.page_keyset selects ProjectionTask.taskId after limit fun _ _ same => same
  exact page.cut task (List.mem_filter.mpr ⟨((db.tasks.find?_eq_some _ _).mp found).1, selected⟩) ahead

theorem listStaleProjectionTasks_of_pos (db : Db) (after : Option Uuid) {olderThan now : Time}
    {limit : Int} (positive : 1 ≤ limit) (old : 0 ≤ olderThan) :
    listStaleProjectionTasks db olderThan after limit now = .ok (db.tasks.keyset
      (fun task => task.stale (now - olderThan)) ProjectionTask.taskId after limit.toNat) := by
  rw [listStaleProjectionTasks, decide_eq_true positive, decide_eq_true old]
  rfl

/-- A scan of the stale tasks, each page at its own time; the cutoff is that of the first page. -/
abbrev StaleScan (codec : Codec) (olderThan cutoff : Time) (limit : Int) (id : Uuid) :=
  Scan (Untouched codec id) (fun db after page => ∃ now, cutoff ≤ now - olderThan ∧
    listStaleProjectionTasks db olderThan after limit now = .ok page) ProjectionTask.taskId limit.toNat

theorem ProjectionTask.stale_mono {cutoff cutoff' : Time} (stale : task.stale cutoff = true)
    (later : cutoff ≤ cutoff') : task.stale cutoff' = true := by
  simp only [ProjectionTask.stale, Bool.or_eq_true, Bool.and_eq_true, decide_eq_true_eq,
    Option.any_eq_true] at stale ⊢
  rcases stale with ⟨claimable, due⟩ | ⟨leased, since, taken, past⟩
  · exact .inl ⟨claimable, due.trans later⟩
  · exact .inr ⟨leased, since, taken, past.trans later⟩

/-- A scan that has come to its end has shown a task that was stale when it began and that nobody
touched, whatever was written to the other tasks between the pages. -/
theorem stale_scan_complete (reached : (machine codec).Run Db.empty history start)
    (found : start.tasks.find? id = some task) {cutoff : Time} (stale : task.stale cutoff = true)
    {olderThan : Time} {limit : Int} {pages : List (List ProjectionTask)}
    (scan : StaleScan codec olderThan cutoff limit id start none pages) :
    ∃ page ∈ pages, task ∈ page := by
  obtain ⟨page, member, seen, shown, same⟩ := scan.follows Issued
    (fun db row => row = task ∧ db.tasks.find? id = some task) (fun row => row)
    (by
      rintro db after page _ sound ⟨now, past, listed⟩ ⟨rfl, here⟩ ahead
      unfold listStaleProjectionTasks at listed
      simp only [Except.bind_eq_ok, ensure_eq_ok, pure, Except.pure, Except.ok.injEq] at listed
      obtain ⟨_, _, _, _, rfl⟩ := listed
      exact keyset_shows here (ProjectionTask.stale_mono stale past) ahead)
    (by
      rintro db next sound ⟨newer, run, left⟩
      refine ⟨(run_keeps sound trivial (fun _ _ _ _ _ _ => trivial) run).1, ?_⟩
      rintro _ ⟨rfl, here⟩
      exact ⟨_, ⟨rfl, run_untouched sound run left here⟩, rfl, le_rfl⟩)
    (run_issued reached) ⟨rfl, found⟩ (fun _ absent => by cases absent)
  exact ⟨page, member, same ▸ shown⟩

theorem stale_scan_complete_waiting : ∃ page ∈ [[Sample.waiting], []], Sample.waiting ∈ page := by
  have rests : Untouched Sample.codec (Sample.id 0x21) Sample.parsed.2 Sample.parsed.2 :=
    ⟨[], .nil, by simp⟩
  have found : Sample.parsed.2.tasks.find? (Sample.id 0x21) = some Sample.waiting := by
    rw [Table.find?, Sample.rows_parsed]
    decide +kernel
  have listed (after : Option Uuid) (page : List ProjectionTask)
      (shown : Sample.parsed.2.tasks.keyset (fun task => task.stale Sample.now) ProjectionTask.taskId
        after 1 = page) : ∃ now, Sample.now ≤ now - seconds 60 ∧
        listStaleProjectionTasks Sample.parsed.2 (seconds 60) after 1 now = .ok page := by
    refine ⟨Sample.now + seconds 60, by decide, ?_⟩
    rw [listStaleProjectionTasks_of_pos _ _ le_rfl (by decide), ← shown]
    rfl
  have scan : StaleScan Sample.codec (seconds 60) Sample.now 1 (Sample.id 0x21) Sample.parsed.2 none
      [[Sample.waiting], []] := by
    refine .next (listed _ _ ?_) le_rfl rfl rests (.last (listed _ _ ?_) Nat.one_pos)
    · rw [Table.keyset, Table.select, Sample.rows_parsed]
      decide +kernel
    · rw [Table.keyset, Table.select, Sample.rows_parsed]
      decide +kernel
  exact stale_scan_complete Sample.run_parsed found (by decide +kernel) scan

end Scans
end Collector.Persistence.Projection
