import Collector.Persistence.Projection.Writes

/-!
Projection tasks as a lease queue. A parse result inserts a task, an acknowledgement finishes one,
the lease operations move the lease of one, and no other call writes the table.
-/

namespace Collector.Persistence.Projection
open Collector.Lib Collector.Lib.Lease

variable {codec : Codec} {db next : Db}

section Tables

theorem upsertEntity_tasks {identity : EntityIdentity} {draw : Uuid} {now : Time}
    {row : EntityIndex} (done : upsertEntity db identity draw now = .ok (row, next)) :
    next.tasks = db.tasks := by
  unfold upsertEntity at done
  simp only [Except.bind_eq_ok, ensure_eq_ok] at done
  obtain ⟨_, _, done⟩ := done
  split at done <;>
    · simp only [pure, Except.pure, Except.ok.injEq, Prod.mk.injEq] at done
      rw [← done.2]

theorem recordParseFailure_tasks {attempt : ParseAttemptRecord} {draw : Uuid} {now : Time}
    {row : ParseAttempt} (done : recordParseFailure db attempt draw now = .ok (row, next)) :
    next.tasks = db.tasks := by
  unfold recordParseFailure at done
  simp only [Except.bind_eq_ok, ensure_eq_ok] at done
  obtain ⟨_, _, done⟩ := done
  rw [(insertParseAttempt_eq_ok done).2]

theorem artifactFor_tasks {ref : NormalizedArtifactRef} {objectKey : String} {draw : Uuid}
    {now : Time} {artifact : NormalizedArtifact}
    (done : artifactFor db ref objectKey draw now = .ok (artifact, next)) :
    next.tasks = db.tasks := by
  unfold artifactFor at done
  simp only [Except.bind_eq_ok, ensure_eq_ok] at done
  obtain ⟨_, _, done⟩ := done
  split at done
  · simp only [pure, Except.pure, Except.ok.injEq, Prod.mk.injEq] at done
    rw [← done.2]
  · simp only [Except.bind_eq_ok, ensure_eq_ok, pure, Except.pure, Except.ok.injEq,
      Prod.mk.injEq] at done
    obtain ⟨_, _, _, rfl⟩ := done
    rfl

theorem linkArtifact_tasks (artifact : NormalizedArtifact) (parseAttemptId : Uuid) :
    (linkArtifact db artifact parseAttemptId).2.tasks = db.tasks := by
  unfold linkArtifact
  split <;> rfl

theorem recordLineage_tasks {attempt : ParseAttemptRecord} {ref : NormalizedArtifactRef}
    {objectKey : String} {draws : ParseDraws} {now : Time}
    {rows : ParseAttempt × NormalizedArtifact}
    (done : recordLineage db attempt ref objectKey draws now = .ok (rows, next)) :
    next.tasks = db.tasks := by
  unfold recordLineage at done
  simp only [Except.bind_eq_ok, pure, Except.pure, Except.ok.injEq, Prod.mk.injEq] at done
  obtain ⟨⟨found, middle⟩, artifactDone, ⟨row, after⟩, attemptDone, _, rfl⟩ := done
  have inserted := (insertParseAttempt_eq_ok attemptDone).2
  dsimp only at inserted ⊢
  rw [linkArtifact_tasks, inserted]
  change middle.tasks = db.tasks
  exact artifactFor_tasks artifactDone

/-- A parse result inserts a task that nobody has claimed, or writes no task. -/
theorem recordParseResult_tasks {attempt : ParseAttemptRecord} {ref : NormalizedArtifactRef}
    {options : TaskOptions} {draws : ParseDraws} {now : Time} {result : ParseResult}
    (done : recordParseResult codec db attempt ref options draws now = .ok (result, next)) :
    next.tasks = db.tasks ∨ ∃ task, next.tasks = db.tasks.insert task ∧
      task.columns = LeaseColumns.fresh task.maxAttempts := by
  unfold recordParseResult at done
  simp only [Except.bind_eq_ok] at done
  obtain ⟨_, _, _, _, entity, _, done⟩ := done
  split at done
  · simp only [Except.bind_eq_ok, pure, Except.pure, Except.ok.injEq, Prod.mk.injEq] at done
    obtain ⟨_, _, _, rfl⟩ := done
    exact .inl rfl
  · unfold issueVersion at done
    simp only [Except.bind_eq_ok, ensure_eq_ok, pure, Except.pure, Except.ok.injEq,
      Prod.mk.injEq] at done
    obtain ⟨⟨⟨parseAttempt, artifact⟩, middle⟩, lineage, ⟨bumped, after⟩, bumpDone, last, taskDone,
      _, _, final, outboxDone, rfl, rfl⟩ := done
    have same := recordLineage_tasks lineage
    obtain ⟨rfl, rfl⟩ := bumpVersion_eq_ok bumpDone
    obtain ⟨_, rfl⟩ := insertTask_eq_ok taskDone
    obtain ⟨_, _, rfl⟩ := insertOutbox_eq_ok.mp outboxDone
    exact .inr ⟨_, by dsimp only; rw [same], rfl⟩

theorem fetchUnpublished_tasks {topics : List Topic}
    {limit visibilitySeconds maxDeliveryAttempts : Int} {skip : List Uuid} {now : Time}
    {events : List OutboxEvent}
    (done : fetchUnpublished db topics limit visibilitySeconds maxDeliveryAttempts skip now =
      .ok (events, next)) : next.tasks = db.tasks := by
  unfold fetchUnpublished at done
  simp only [Except.bind_eq_ok, pure, Except.pure, Except.ok.injEq, Prod.mk.injEq] at done
  obtain ⟨_, _, _, _, _, _, _, rfl⟩ := done
  rfl

theorem markFailed_tasks {outboxId : Uuid} {errorCode : String} {errorMessage : Option String}
    {policy : Backoff} {maxAttempts : Int} {now : Time} {row : OutboxEvent}
    (done : markFailed db outboxId errorCode errorMessage policy maxAttempts now = .ok (row, next)) :
    next.tasks = db.tasks := by
  unfold markFailed Db.writeOutbox at done
  simp only [Except.bind_eq_ok, ensure_eq_ok, require_eq_ok] at done
  obtain ⟨_, _, event, _, done⟩ := done
  split at done
  · simp only [pure, Except.pure, Except.ok.injEq, Prod.mk.injEq] at done
    rw [← done.2]
  · simp only [Except.bind_eq_ok, pure, Except.pure, Except.ok.injEq, Prod.mk.injEq] at done
    obtain ⟨_, _, _, rfl⟩ := done
    rfl

theorem unpark_tasks {outboxId : Uuid} {actor reason : String} {requestId : Option String}
    {now : Time} {row : OutboxEvent}
    (done : unpark db outboxId actor reason requestId now = .ok (row, next)) :
    next.tasks = db.tasks := by
  unfold unpark Db.writeOutbox at done
  simp only [Except.bind_eq_ok, ensure_eq_ok, require_eq_ok, pure, Except.pure, Except.ok.injEq,
    Prod.mk.injEq] at done
  obtain ⟨_, _, event, _, _, _, ⟨written, middle⟩, ⟨_, _, _, rfl⟩, auditLog, _, _, rfl⟩ := done
  rfl

theorem purgePublished_tasks {olderThan : Time} {after : Option Uuid} {limit : Int}
    {skip : List Uuid} {now : Time} {result : PurgeResult}
    (done : purgePublished db olderThan after limit skip now = .ok (result, next)) :
    next.tasks = db.tasks := by
  unfold purgePublished at done
  simp only [Except.bind_eq_ok, pure, Except.pure, Except.ok.injEq, Prod.mk.injEq] at done
  obtain ⟨_, _, _, _, _, rfl⟩ := done
  rfl

end Tables

section Queue

/-- The lease columns of one task. -/
def leaseRow (db : Db) (id : Uuid) : Option LeaseColumns :=
  (db.tasks.find? id).map ProjectionTask.columns

theorem rowEffect_of_tasks_eq {act : Option (Act String Time)} (same : next.tasks = db.tasks)
    (silent : act = none) (id : Uuid) : RowEffect (leaseRow db id) act (leaseRow next id) := by
  subst silent
  simp only [leaseRow, same]
  cases db.tasks.find? id with
  | none => exact .absent
  | some task => exact .kept _

theorem LeaseStep.rowEffect {entry : Event codec} (step : LeaseStep db next entry) (id : Uuid) :
    RowEffect (leaseRow db id) (act entry id) (leaseRow next id) := by
  obtain ⟨tasks, rfl, effect⟩ := step
  have here := effect id
  simp only [leaseRow]
  generalize db.tasks.find? id = before, act entry id = performed, tasks.find? id = after at here ⊢
  cases here with
  | absent => exact .absent
  | kept task => exact .kept _
  | moved advances => exact .moved advances

theorem acknowledgeProjection_rowEffect {taskId : Uuid} {receipt : AppliedProjectionReceipt codec}
    {event : Option DomainChangedEvent} {owner : Option String} {draws : EventDraws} {now : Time}
    {result : AcknowledgeResult}
    (done : acknowledgeProjection db taskId receipt event owner draws now = .ok (result, next))
    (id : Uuid) :
    RowEffect (leaseRow db id)
      (act (⟨.acknowledgeProjection taskId receipt event owner draws now,
        .ok (.acknowledged result)⟩ : Event codec) id) (leaseRow next id) := by
  obtain ⟨rfl, task, locked, _, _, ⟨_, _, _, old, rfl⟩ | ⟨recording, rfl, _, rfl, rfl, created, rfl⟩⟩ :=
    acknowledgeProjection_eq_ok done
  · exact rowEffect_of_tasks_eq rfl (by simp [act, old]) id
  · simp only [act, created, and_true, leaseRow, recording.find?_task]
    by_cases here : id = recording.receipt.projectionTaskId
    · rw [if_pos here, if_pos here, here, recording.found]
      cases owner with
      | none => exact .moved (LeaseColumns.advances_revoke rfl)
      | some worker =>
        obtain ⟨_, leased, owned⟩ := lockOwned_eq_ok.mp locked
        exact .moved (LeaseColumns.advances_finish leased owned rfl)
    · rw [if_neg here, if_neg here]
      exact rowEffect_of_tasks_eq rfl rfl id

/-- The projection tasks are a lease queue. -/
def leaseQueue (codec : Codec) : LeaseQueue (machine codec) where
  row := leaseRow
  act := act
  raised call e id := by
    cases call <;> rfl
  effect := by
    intro db next call a answered id
    cases call with
    | upsertEntity =>
      obtain ⟨_, done, rfl⟩ := answer_eq_ok.mp answered
      exact rowEffect_of_tasks_eq (upsertEntity_tasks done) rfl id
    | recordParseResult =>
      obtain ⟨_, done, rfl⟩ := answer_eq_ok.mp answered
      rcases recordParseResult_tasks done with same | ⟨task, inserted, fresh⟩
      · exact rowEffect_of_tasks_eq same rfl id
      · by_cases known : task.taskId ∈ db.tasks.keys
        · refine rowEffect_of_tasks_eq ?_ rfl id
          rw [inserted, Table.insert, dif_pos known]
        · simp only [leaseRow, inserted, db.tasks.find?_insert _ known]
          split
          · rename_i here
            rw [← here, (db.tasks.find?_eq_none _).mpr known, Option.map_some, fresh]
            exact .created _
          · exact rowEffect_of_tasks_eq rfl rfl id
    | recordParseFailure =>
      obtain ⟨_, done, rfl⟩ := answer_eq_ok.mp answered
      exact rowEffect_of_tasks_eq (recordParseFailure_tasks done) rfl id
    | claimProjectionTasks =>
      obtain ⟨_, done, rfl⟩ := answer_eq_ok.mp answered
      exact (claimProjectionTasks_step done).rowEffect id
    | heartbeatProjectionTask =>
      obtain ⟨_, done, rfl⟩ := answer_eq_ok.mp answered
      exact (heartbeatProjectionTask_step done).rowEffect id
    | retryProjectionTask =>
      obtain ⟨_, done, rfl⟩ := answer_eq_ok.mp answered
      exact (retryProjectionTask_step done).rowEffect id
    | releaseProjectionTask =>
      obtain ⟨_, done, rfl⟩ := answer_eq_ok.mp answered
      exact (releaseProjectionTask_step done).rowEffect id
    | quarantineProjectionTask =>
      obtain ⟨_, done, rfl⟩ := answer_eq_ok.mp answered
      exact (quarantineProjectionTask_step done).rowEffect id
    | recoverExpiredProjectionLeases =>
      obtain ⟨_, done, rfl⟩ := answer_eq_ok.mp answered
      exact (recoverExpiredProjectionLeases_step done).rowEffect id
    | acknowledgeProjection =>
      obtain ⟨_, done, rfl⟩ := answer_eq_ok.mp answered
      exact acknowledgeProjection_rowEffect done id
    | fetchUnpublished =>
      obtain ⟨_, done, rfl⟩ := answer_eq_ok.mp answered
      exact rowEffect_of_tasks_eq (fetchUnpublished_tasks done) rfl id
    | markPublished outboxIds now =>
      cases answered
      exact rowEffect_of_tasks_eq rfl rfl id
    | markFailed =>
      obtain ⟨_, done, rfl⟩ := answer_eq_ok.mp answered
      exact rowEffect_of_tasks_eq (markFailed_tasks done) rfl id
    | unpark =>
      obtain ⟨_, done, rfl⟩ := answer_eq_ok.mp answered
      exact rowEffect_of_tasks_eq (unpark_tasks done) rfl id
    | purgePublished =>
      obtain ⟨_, done, rfl⟩ := answer_eq_ok.mp answered
      exact rowEffect_of_tasks_eq (purgePublished_tasks done) rfl id

theorem vacant_empty (id : Uuid) : (leaseQueue codec).row Db.empty id = none := rfl

/-- The worker to whom an entry handed the task. -/
def claimedBy (entry : Event codec) (id : Uuid) : Option String :=
  match entry with
  | ⟨.claimProjectionTasks worker _ _ _ _ _, .ok (.tasks tasks)⟩ =>
    if id ∈ tasks.map ProjectionTask.taskId then some worker else none
  | _ => none

/-- The worker whose report on the task took effect. -/
def reportedBy (entry : Event codec) (id : Uuid) : Option String :=
  match entry with
  | ⟨.heartbeatProjectionTask taskId owner _ _, .ok (.expires _)⟩
  | ⟨.retryProjectionTask taskId owner _ _ _ _ _, .ok (.task _)⟩
  | ⟨.releaseProjectionTask taskId owner _ _, .ok _⟩ => if id = taskId then some owner else none
  | ⟨.acknowledgeProjection taskId _ _ owner _ _, .ok (.acknowledged result)⟩ =>
    if id = taskId ∧ result.created = true then owner else none
  | _ => none

theorem claimer_eq_claimedBy (entry : Event codec) (id : Uuid) :
    (leaseQueue codec).claimer entry id = claimedBy entry id := by
  obtain ⟨call, outcome⟩ := entry
  simp only [LeaseQueue.claimer, leaseQueue]
  fun_cases act ⟨call, outcome⟩ id <;> simp_all [claimedBy, Act.claimer]

theorem reporter_eq_reportedBy (entry : Event codec) (id : Uuid) :
    (leaseQueue codec).reporter entry id = reportedBy entry id := by
  obtain ⟨call, outcome⟩ := entry
  simp only [LeaseQueue.reporter, leaseQueue]
  fun_cases act ⟨call, outcome⟩ id <;> simp_all [reportedBy, Act.reporter]

end Queue

end Collector.Persistence.Projection
