import Collector.Persistence.Projection.Change

/-!
The two calls that write several tables. A parse result is a replay or the issue of a version; an
acknowledgement is a repetition or the recording of a receipt.
-/

namespace Collector.Persistence.Projection
open Collector.Lib

variable {codec : Codec} {db next : Db}

section Parse

/-- The row of the bytes is there, and no other row changed. -/
theorem artifactFor_eq_ok (sound : Issued db) {ref : NormalizedArtifactRef} {objectKey : String}
    {draw : Uuid} {now : Time} {artifact : NormalizedArtifact}
    (done : artifactFor db ref objectKey draw now = .ok (artifact, next)) :
    ∃ artifacts issued,
      next = { db with normalizedArtifacts := artifacts, issued := issued } ∧
      artifacts.find? artifact.artifactId = some artifact ∧ artifact.ref.sha256 = ref.sha256 ∧
      (∀ id row, db.normalizedArtifacts.find? id = some row → artifacts.find? id = some row) ∧
      (∀ id ∈ db.issued, id ∈ issued) ∧ ∀ id ∈ artifacts.keys, id ∈ issued := by
  unfold artifactFor at done
  simp only [Except.bind_eq_ok, ensure_eq_ok] at done
  obtain ⟨_, _, done⟩ := done
  split at done
  · simp only [pure, Except.pure, Except.ok.injEq, Prod.mk.injEq] at done
    obtain ⟨rfl, rfl⟩ := done
    have unissued := newEntityId_not_mem db.issued draw
    have fresh : newEntityId db.issued draw ∉ db.normalizedArtifacts.keys :=
      fun known => unissued (sound.artifacts _ known)
    refine ⟨_, _, rfl, ?_, rfl, ?_, fun _ => List.mem_cons_of_mem _, ?_⟩
    · rw [Table.find?_insert _ _ fresh, if_pos rfl]
    · intro id row known
      rw [Table.find?_insert _ _ fresh, if_neg, known]
      rintro rfl
      exact fresh ((db.normalizedArtifacts.mem_keys_iff _).mpr ⟨row, known⟩)
    · intro id member
      rcases Table.mem_keys_insert _ _ member with rfl | known
      · exact List.mem_cons_self ..
      · exact List.mem_cons_of_mem _ (sound.artifacts id known)
  · rename_i first rest candidates
    simp only [Except.bind_eq_ok, ensure_eq_ok, pure, Except.pure, Except.ok.injEq,
      Prod.mk.injEq] at done
    obtain ⟨_, matching, rfl, rfl⟩ := done
    have chosen : first ∈ db.normalizedArtifacts.rows := by
      have member : first ∈ first :: rest := List.mem_cons_self ..
      rw [← candidates] at member
      exact (List.mem_filter.mp member).1
    have bytes := List.all_eq_true.mp matching first (candidates ▸ List.mem_cons_self ..)
    simp only [decide_eq_true_eq] at bytes
    exact ⟨_, _, rfl, db.normalizedArtifacts.find?_of_mem chosen, bytes.2, fun _ _ known => known,
      fun _ known => known, sound.artifacts⟩

theorem linkArtifact_eq {artifact : NormalizedArtifact} (parseAttemptId : Uuid)
    (known : db.normalizedArtifacts.find? artifact.artifactId = some artifact) :
    ∃ linked artifacts,
      linkArtifact db artifact parseAttemptId =
        (linked, { db with normalizedArtifacts := artifacts }) ∧
      artifacts.find? linked.artifactId = some linked ∧ linked.ref = artifact.ref ∧
      artifacts.keys = db.normalizedArtifacts.keys ∧
      ∀ id row, db.normalizedArtifacts.find? id = some row →
        ∃ row', artifacts.find? id = some row' ∧ row'.ref = row.ref := by
  unfold linkArtifact
  split
  · exact ⟨_, _, rfl, known, rfl, rfl, fun _ row known => ⟨row, known, rfl⟩⟩
  · have lookup := db.normalizedArtifacts.find?_put
      { artifact with parseAttemptId := some parseAttemptId } known
    refine ⟨{ artifact with parseAttemptId := some parseAttemptId }, _, rfl, ?_, rfl,
      Table.keys_put _ _, ?_⟩
    · rw [lookup, if_pos rfl]
    · intro id row present
      rw [lookup]
      split
      · rename_i here
        rw [here, known] at present
        cases present
        exact ⟨_, rfl, rfl⟩
      · exact ⟨row, present, rfl⟩

/-- The lineage of a parse is recorded without touching the lineage of another. -/
theorem recordLineage_eq_ok (sound : Issued db) {attempt : ParseAttemptRecord}
    {ref : NormalizedArtifactRef} {objectKey : String} {draws : ParseDraws} {now : Time}
    {parseAttempt : ParseAttempt} {artifact : NormalizedArtifact}
    (done : recordLineage db attempt ref objectKey draws now =
      .ok ((parseAttempt, artifact), next)) :
    ∃ artifacts parseAttempts issued,
      next = { db with
        normalizedArtifacts := artifacts
        parseAttempts := parseAttempts
        issued := issued } ∧
      artifacts.find? artifact.artifactId = some artifact ∧ artifact.ref.sha256 = ref.sha256 ∧
      (∀ id row, db.normalizedArtifacts.find? id = some row →
        ∃ row', artifacts.find? id = some row' ∧ row'.ref = row.ref) ∧
      parseAttempts.find? parseAttempt.parseAttemptId = some parseAttempt ∧
      (∀ id row, db.parseAttempts.find? id = some row → parseAttempts.find? id = some row) ∧
      (∀ id ∈ db.issued, id ∈ issued) ∧ (∀ id ∈ artifacts.keys, id ∈ issued) ∧
      ∀ id ∈ parseAttempts.keys, id ∈ issued := by
  unfold recordLineage at done
  simp only [Except.bind_eq_ok, pure, Except.pure, Except.ok.injEq, Prod.mk.injEq] at done
  obtain ⟨⟨found, middle⟩, artifactDone, ⟨row, after⟩, attemptDone, ⟨rfl, rfl⟩, rfl⟩ := done
  obtain ⟨artifacts, issued, rfl, foundThere, bytes, kept, grown, artifactsIssued⟩ :=
    artifactFor_eq_ok sound artifactDone
  obtain ⟨unissued, rfl⟩ := insertParseAttempt_eq_ok attemptDone
  dsimp only at unissued ⊢
  have fresh : row.parseAttemptId ∉ db.parseAttempts.keys :=
    fun known => unissued (grown _ (sound.attempts _ known))
  obtain ⟨linked, linkedArtifacts, linkDone, linkedThere, sameRef, sameKeys, linkKept⟩ :=
    @linkArtifact_eq { db with
      normalizedArtifacts := artifacts
      parseAttempts := db.parseAttempts.insert row
      issued := row.parseAttemptId :: issued } found row.parseAttemptId foundThere
  rw [linkDone]
  refine ⟨_, _, _, rfl, linkedThere, sameRef ▸ bytes, ?_, ?_, ?_, ?_, ?_, ?_⟩
  · exact fun id row known => linkKept id row (kept id row known)
  · rw [Table.find?_insert _ _ fresh, if_pos rfl]
  · intro id old known
    rw [Table.find?_insert _ _ fresh, if_neg, known]
    rintro rfl
    exact fresh ((db.parseAttempts.mem_keys_iff _).mpr ⟨old, known⟩)
  · exact fun id known => List.mem_cons_of_mem _ (grown id known)
  · intro id member
    rw [sameKeys] at member
    exact List.mem_cons_of_mem _ (artifactsIssued id member)
  · intro id member
    rcases Table.mem_keys_insert _ _ member with rfl | known
    · exact List.mem_cons_self ..
    · exact List.mem_cons_of_mem _ (grown id (sound.attempts id known))

/-- A new parse step is an issue of the next version. -/
theorem issueVersion_change (sound : Issued db) {entity : EntityIndex} {key : String}
    {attempt : ParseAttemptRecord} {ref : NormalizedArtifactRef} {options : TaskOptions}
    {draws : ParseDraws} {now : Time} {result : ParseResult}
    (known : db.entityIndex.find? ref.entityUuid = some entity)
    (done : issueVersion codec db entity key attempt ref options draws now = .ok (result, next)) :
    ∃ issue : Issue codec db, issue.task = result.task ∧ issue.task.parseKey = key ∧
      issue.task.entityUuid = ref.entityUuid ∧ issue.task.command issue.ref = result.command ∧
      result.created = true ∧ next = issue.next := by
  unfold issueVersion at done
  simp only [Except.bind_eq_ok, ensure_eq_ok, pure, Except.pure, Except.ok.injEq,
    Prod.mk.injEq] at done
  obtain ⟨⟨⟨parseAttempt, artifact⟩, middle⟩, lineage, ⟨bumped, after⟩, bumpDone, last, taskDone,
    _, valid, final, outboxDone, rfl, rfl⟩ := done
  obtain ⟨artifacts, parseAttempts, issued, rfl, artifactThere, bytes, artifactsKept, attemptThere,
    attemptsKept, grown, artifactsIssued, attemptsIssued⟩ := recordLineage_eq_ok sound lineage
  obtain ⟨rfl, rfl⟩ := bumpVersion_eq_ok bumpDone
  obtain ⟨unused, rfl⟩ := insertTask_eq_ok taskDone
  obtain ⟨_, unsent, rfl⟩ := insertOutbox_eq_ok.mp outboxDone
  have located := ((db.entityIndex.find?_eq_some _ _).mp known).2
  dsimp only at valid unused unsent ⊢
  have newTask := newEntityId_not_mem issued draws.task
  have newOutbox := newEntityId_not_mem (newEntityId issued draws.task :: issued) draws.outbox
  refine ⟨⟨entity, _, ref, _, now, artifacts, parseAttempts, _, ?known, ?version, ?fresh, unused,
    valid, ?newTask, ?newOutbox, unsent, ?grown, ⟨artifact, artifactThere, bytes⟩, artifactsKept,
    ?artifactsIssued, ⟨_, parseAttempt, rfl, attemptThere⟩, attemptsKept, ?attemptsIssued⟩,
    rfl, rfl, located, rfl, rfl, rfl⟩
  case known => exact located.symm ▸ known
  case version => rfl
  case fresh => rfl
  case newTask => exact fun old => newTask (grown _ old)
  case newOutbox => exact fun old => newOutbox (List.mem_cons_of_mem _ (grown _ old))
  case grown =>
    rintro id (old | rfl | rfl)
    · exact List.mem_cons_of_mem _ (List.mem_cons_of_mem _ (grown id old))
    · exact List.mem_cons_of_mem _ (List.mem_cons_self ..)
    · exact List.mem_cons_self ..
  case artifactsIssued =>
    exact fun id member => List.mem_cons_of_mem _ (List.mem_cons_of_mem _ (artifactsIssued id member))
  case attemptsIssued =>
    exact fun id member => List.mem_cons_of_mem _ (List.mem_cons_of_mem _ (attemptsIssued id member))

/-- The repetition of a parse step answers with the task it found. -/
theorem existingParseResult_eq_ok {task : ProjectionTask} {ref : NormalizedArtifactRef}
    {result : ParseResult} (done : existingParseResult db task ref = .ok result) :
    result.task = task ∧ result.created = false := by
  unfold existingParseResult at done
  simp only [Except.bind_eq_ok, pure, Except.pure, Except.ok.injEq] at done
  obtain ⟨_, _, _, _, _, _, _, _, _, _, rfl⟩ := done
  exact ⟨rfl, rfl⟩

/-- The command of a repetition is made of the row as it stands and of the reference passed. -/
theorem existingParseResult_command {task : ProjectionTask} {ref : NormalizedArtifactRef}
    {result : ParseResult} (done : existingParseResult db task ref = .ok result) :
    result.command = task.command ref ∧ result.outboxEvent = outboxByEventId db task.taskId := by
  unfold existingParseResult at done
  simp only [Except.bind_eq_ok, pure, Except.pure, Except.ok.injEq] at done
  obtain ⟨_, _, _, _, _, _, _, _, _, _, rfl⟩ := done
  exact ⟨rfl, rfl⟩

/-- A parse result answers for a task that is there, or issues the next version. -/
theorem recordParseResult_eq_ok (sound : Issued db) {attempt : ParseAttemptRecord}
    {ref : NormalizedArtifactRef} {options : TaskOptions} {draws : ParseDraws} {now : Time}
    {result : ParseResult}
    (done : recordParseResult codec db attempt ref options draws now = .ok (result, next)) :
    (∃ task, taskByParseKey db (parseKey codec ref.fetchId attempt.rawSha256 attempt.parserVersion
        ref.entityUuid options.targetCollection) = some task ∧
        existingParseResult db task ref = .ok result ∧ next = db) ∨
      ∃ issue : Issue codec db, issue.task = result.task ∧
        issue.task.parseKey = parseKey codec ref.fetchId attempt.rawSha256 attempt.parserVersion
          ref.entityUuid options.targetCollection ∧
        issue.task.entityUuid = ref.entityUuid ∧ issue.task.command issue.ref = result.command ∧
        result.created = true ∧ next = issue.next := by
  unfold recordParseResult at done
  simp only [Except.bind_eq_ok, ensure_eq_ok, require_eq_ok] at done
  obtain ⟨_, _, _, _, entity, known, done⟩ := done
  split at done
  · rename_i task found
    simp only [Except.bind_eq_ok, pure, Except.pure, Except.ok.injEq, Prod.mk.injEq] at done
    obtain ⟨_, again, rfl, rfl⟩ := done
    exact .inl ⟨task, found, again, rfl⟩
  · exact .inr (issueVersion_change sound known done)

end Parse

section Acknowledge

theorem insertChangeEvent_eq_ok {row : ChangeEvent} :
    insertChangeEvent db row = .ok next ↔
      row.admissible = true ∧ (∀ known ∈ db.changeEvents.rows, known.eventId ≠ row.eventId) ∧
      { db with
        changeEvents := db.changeEvents.insert row
        issued := row.changeEventId :: db.issued } = next := by
  unfold insertChangeEvent
  simp only [Except.bind_eq_ok, ensure_eq_ok, Bool.and_eq_true, List.all_eq_true,
    decide_eq_true_eq, pure, Except.pure, Except.ok.injEq, exists_const, and_assoc]

theorem insertDomainChanged_eq_ok {receipt : ReceiptFields} {event : Option DomainChangedEvent}
    {draws : EventDraws} {now : Time} {rows : ChangeEvent × OutboxEvent}
    (emits : receipt.shouldEmitDomainChanged = true)
    (done : insertDomainChanged codec db receipt event draws now = .ok (rows, next)) :
    ∃ changeEvents outbox issued,
      Emission codec db receipt event now changeEvents outbox issued ∧
      next = { db with changeEvents := changeEvents, outbox := outbox, issued := issued } := by
  unfold insertDomainChanged at done
  simp only [Except.bind_eq_ok, ensure_eq_ok, require_eq_ok, pure, Except.pure, Except.ok.injEq,
    Prod.mk.injEq] at done
  obtain ⟨descriptor, described, _, named, eventSha256, hash, mediaType, media, middle, changeDone,
    last, outboxDone, _, rfl⟩ := done
  obtain ⟨logs, unlogged, rfl⟩ := insertChangeEvent_eq_ok.mp changeDone
  obtain ⟨sends, unsent, rfl⟩ := insertOutbox_eq_ok.mp outboxDone
  have newChange := newEntityId_not_mem db.issued draws.changeEvent
  have newOutbox := newEntityId_not_mem
    (newEntityId db.issued draws.changeEvent :: db.issued) draws.outbox
  exact ⟨_, _, _, .emitted descriptor eventSha256 mediaType _ _ emits described named hash media
    newChange (fun old => newOutbox (List.mem_cons_of_mem _ old)) unlogged unsent logs sends, rfl⟩

theorem lockTask_found {taskId : Uuid} {owner : Option String} {task : ProjectionTask}
    (locked : lockTask db taskId owner = .ok task) : db.tasks.find? taskId = some task := by
  cases owner with
  | none => exact require_eq_ok.mp locked
  | some owner => exact (lockOwned_eq_ok.mp locked).1

theorem recordReceipt_eq_ok {task : ProjectionTask} {receipt : ReceiptFields}
    {event : Option DomainChangedEvent} {draws : EventDraws} {now : Time}
    {result : AcknowledgeResult}
    (done : recordReceipt codec db task receipt event draws now = .ok (result, next)) :
    ∃ entity changeEvents outbox issued,
      db.entityIndex.find? receipt.entityUuid = some entity ∧
      (entity.confirm receipt now).admissible = true ∧ (task.succeed now).admissible = true ∧
      Emission codec db receipt event now changeEvents outbox issued ∧ result.created = true ∧
      next = { db with
        entityIndex := db.entityIndex.put (entity.confirm receipt now)
        tasks := db.tasks.put (task.succeed now)
        acknowledgements := db.acknowledgements.insert (receipt.acknowledgement now)
        changeEvents := changeEvents
        outbox := outbox
        issued := issued } := by
  unfold recordReceipt at done
  simp only [Except.bind_eq_ok, ensure_eq_ok, require_eq_ok] at done
  obtain ⟨entity, known, _, confirms, _, succeeds, done⟩ := done
  split at done
  · rename_i emits
    simp only [Except.bind_eq_ok, pure, Except.pure, Except.ok.injEq, Prod.mk.injEq] at done
    obtain ⟨⟨⟨change, outboxEvent⟩, after⟩, eventsDone, rfl, rfl⟩ := done
    obtain ⟨changeEvents, outbox, issued, emission, rfl⟩ :=
      insertDomainChanged_eq_ok emits eventsDone
    refine ⟨entity, changeEvents, outbox, issued, known, confirms, succeeds, ?_, rfl, rfl⟩
    -- The events are looked for in tables that the first writes did not touch.
    cases emission with
    | silent quiet => exact .silent quiet
    | emitted descriptor eventSha256 mediaType change outbox emits described named hash media
        newChange newOutbox unlogged unsent logs sends =>
      exact .emitted descriptor eventSha256 mediaType change outbox emits described named hash media
        newChange newOutbox unlogged unsent logs sends
  · rename_i quiet
    simp only [pure, Except.pure, Except.ok.injEq, Prod.mk.injEq] at done
    obtain ⟨rfl, rfl⟩ := done
    exact ⟨entity, _, _, _, known, confirms, succeeds, .silent (by simpa using quiet), rfl, rfl⟩

/-- An acknowledgement repeats a recorded receipt and writes nothing, or it records one. -/
theorem acknowledgeProjection_eq_ok {taskId : Uuid} {receipt : AppliedProjectionReceipt codec}
    {event : Option DomainChangedEvent} {owner : Option String} {draws : EventDraws} {now : Time}
    {result : AcknowledgeResult}
    (done : acknowledgeProjection db taskId receipt event owner draws now = .ok (result, next)) :
    receipt.projectionTaskId = taskId ∧ ∃ task, lockTask db taskId owner = .ok task ∧
      task.entityUuid = receipt.entityUuid ∧
      task.projectionVersion = receipt.projectionVersion ∧
      ((∃ existing, db.acknowledgements.find? taskId = some existing ∧
          existing.differs receipt.toReceiptFields = [] ∧ result.created = false ∧ next = db) ∨
        ∃ recording : Recording codec db, recording.receipt = receipt ∧ recording.event = event ∧
          recording.task = task ∧ recording.now = now ∧ result.created = true ∧
          next = recording.next) := by
  unfold acknowledgeProjection at done
  simp only [Except.bind_eq_ok, ensure_eq_ok, decide_eq_true_eq, Bool.and_eq_true] at done
  obtain ⟨_, rfl, task, locked, _, ⟨sameEntity, sameVersion⟩, _, admitted, done⟩ := done
  refine ⟨rfl, task, locked, sameEntity, sameVersion, ?_⟩
  cases acknowledged : db.acknowledgements.find? receipt.projectionTaskId with
  | some existing =>
    simp only [acknowledged, Except.bind_eq_ok, ensure_eq_ok, List.isEmpty_iff, require_eq_ok, pure,
      Except.pure, Except.ok.injEq, Prod.mk.injEq] at done
    obtain ⟨_, agrees, _, _, rfl, rfl⟩ := done
    exact .inl ⟨existing, rfl, agrees, rfl, rfl⟩
  | none =>
    simp only [acknowledged] at done
    obtain ⟨entity, changeEvents, outbox, issued, known, confirms, succeeds, emission, created, rfl⟩ :=
      recordReceipt_eq_ok done
    exact .inr ⟨⟨receipt, event, task, entity, now, changeEvents, outbox, issued,
      lockTask_found locked, known, sameEntity, sameVersion, admitted, confirms, succeeds,
      acknowledged, emission⟩,
      rfl, rfl, rfl, rfl, created, rfl⟩

end Acknowledge

end Collector.Persistence.Projection
