import Collector.Persistence.Projection.Contents

/-!
Commands are never lost. A task keeps the outbox row of its command until its receipt is recorded,
whatever publishers, operators and retention do in between, and its lineage is there for good; so
a parse step can be repeated at any time.
-/

namespace Collector.Persistence.Projection
open Collector.Lib

variable {codec : Codec} {db next : Db}

/-- The outbox holds the command of a task. -/
def Db.commanded (db : Db) (id : Uuid) : Prop :=
  ∃ outboxId content, db.contentOf outboxId = some content ∧ content.eventId = id ∧
    content.topic = .internal ∧ content.eventType = projectionCommandEventType

theorem Issue.commanded (issue : Issue codec db) (sound : Issued db) :
    issue.next.commanded issue.task.taskId := by
  refine ⟨issue.outboxId, issue.command.content, ?_, rfl, rfl, rfl⟩
  rw [Db.contentOf, issue.find?_outbox sound, if_pos rfl, Option.map_some]

/-- Only the purge of a finished task takes a command away. -/
theorem ContentStep.commanded_kept {label : Label codec}
    (step : ContentStep codec db next label) {id : Uuid} (sent : db.commanded id) :
    next.commanded id ∨ (db.settled id).isSome := by
  obtain ⟨outboxId, content, known, rfl, internal, command⟩ := sent
  have unmoved : ∀ {new : Uuid}, db.contentOf new = none → new ≠ outboxId := by
    rintro new fresh rfl
    rw [fresh] at known
    cases known
  cases step with
  | kept _ _ contents =>
    exact .inl ⟨outboxId, content, by rw [contents, known], rfl, internal, command⟩
  | commanded issue _ _ fresh contents =>
    exact .inl ⟨outboxId, content, by rw [contents, if_neg (unmoved fresh), known], rfl, internal,
      command⟩
  | silent _ _ _ _ contents =>
    exact .inl ⟨outboxId, content, by rw [contents, known], rfl, internal, command⟩
  | emitted _ _ announcement =>
    refine .inl ⟨outboxId, content, ?_, rfl, internal, command⟩
    rw [announcement.contents, if_neg (unmoved announcement.freshOutbox), known]
  | purged _ _ _ gone =>
    rcases gone outboxId content known with stays | domain | done
    · exact .inl ⟨outboxId, content, stays, rfl, internal, command⟩
    · rw [internal] at domain
      cases domain
    · exact .inr done

/-- What a parse step can be repeated from: its command or its receipt, and its lineage. -/
structure Repeatable (db : Db) (id : Uuid) (task : TaskIdentity) : Prop where
  answered : db.commanded id ∨ (db.settled id).isSome
  artifact : ∃ row, db.normalizedArtifacts.find? task.artifactId = some row
  parseAttempt : ∃ row, task.parseAttemptId.bind db.parseAttempts.find? = some row
  collection : isCollectionName task.targetCollection = true
  schema : isSchemaVersion task.targetSchemaVersion = true
  priority : 0 ≤ task.priority ∧ task.priority ≤ 100

def Commands (db : Db) : Prop := ∀ id task, db.identityOf id = some task → Repeatable db id task

theorem Issue.repeatable (issue : Issue codec db) (sound : Issued db) :
    Repeatable issue.next issue.task.taskId issue.task.identity := by
  obtain ⟨artifact, stored, _⟩ := issue.artifactKnown
  obtain ⟨id, row, linked, recorded⟩ := issue.attemptKnown
  have valid := issue.valid
  simp only [ProjectionCommand.valid, Bool.and_eq_true, decide_eq_true_eq] at valid
  obtain ⟨⟨⟨⟨_, collection⟩, schema⟩, priority⟩, _⟩ := valid
  refine ⟨.inl (issue.commanded sound), ⟨artifact, stored⟩, ⟨row, ?_⟩, collection, schema, priority⟩
  change issue.task.parseAttemptId.bind issue.parseAttempts.find? = some row
  rw [linked]
  exact recorded

/-- The lineage tables only grow. -/
theorem Change.lineage_kept {label : Label codec}
    (change : Change codec db label next) (sound : Issued db) :
    (∀ id row, db.normalizedArtifacts.find? id = some row →
      ∃ row', next.normalizedArtifacts.find? id = some row' ∧ row'.ref = row.ref) ∧
    ∀ id row, db.parseAttempts.find? id = some row → next.parseAttempts.find? id = some row := by
  cases change with
  | issued issue => exact ⟨issue.artifactsKept, issue.attemptsKept⟩
  | attempted row unissued =>
    refine ⟨fun id row known => ⟨row, known, rfl⟩, fun id old known => ?_⟩
    have fresh : row.parseAttemptId ∉ db.parseAttempts.keys := fun known =>
      unissued (sound.attempts _ known)
    dsimp only
    rw [db.parseAttempts.find?_insert _ fresh, if_neg, known]
    rintro rfl
    exact fresh ((db.parseAttempts.mem_keys_iff _).mpr ⟨old, known⟩)
  | _ => exact ⟨fun id row known => ⟨row, known, rfl⟩, fun id row known => known⟩

theorem Change.commands {label : Label codec} (change : Change codec db label next)
    (sound : Issued db) (confirmed : Confirmed db) (held : Commands db) : Commands next := by
  -- A task that was there keeps its command or is done, and keeps its lineage.
  have kept : ∀ id task, db.identityOf id = some task → Repeatable next id task := by
    intro id task known
    obtain ⟨answered, ⟨artifact, stored⟩, ⟨attempt, recorded⟩, collection, schema, priority⟩ :=
      held id task known
    have lineage := change.lineage_kept sound
    have done : (db.settled id).isSome → (next.settled id).isSome := by
      intro settled
      obtain ⟨pair, settled⟩ := Option.isSome_iff_exists.mp settled
      rw [(change.confirmation sound).settled_kept confirmed settled]
      rfl
    refine ⟨?_, ?_, ?_, collection, schema, priority⟩
    · rcases answered with sent | settled
      · exact ((change.content sound).commanded_kept sent).imp_right done
      · exact .inr (done settled)
    · obtain ⟨row, there, _⟩ := lineage.1 _ _ stored
      exact ⟨row, there⟩
    · obtain ⟨attemptId, linked, there⟩ := Option.bind_eq_some_iff.mp recorded
      exact ⟨attempt, Option.bind_eq_some_iff.mpr ⟨attemptId, linked, lineage.2 _ _ there⟩⟩
  intro id task known
  cases change.skeleton sound with
  | quiet identities => exact kept id task (by rw [← identities, known])
  | registered _ _ identities => exact kept id task (by rw [← identities, known])
  | issued issue same _ identities =>
    rw [identities] at known
    split at known
    · rename_i here
      cases known
      subst same here
      exact issue.repeatable sound
    · exact kept id task known

theorem commands_empty : Commands Db.empty := nofun

theorem run_commands {history : List (Event codec)}
    (run : (machine codec).Run Db.empty history db) :
    Issued db ∧ Versions db ∧ Confirmed db ∧ Commands db :=
  run_invariant (P := fun db => Versions db ∧ Confirmed db ∧ Commands db)
    ⟨versions_empty, confirmed_empty, commands_empty⟩
    (fun _ _ _ sound held change => ⟨(change.skeleton sound).versions held.1,
      (change.confirmation sound).confirmed held.1 held.2.1, change.commands sound held.2.1 held.2.2⟩)
    run

section Replay

/-- The check for a missing command row passes. -/
theorem Repeatable.outbox_check {id : Uuid} {task : ProjectionTask} (confirmed : Confirmed db)
    (found : db.tasks.find? id = some task) (kept : Repeatable db id task.identity) :
    ((outboxByEventId db task.taskId).isSome || isAcknowledged db task) = true := by
  have located := ((db.tasks.find?_eq_some _ _).mp found).2
  rw [Bool.or_eq_true]
  rcases kept.answered with ⟨outboxId, content, known, same, _⟩ | done
  · obtain ⟨event, stored, rfl⟩ := contentOf_eq_some.mp known
    refine .inl (List.find?_isSome.mpr ⟨event, ((db.outbox.find?_eq_some _ _).mp stored).1, ?_⟩)
    exact decide_eq_true (same.trans located.symm)
  · obtain ⟨pair, done⟩ := Option.isSome_iff_exists.mp done
    obtain ⟨row, there, succeeded, _⟩ := settled_eq_some.mp done
    cases found.symm.trans there
    rw [confirmed.agreed] at done
    obtain ⟨ack, recorded, _⟩ := Option.map_eq_some_iff.mp done
    exact .inr (by simp [isAcknowledged, succeeded, located, recorded])

/-- A parse step repeated with the bytes it gave the first time answers with its task. -/
theorem recordParseResult_again (versions : Versions db) (confirmed : Confirmed db)
    (commands : Commands db) {id : Uuid} {task : ProjectionTask}
    (found : db.tasks.find? id = some task) :
    ∃ artifact, db.normalizedArtifacts.find? task.artifactId = some artifact ∧
      ∀ (attempt : ParseAttemptRecord) (ref : NormalizedArtifactRef) (options : TaskOptions)
        (draws : ParseDraws) (now : Time),
        attempt.outcome ∈ successParseOutcomes → requireConsistentLineage attempt ref = .ok () →
        parseKey codec ref.fetchId attempt.rawSha256 attempt.parserVersion ref.entityUuid
          options.targetCollection = task.parseKey →
        ref.entityUuid = task.entityUuid → ref.sha256 = artifact.ref.sha256 →
        ∃ result, recordParseResult codec db attempt ref options draws now = .ok (result, db) ∧
          result.task = task ∧ result.created = false := by
  have known : db.identityOf id = some task.identity := identityOf_eq_some.mpr ⟨task, found, rfl⟩
  have kept := commands id task.identity known
  obtain ⟨artifact, stored⟩ := kept.artifact
  obtain ⟨row, linked⟩ := kept.parseAttempt
  refine ⟨artifact, stored, ?_⟩
  intro attempt ref options draws now outcome lineage key owner bytes
  obtain ⟨version, counter, positive, _⟩ := versions.within id task.identity known
  obtain ⟨entity, registered, _⟩ := Option.map_eq_some_iff.mp counter
  obtain ⟨same, there, here⟩ := taskByParseKey_of_identityOf versions known
  have located := ((db.tasks.find?_eq_some _ _).mp found).2
  obtain ⟨present, _⟩ := taskByParseKey_eq_some there
  rw [here, found] at present
  cases present
  have valid : (task.command ref).valid = true := by
    unfold ProjectionCommand.valid
    simp only [Bool.and_eq_true, decide_eq_true_eq]
    exact ⟨⟨⟨⟨positive, kept.collection⟩, kept.schema⟩, kept.priority⟩, owner⟩
  refine ⟨⟨row, artifact, task, task.command ref, outboxByEventId db task.taskId, false⟩, ?_, rfl,
    rfl⟩
  have again : existingParseResult db task ref =
      .ok ⟨row, artifact, task, task.command ref, outboxByEventId db task.taskId, false⟩ := by
    simp only [existingParseResult, Except.bind_eq_ok, require_eq_ok, ensure_eq_ok, pure, Except.pure,
      Except.ok.injEq]
    refine ⟨artifact, stored, (), ?_, (), kept.outbox_check confirmed found, row, linked, (), valid,
      rfl⟩
    rw [bytes, owner, decide_eq_true rfl, decide_eq_true rfl, Bool.and_self]
  simp only [recordParseResult, Except.bind_eq_ok, ensure_eq_ok, require_eq_ok, decide_eq_true_eq]
  refine ⟨(), outcome, (), lineage, entity, owner ▸ registered, ?_⟩
  change taskByParseKey db task.parseKey = some task at there
  rw [key, there]
  simp only [again]
  rfl

theorem issueVersion_ne_missing (entity : EntityIndex) (key : String) (attempt : ParseAttemptRecord)
    (ref : NormalizedArtifactRef) (options : TaskOptions) (draws : ParseDraws) (now : Time)
    (id : Uuid) :
    issueVersion codec db entity key attempt ref options draws now ≠
      .error (.conflict id ["outbox_event"]) := by
  intro raised
  simp only [issueVersion, recordLineage, artifactFor, insertParseAttempt, bumpVersion, insertTask,
    insertOutbox, Except.bind_eq_error, Except.bind_eq_ok, ensure_eq_error, ensure_eq_ok,
    reduceCtorEq, and_false, exists_false, false_or, or_false, pure, Except.pure] at raised
  obtain ⟨_, _, raised⟩ := raised
  split at raised
  · cases raised
  · simp [Except.bind_eq_error] at raised

/-- The raise for a missing command row is never reached. -/
theorem recordParseResult_ne_missing (confirmed : Confirmed db) (commands : Commands db)
    (attempt : ParseAttemptRecord) (ref : NormalizedArtifactRef) (options : TaskOptions)
    (draws : ParseDraws) (now : Time) (id : Uuid) :
    recordParseResult codec db attempt ref options draws now ≠
      .error (.conflict id ["outbox_event"]) := by
  intro raised
  simp only [recordParseResult, requireConsistentLineage, Except.bind_eq_error, ensure_eq_error,
    require_eq_error, reduceCtorEq, and_false, exists_false, false_or] at raised
  obtain ⟨_, _, _, _, entity, _, raised⟩ := raised
  split at raised
  · rename_i task found
    obtain ⟨stored, _⟩ := taskByParseKey_eq_some found
    have check := (commands _ _ (identityOf_eq_some.mpr ⟨task, stored, rfl⟩)).outbox_check
      confirmed stored
    simp [existingParseResult, Except.bind_eq_error, pure, Except.pure, check] at raised
  · exact issueVersion_ne_missing _ _ _ _ _ _ _ _ raised

end Replay

/-- **Commands are never lost.** In every reachable state a task has its command row or is
succeeded with an acknowledgement; success is for ever; the raise for a missing command row is
unreachable; and a parse step repeated with the same artifact answers with its task. -/
theorem commands_never_lost {history : List (Event codec)}
    (run : (machine codec).Run Db.empty history db) :
    (∀ id task, db.tasks.find? id = some task →
      ((∃ event ∈ db.outbox.rows, event.eventId = id ∧ event.topic = .internal ∧
          event.eventType = projectionCommandEventType) ∨
        (task.status = .succeeded ∧ (db.acknowledgements.find? id).isSome)) ∧
      (task.status = .succeeded → ∀ newer later, (machine codec).Run db newer later →
        ∃ task', later.tasks.find? id = some task' ∧ task'.status = .succeeded) ∧
      ∃ artifact, db.normalizedArtifacts.find? task.artifactId = some artifact ∧
        ∀ (attempt : ParseAttemptRecord) (ref : NormalizedArtifactRef) (options : TaskOptions)
          (draws : ParseDraws) (now : Time),
          attempt.outcome ∈ successParseOutcomes → requireConsistentLineage attempt ref = .ok () →
          parseKey codec ref.fetchId attempt.rawSha256 attempt.parserVersion ref.entityUuid
            options.targetCollection = task.parseKey →
          ref.entityUuid = task.entityUuid → ref.sha256 = artifact.ref.sha256 →
          ∃ result, recordParseResult codec db attempt ref options draws now = .ok (result, db) ∧
            result.task = task ∧ result.created = false) ∧
    ∀ (attempt : ParseAttemptRecord) (ref : NormalizedArtifactRef) (options : TaskOptions)
      (draws : ParseDraws) (now : Time) (id : Uuid),
      recordParseResult codec db attempt ref options draws now ≠
        .error (.conflict id ["outbox_event"]) := by
  obtain ⟨sound, versions, confirmed, commands⟩ := run_commands run
  refine ⟨fun id task found => ⟨?_, ?_, ?_⟩, ?_⟩
  · rcases (commands id task.identity (identityOf_eq_some.mpr ⟨task, found, rfl⟩)).answered with
      ⟨outboxId, content, known, same, internal, command⟩ | done
    · obtain ⟨event, stored, rfl⟩ := contentOf_eq_some.mp known
      exact .inl ⟨event, ((db.outbox.find?_eq_some _ _).mp stored).1, same, internal, command⟩
    · obtain ⟨pair, done⟩ := Option.isSome_iff_exists.mp done
      obtain ⟨row, there, succeeded, _⟩ := settled_eq_some.mp done
      cases found.symm.trans there
      rw [confirmed.agreed] at done
      obtain ⟨ack, recorded, _⟩ := Option.map_eq_some_iff.mp done
      exact .inr ⟨succeeded, by rw [recorded]; rfl⟩
  · intro succeeded newer later after
    have done := settled_eq_some.mpr ⟨task, found, succeeded, rfl, rfl⟩
    obtain ⟨_, _, _, kept⟩ := run_keeps (P := fun db => Versions db ∧ Confirmed db ∧
        db.settled id = some (task.entityUuid, task.projectionVersion)) sound
      ⟨versions, confirmed, done⟩
      (fun _ _ _ sound held change => ⟨(change.skeleton sound).versions held.1,
        (change.confirmation sound).confirmed held.1 held.2.1,
        (change.confirmation sound).settled_kept held.2.1 held.2.2⟩) after
    obtain ⟨row, there, still, _⟩ := settled_eq_some.mp kept
    exact ⟨row, there, still⟩
  · exact recordParseResult_again versions confirmed commands found
  · exact recordParseResult_ne_missing confirmed commands

theorem commands_never_lost_parsed :
    ∃ task, Sample.parsed.2.tasks.find? (Sample.id 0x21) = some task ∧
      ((∃ event ∈ Sample.parsed.2.outbox.rows, event.eventId = Sample.id 0x21 ∧
          event.topic = .internal ∧ event.eventType = projectionCommandEventType) ∨
        (task.status = .succeeded ∧
          (Sample.parsed.2.acknowledgements.find? (Sample.id 0x21)).isSome)) := by
  have issued : (Sample.parsed.2.tasks.find? (Sample.id 0x21)).isSome := by decide +kernel
  obtain ⟨task, found⟩ := Option.isSome_iff_exists.mp issued
  obtain ⟨held, _⟩ := (commands_never_lost Sample.run_parsed).1 _ task found
  exact ⟨task, found, held⟩

end Collector.Persistence.Projection
