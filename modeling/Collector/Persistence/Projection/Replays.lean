import Collector.Persistence.Projection.Commands
import Collector.Persistence.Projection.CommandJson

/-!
Repeated parses. The outbox keeps the bytes of a command as they were issued, while the repetition
of a parse builds its command again from the row of the task and from the reference it was given;
two fields can then be others than they were.
-/

namespace Collector.Persistence.Projection
open Collector.Lib
open Collector.Contracts (toCanonicalValue Value)

section Issued
variable {codec : Codec} {db next : Db}

/-- The command an entry has issued. -/
def Event.issuedCommand (entry : Event codec) : Option ProjectionCommand :=
  match entry.outcome with
  | .ok (.parsed result) => if result.created then some result.command else none
  | _ => none

/-- The command that was issued for a task. -/
def issuedFor (history : List (Event codec)) (id : Uuid) : Option ProjectionCommand :=
  (history.filterMap Event.issuedCommand).find? fun command => command.taskId = id

/-- A step that issues nothing: no identity of a task is written, and no row of a command. -/
structure Unissued (db next : Db) : Prop where
  identities : ∀ id, next.identityOf id = db.identityOf id
  commands : ∀ outboxId content, next.contentOf outboxId = some content →
    content.topic = .internal → db.contentOf outboxId = some content

theorem Unissued.refl (db : Db) : Unissued db db := ⟨fun _ => rfl, fun _ _ known _ => known⟩

/-- A change after which there is no new task has issued nothing. -/
theorem Change.unissued {label : Label codec} (change : Change codec db label next)
    (sound : Issued db) (known : ∀ id, db.identityOf id = none → next.identityOf id = none) :
    Unissued db next := by
  have same : ∀ issue : Issue codec db, next ≠ issue.next := by
    rintro issue rfl
    have fresh : db.identityOf issue.task.taskId = none := by
      simp only [Db.identityOf, (db.tasks.find?_eq_none _).mpr (issue.newTask_key sound),
        Option.map_none]
    have missing := known _ fresh
    rw [Db.identityOf, issue.find?_task sound, if_pos rfl] at missing
    cases missing
  constructor
  · cases change.skeleton sound with
    | quiet identities => exact identities
    | registered _ _ identities => exact identities
    | issued issue issued => exact absurd issued (same issue)
  · intro outboxId content stored internal
    cases change.content sound with
    | kept _ _ contents => rw [← contents, stored]
    | commanded issue issued => exact absurd issued (same issue)
    | silent _ _ _ _ contents => rw [← contents, stored]
    | emitted _ _ announcement =>
      rw [announcement.contents] at stored
      split at stored
      · cases stored
        cases internal
      · exact stored
    | purged _ _ older => exact older outboxId content stored

/-- Only a quiet change can bring a task. -/
theorem Change.no_new_task {label : Label codec} (change : Change codec db label next)
    (loud : label ≠ .quiet) (id : Uuid) (absent : db.identityOf id = none) :
    next.identityOf id = none := by
  cases change with
  | same => exact absent
  | acknowledged recording =>
    rw [Db.identityOf, recording.find?_task]
    split
    · rename_i here
      rw [here, Db.identityOf, recording.found] at absent
      cases absent
    · exact absent
  | delivered => exact absent
  | purged => exact absent
  | _ => exact absurd rfl loud

theorem LeaseStep.no_new_task {entry : Event codec} (step : LeaseStep db next entry) (id : Uuid)
    (absent : db.identityOf id = none) : next.identityOf id = none := by
  obtain ⟨tasks, rfl, effect⟩ := step
  have here := effect id
  rw [Db.identityOf, Option.map_eq_none_iff] at absent ⊢
  rw [absent] at here
  change tasks.find? id = none
  generalize act entry id = performed, tasks.find? id = after at here
  cases here
  rfl

/-- A call issues the command it answers with, or it issues nothing. -/
theorem exec_issued (sound : Issued db) {call : Call codec} {a : Answer}
    (answered : (machine codec).exec call db = .ok (a, next)) :
    (∃ issue : Issue codec db, next = issue.next ∧
      Event.issuedCommand ⟨call, .ok a⟩ = some (issue.task.command issue.ref)) ∨
    Unissued db next ∧ Event.issuedCommand (⟨call, .ok a⟩ : Event codec) = none := by
  have change := exec_change sound answered
  have quiet {entry : Event codec} (step : LeaseStep db next entry) : Unissued db next :=
    change.unissued sound step.no_new_task
  cases call with
  | recordParseResult =>
    obtain ⟨result, done, rfl⟩ := answer_eq_ok.mp answered
    rcases recordParseResult_eq_ok sound done with
      ⟨_, _, again, rfl⟩ | ⟨issue, _, _, _, command, created, rfl⟩
    · have old := (existingParseResult_eq_ok again).2
      exact .inr ⟨.refl _, by simp [Event.issuedCommand, old]⟩
    · exact .inl ⟨issue, rfl, by simp [Event.issuedCommand, created, command]⟩
  | upsertEntity =>
    obtain ⟨_, done, rfl⟩ := answer_eq_ok.mp answered
    refine .inr ⟨change.unissued sound fun id absent => ?_, rfl⟩
    unfold upsertEntity at done
    simp only [Except.bind_eq_ok, ensure_eq_ok] at done
    obtain ⟨_, _, done⟩ := done
    split at done
    · cases done
      exact absent
    · cases done
      exact absent
  | recordParseFailure =>
    obtain ⟨_, done, rfl⟩ := answer_eq_ok.mp answered
    refine .inr ⟨change.unissued sound fun id absent => ?_, rfl⟩
    unfold recordParseFailure at done
    simp only [Except.bind_eq_ok, ensure_eq_ok] at done
    obtain ⟨_, _, done⟩ := done
    obtain ⟨_, rfl⟩ := insertParseAttempt_eq_ok done
    exact absent
  | claimProjectionTasks =>
    obtain ⟨_, done, rfl⟩ := answer_eq_ok.mp answered
    exact .inr ⟨quiet (claimProjectionTasks_step done), rfl⟩
  | heartbeatProjectionTask =>
    obtain ⟨_, done, rfl⟩ := answer_eq_ok.mp answered
    exact .inr ⟨quiet (heartbeatProjectionTask_step done), rfl⟩
  | retryProjectionTask =>
    obtain ⟨_, done, rfl⟩ := answer_eq_ok.mp answered
    exact .inr ⟨quiet (retryProjectionTask_step done), rfl⟩
  | releaseProjectionTask =>
    obtain ⟨_, done, rfl⟩ := answer_eq_ok.mp answered
    exact .inr ⟨quiet (releaseProjectionTask_step done), rfl⟩
  | quarantineProjectionTask =>
    obtain ⟨_, done, rfl⟩ := answer_eq_ok.mp answered
    exact .inr ⟨quiet (quarantineProjectionTask_step done), rfl⟩
  | recoverExpiredProjectionLeases =>
    obtain ⟨_, done, rfl⟩ := answer_eq_ok.mp answered
    exact .inr ⟨quiet (recoverExpiredProjectionLeases_step done), rfl⟩
  | acknowledgeProjection taskId receipt event owner draws now =>
    obtain ⟨result, done, rfl⟩ := answer_eq_ok.mp answered
    refine .inr ⟨?_, rfl⟩
    obtain ⟨_, _, _, _, _, ⟨_, _, _, _, rfl⟩ | ⟨recording, rfl, _, _, rfl, created, rfl⟩⟩ :=
      acknowledgeProjection_eq_ok done
    · exact .refl _
    · exact change.unissued sound
        ((Change.acknowledged recording).no_new_task (by rintro ⟨⟩))
  | fetchUnpublished =>
    obtain ⟨_, _, rfl⟩ := answer_eq_ok.mp answered
    exact .inr ⟨change.unissued sound (change.no_new_task (by rintro ⟨⟩)), rfl⟩
  | markPublished outboxIds now =>
    change answer Answer.count (markPublished db outboxIds now) = .ok (a, next) at answered
    obtain ⟨_, _, rfl⟩ := answer_eq_ok.mp answered
    exact .inr ⟨change.unissued sound (change.no_new_task (by rintro ⟨⟩)), rfl⟩
  | markFailed =>
    obtain ⟨_, _, rfl⟩ := answer_eq_ok.mp answered
    exact .inr ⟨change.unissued sound (change.no_new_task (by rintro ⟨⟩)), rfl⟩
  | unpark =>
    obtain ⟨_, _, rfl⟩ := answer_eq_ok.mp answered
    exact .inr ⟨change.unissued sound (change.no_new_task (by rintro ⟨⟩)), rfl⟩
  | purgePublished =>
    obtain ⟨_, _, rfl⟩ := answer_eq_ok.mp answered
    exact .inr ⟨change.unissued sound (change.no_new_task (by rintro ⟨⟩)), rfl⟩

/-- The command of a task with these columns, but for what its row does not keep for good. -/
def TaskIdentity.command (task : TaskIdentity) (id : Uuid) (ref : NormalizedArtifactRef)
    (notBefore : Option Time) : ProjectionCommand where
  taskId := id
  entityUuid := task.entityUuid
  projectionVersion := task.projectionVersion
  targetCollection := task.targetCollection
  targetSchemaVersion := task.targetSchemaVersion
  artifact := ref
  priority := task.priority
  notBefore := notBefore
  issuedAt := task.createdAt

/-- Every task and every command row of the outbox goes back to the command that was issued. -/
structure Sent (history : List (Event codec)) (db : Db) : Prop where
  tasks : ∀ id task, db.identityOf id = some task → ∃ issued, issuedFor history id = some issued ∧
    issued = task.command id issued.artifact issued.notBefore
  rows : ∀ outboxId content, db.contentOf outboxId = some content → content.topic = .internal →
    ∃ issued, issuedFor history content.eventId = some issued ∧
      content.payloadBytes = some (codec.canonicalJsonBytes issued)
  known : ∀ id issued, issuedFor history id = some issued → id ∈ db.issued

theorem issuedFor_cons_none {entry : Event codec} {history : List (Event codec)}
    (quiet : entry.issuedCommand = none) (id : Uuid) :
    issuedFor (entry :: history) id = issuedFor history id := by
  rw [issuedFor, List.filterMap_cons_none quiet]
  rfl

theorem issuedFor_cons_some {entry : Event codec} {history : List (Event codec)}
    {command : ProjectionCommand} (issued : entry.issuedCommand = some command) (id : Uuid) :
    issuedFor (entry :: history) id =
      if command.taskId = id then some command else issuedFor history id := by
  rw [issuedFor, List.filterMap_cons_some issued, List.find?_cons]
  by_cases here : command.taskId = id
  · simp [here]
  · simp [here, issuedFor]

theorem Sent.unissued {history : List (Event codec)} {entry : Event codec} (held : Sent history db)
    (step : Unissued db next) (quiet : entry.issuedCommand = none)
    (grown : ∀ id ∈ db.issued, id ∈ next.issued) : Sent (entry :: history) next where
  tasks id task found := by
    rw [step.identities] at found
    rw [issuedFor_cons_none quiet]
    exact held.tasks id task found
  rows outboxId content stored internal := by
    rw [issuedFor_cons_none quiet]
    exact held.rows outboxId content (step.commands outboxId content stored internal) internal
  known id issued found := by
    rw [issuedFor_cons_none quiet] at found
    exact grown id (held.known id issued found)

theorem Sent.issue {history : List (Event codec)} {entry : Event codec} (held : Sent history db)
    (sound : Issued db) (issue : Issue codec db)
    (issued : entry.issuedCommand = some (issue.task.command issue.ref)) :
    Sent (entry :: history) issue.next := by
  -- What was there keeps its command, because the new task is none of it.
  have older : ∀ {id issued'}, issuedFor history id = some issued' →
      issuedFor (entry :: history) id = some issued' := by
    intro id issued' found
    rw [issuedFor_cons_some issued, if_neg, found]
    rintro rfl
    exact issue.newTask (held.known _ _ found)
  have newest : issuedFor (entry :: history) issue.task.taskId =
      some (issue.task.command issue.ref) := by
    rw [issuedFor_cons_some issued]
    exact if_pos rfl
  refine ⟨fun id task found => ?_, fun outboxId content stored internal => ?_,
    fun id issued' found => ?_⟩
  · rw [Db.identityOf, issue.find?_task sound] at found
    split at found
    · rename_i here
      cases found
      subst here
      exact ⟨_, newest, rfl⟩
    · obtain ⟨issued', before, same⟩ := held.tasks id task found
      exact ⟨issued', older before, same⟩
  · rw [Db.contentOf, issue.find?_outbox sound] at stored
    split at stored
    · cases stored
      exact ⟨_, newest, rfl⟩
    · obtain ⟨issued', before, same⟩ := held.rows outboxId content stored internal
      exact ⟨issued', older before, same⟩
  · rw [issuedFor_cons_some issued] at found
    split at found
    · rename_i here
      subst here
      exact issue.grown _ (.inr (.inl rfl))
    · exact issue.grown _ (.inl (held.known id issued' found))

theorem Change.issued_kept {label : Label codec} (change : Change codec db label next) :
    ∀ id ∈ db.issued, id ∈ next.issued := by
  intro id known
  cases change with
  | same => exact known
  | registered => exact List.mem_cons_of_mem _ known
  | attempted => exact List.mem_cons_of_mem _ known
  | issued issue => exact issue.grown id (.inl known)
  | leased => exact known
  | acknowledged recording => exact recording.emission.issued_mem known
  | delivered => exact known
  | purged => exact known

theorem run_sent {history : List (Event codec)} (run : (machine codec).Run Db.empty history db) :
    Issued db ∧ Sent history db := by
  induction run with
  | nil => exact ⟨issued_empty, nofun, nofun, nofun⟩
  | raise _ _ ih => exact ⟨ih.1, ih.2.unissued (.refl _) rfl fun _ known => known⟩
  | answer _ answered ih =>
    have change := exec_change ih.1 answered
    refine ⟨change.sound ih.1, ?_⟩
    rcases exec_issued ih.1 answered with ⟨issue, rfl, issued⟩ | ⟨step, quiet⟩
    · exact ih.2.issue ih.1 issue issued
    · exact ih.2.unissued step quiet change.issued_kept

end Issued

section Replay
variable {F : Type} (floats : FloatText F) {nfc : String → String} {codec : Codec} {db next : Db}

/-- A repeated parse answers with the bytes in the outbox exactly when the task still has the
`not_before` it was issued with and the reference is written like the one it was issued with. -/
theorem replayed_command_iff (ascii : KeepsAscii nfc)
    (json : codec.canonicalJsonBytes = ProjectionCommand.canonicalBytes floats nfc)
    {history : List (Event codec)} (run : (machine codec).Run Db.empty history db)
    {attempt : ParseAttemptRecord} {ref : NormalizedArtifactRef} {options : TaskOptions}
    {draws : ParseDraws} {now : Time} {result : ParseResult} {event : OutboxEvent}
    (done : recordParseResult codec db attempt ref options draws now = .ok (result, next))
    (repeated : result.created = false) (still : result.outboxEvent = some event)
    (internal : event.topic = .internal) :
    event.payloadBytes = some (codec.canonicalJsonBytes result.command) ↔
      ∃ task issued, taskByParseKey db (parseKey codec ref.fetchId attempt.rawSha256
          attempt.parserVersion ref.entityUuid options.targetCollection) = some task ∧
        issuedFor history task.taskId = some issued ∧
        issued.notBefore.map instantText = some (instantText task.notBefore) ∧
        toCanonicalValue nfc (issued.artifact.value : Value F) = toCanonicalValue nfc ref.value := by
  obtain ⟨sound, sent⟩ := run_sent run
  rcases recordParseResult_eq_ok sound done with
    ⟨task, found, again, rfl⟩ | ⟨_, _, _, _, _, created, _⟩
  · obtain ⟨command, outboxEvent⟩ := existingParseResult_command again
    obtain ⟨present, -⟩ := taskByParseKey_eq_some found
    obtain ⟨issued, sentFor, same⟩ :=
      sent.tasks task.taskId task.identity (identityOf_eq_some.mpr ⟨task, present, rfl⟩)
    rw [outboxEvent] at still
    have stored := List.mem_of_find?_eq_some still
    have named : event.eventId = task.taskId := by simpa using List.find?_some still
    obtain ⟨issued', also, bytes⟩ := sent.rows event.outboxId event.content
      (contentOf_eq_some.mpr ⟨event, next.outbox.find?_of_mem stored, rfl⟩) internal
    obtain rfl : issued' = issued := by
      change issuedFor history event.eventId = some issued' at also
      rw [named, sentFor] at also
      exact (Option.some.inj also).symm
    have rebuilt : result.command =
        { issued' with artifact := ref, notBefore := some task.notBefore } := by
      rw [command, same]
      rfl
    have written := issued'.canonicalBytes_with floats ascii ref (some task.notBefore)
    change event.payloadBytes = _ at bytes
    rw [bytes, rebuilt, json, Option.some.injEq, written]
    constructor
    · rintro ⟨notBefore, artifact⟩
      exact ⟨task, issued', found, sentFor, notBefore, artifact⟩
    · rintro ⟨task', other, found', sentFor', notBefore, artifact⟩
      cases found.symm.trans found'
      cases sentFor.symm.trans sentFor'
      exact ⟨notBefore, artifact⟩
  · rw [repeated] at created
    cases created

end Replay

namespace Sample

def treeBytes (command : ProjectionCommand) : Bytes :=
  ((command.tree fun text => text).sortKeys.text Contracts.sampleFloats).flatMap
    String.utf8EncodeChar

/-- SHA-256 on the documents of the listing, and canonical JSON. -/
def canonicalCodec : Codec where
  sha256Hex := codec.sha256Hex
  -- The command of the first page is written out, for the runs below.
  canonicalJsonBytes command := if command = Sample.command 1 then json command else treeBytes command
  decodeEvent _ := none

theorem json_command : json (command 1) = treeBytes (command 1) := by decide +kernel

theorem canonicalCodec_json : canonicalCodec.canonicalJsonBytes =
    ProjectionCommand.canonicalBytes Contracts.sampleFloats fun text => text := by
  funext command
  rw [command.canonicalBytes_eq Contracts.sampleFloats fun _ _ => rfl, utf8_ofList]
  change (if command = Sample.command 1 then json command else treeBytes command) = treeBytes command
  split
  · rename_i first
    rw [first, json_command]
  · rfl

/-- The first page is parsed again, with the reference it was parsed with. -/
def parseAgain (db : Db) : Except PersistenceError (ParseResult × Db) :=
  recordParseResult canonicalCodec db
    { rawSha256 := hash 'a', parserVersion := "p1", outcome := "succeeded", domain := "vehicle",
      fetchId := some (Sample.id 0x11) }
    (ref 1)
    { objectKey := "normalized/" ++ (ref 1).sha256, targetCollection := "vehicles",
      targetSchemaVersion := "1.0" }
    ⟨Sample.id 0x31, Sample.id 0x41, Sample.id 0x21, Sample.id 0x51⟩ now

def issuedOnce : List (Event canonicalCodec) × Db :=
  (machine canonicalCodec).replay Db.empty [register, parse 1]

/-- A projector takes the task and gives it back for a minute later. -/
def released : List (Event canonicalCodec) × Db :=
  (machine canonicalCodec).replay Db.empty
    [register, parse 1, .claimProjectionTasks "projector" 60 none 1 [] now,
      .releaseProjectionTask (Sample.id 0x21) "projector" (some (now + seconds 60)) now]

/-- Whether a repetition is one, and whether the outbox has the bytes of its command. -/
def repetition (result : ParseResult) : Bool × Option (Topic × Bool) :=
  (result.created, result.outboxEvent.map fun event => (event.topic,
    decide (event.payloadBytes = some (canonicalCodec.canonicalJsonBytes result.command))))

theorem parse_again :
    (parseAgain issuedOnce.2).toOption.map (fun answer => repetition answer.1) =
      some (false, some (.internal, true)) ∧
    (parseAgain released.2).toOption.map (fun answer => repetition answer.1) =
      some (false, some (.internal, false)) := by
  decide +kernel

theorem repetition_eq {result : ParseResult} {created same : Bool} {topic : Topic}
    (seen : repetition result = (created, some (topic, same))) :
    result.created = created ∧ ∃ event, result.outboxEvent = some event ∧ event.topic = topic ∧
      (same = true ↔
        event.payloadBytes = some (canonicalCodec.canonicalJsonBytes result.command)) := by
  obtain ⟨created, sent⟩ := Prod.mk.inj seen
  obtain ⟨event, stored, pair⟩ := Option.map_eq_some_iff.mp sent
  obtain ⟨topic, rfl⟩ := Prod.mk.inj pair
  exact ⟨created, event, stored, topic, decide_eq_true_iff⟩

end Sample

/-- The release moved `not_before`, and the repetition builds another command than was issued. -/
theorem replayed_command_released : ∃ result next event,
    (machine Sample.canonicalCodec).Run Db.empty Sample.released.1 Sample.released.2 ∧
    Sample.parseAgain Sample.released.2 = .ok (result, next) ∧ result.created = false ∧
    result.outboxEvent = some event ∧ event.topic = .internal ∧
    event.payloadBytes ≠ some (Sample.canonicalCodec.canonicalJsonBytes result.command) := by
  obtain ⟨result, next, done, seen⟩ := Except.exists_of_toOption Sample.parse_again.2
  obtain ⟨created, event, stored, internal, other⟩ := Sample.repetition_eq seen
  exact ⟨result, next, event, (machine _).run_replay Db.empty _, done, created, stored, internal,
    fun same => Bool.false_ne_true (other.mpr same)⟩

theorem replayed_command_iff_again : ∃ result next event,
    Sample.parseAgain Sample.issuedOnce.2 = .ok (result, next) ∧
    result.outboxEvent = some event ∧
    ∃ task issued, taskByParseKey Sample.issuedOnce.2 (parseKey Sample.canonicalCodec
          (Sample.id 0x11) (Sample.hash 'a') "p1" (Sample.id 1) "vehicles") = some task ∧
      issuedFor Sample.issuedOnce.1 task.taskId = some issued ∧
      issued.notBefore.map instantText = some (instantText task.notBefore) ∧
      toCanonicalValue (fun text => text) (issued.artifact.value : Value Contracts.SampleFloat) =
        toCanonicalValue (fun text => text) (Sample.ref 1).value := by
  obtain ⟨result, next, done, seen⟩ := Except.exists_of_toOption Sample.parse_again.1
  obtain ⟨created, event, stored, internal, same⟩ := Sample.repetition_eq seen
  exact ⟨result, next, event, done, stored,
    (replayed_command_iff Contracts.sampleFloats (fun _ _ => rfl) Sample.canonicalCodec_json
      ((machine Sample.canonicalCodec).run_replay Db.empty _) done created stored internal).mp
      (same.mp rfl)⟩

end Collector.Persistence.Projection
