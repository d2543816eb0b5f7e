import Collector.Persistence.Projection.Receipts

/-!
Exactly once. Whatever order of acknowledgements, repetitions and lease operations a run makes, a
task ends with at most one acknowledgement and its receipt with one event or none; a repetition
writes nothing, and a receipt that does not belong is refused.
-/

namespace Collector.Persistence.Projection
open Collector.Lib

variable {codec : Codec} {db next : Db}

/-- The receipts that a history recorded, newest first. -/
def receipts (history : List (Event codec)) : List (Recorded codec) :=
  recordedReceipts (history.map Event.label)

def Call.purges : Call codec → Bool
  | .purgePublished .. => true
  | _ => false

theorem run_agrees {history : List (Event codec)} (run : (machine codec).Run Db.empty history db) :
    Issued db ∧ Agrees (history.map Event.label) db :=
  run_labels agrees_empty (fun _ _ _ _ sound held change => held.step sound change) run

theorem unpurged_labels {history : List (Event codec)}
    (unpurged : ∀ entry ∈ history, entry.call.purges = false) (cutoff : Time) :
    Label.purged cutoff ∉ history.map Event.label := by
  intro member
  obtain ⟨⟨call, outcome⟩, present, same⟩ := List.mem_map.mp member
  have quiet := unpurged _ present
  cases call with
  | purgePublished => cases quiet
  | acknowledgeProjection =>
    unfold Event.label at same
    dsimp only at same
    split at same
    · split at same <;> cases same
    · cases same
  | _ => cases same

section Rows

/-- The rows of the change log for a task. -/
def Db.changesFor (db : Db) (taskId : Uuid) : List ChangeEvent :=
  db.changeEvents.rows.filter fun change => change.projectionTaskId = taskId

/-- The domain rows of the outbox for the version of a task. -/
def Db.domainEventsFor (db : Db) (task : ProjectionTask) : List OutboxEvent :=
  db.outbox.rows.filter fun event => event.topic = .domain ∧ event.aggregateId = task.entityUuid ∧
    event.aggregateVersion = task.projectionVersion

private theorem filter_eq_singleton {α κ : Type} {key : α → κ} (t : Table key) {p : α → Bool} {row : α}
    (member : row ∈ t.rows) (holds : p row = true)
    (unique : ∀ other ∈ t.rows, p other = true → key other = key row) :
    t.rows.filter p = [row] := by
  have nodup : t.rows.Nodup := List.Nodup.of_map _ t.nodup
  have same : ∀ other, other ∈ t.rows.filter p ↔ other ∈ [row] := by
    intro other
    rw [List.mem_filter, List.mem_singleton]
    constructor
    · rintro ⟨present, chosen⟩
      exact t.eq_of_key_eq present member (unique other present chosen)
    · rintro rfl
      exact ⟨member, holds⟩
  exact List.perm_singleton.mp ((List.perm_ext_iff_of_nodup (nodup.filter p)
    (List.nodup_singleton row)).mpr same)

variable {labels : List (Label codec)}

/-- A recorded receipt is about the task it names. -/
theorem Agrees.task_of_recorded (held : Agrees labels db) {r : Recorded codec}
    (member : r ∈ recordedReceipts labels) :
    ∃ task, db.tasks.find? r.1.projectionTaskId = some task ∧
      task.entityUuid = r.1.entityUuid ∧ task.projectionVersion = r.1.projectionVersion := by
  have recorded : db.acknowledged r.1.projectionTaskId =
      some (r.1.entityUuid, r.1.projectionVersion) := by
    rw [Db.acknowledged, held.logged.known r member]
    rfl
  obtain ⟨task, found, _, owner, version⟩ :=
    settled_eq_some.mp ((held.confirmed.agreed _).trans recorded)
  exact ⟨task, found, owner, version⟩

/-- One receipt for a task, and one task for a version. -/
theorem Agrees.recorded_eq (held : Agrees labels db) {r other : Recorded codec}
    (member : r ∈ recordedReceipts labels) (also : other ∈ recordedReceipts labels)
    (same : r.1.projectionTaskId = other.1.projectionTaskId) : r = other :=
  List.inj_on_of_nodup_map held.logged.once member also same

theorem Agrees.taskId_eq (held : Agrees labels db) {r : Recorded codec}
    (member : r ∈ recordedReceipts labels) {id : Uuid} {task : ProjectionTask}
    (found : db.tasks.find? id = some task) (owner : r.1.entityUuid = task.entityUuid)
    (version : r.1.projectionVersion = task.projectionVersion) : r.1.projectionTaskId = id := by
  obtain ⟨source, there, sameEntity, sameVersion⟩ := held.task_of_recorded member
  exact held.versions.unique _ _ _ _ (identityOf_eq_some.mpr ⟨source, there, rfl⟩)
    (identityOf_eq_some.mpr ⟨task, found, rfl⟩) (sameEntity.trans owner) (sameVersion.trans version)

/-- A row of the change log for a task comes from a receipt of that task. -/
theorem Agrees.change_source (held : Agrees labels db) {id : Uuid} {change : ChangeEvent}
    (present : change ∈ db.changeEvents.rows) (here : change.projectionTaskId = id) :
    ∃ r ∈ recordedReceipts labels, r.1.projectionTaskId = id ∧
      r.1.shouldEmitDomainChanged = true ∧ r.1.LoggedAs change := by
  obtain ⟨r, member, emits, logged⟩ :=
    held.changes.sourced _ change (db.changeEvents.find?_of_mem present)
  exact ⟨r, member, logged.1.symm.trans here, emits, logged⟩

theorem domainOf_eq_some {event : OutboxEvent} (present : event ∈ db.outbox.rows)
    (domain : event.topic = .domain) : db.domainOf event.outboxId = some event.content := by
  rw [Db.domainOf, Db.contentOf, db.outbox.find?_of_mem present, Option.map_some,
    Option.filter_eq_some_iff]
  exact ⟨rfl, decide_eq_true domain⟩

theorem Agrees.domain_source (held : Agrees labels db) {id : Uuid} {task : ProjectionTask}
    (found : db.tasks.find? id = some task) {event : OutboxEvent}
    (chosen : event ∈ db.domainEventsFor task) :
    ∃ r ∈ recordedReceipts labels, r.1.projectionTaskId = id ∧
      r.1.shouldEmitDomainChanged = true ∧ r.1.SentAs event.content := by
  obtain ⟨present, fits⟩ := List.mem_filter.mp chosen
  obtain ⟨domain, owner, version⟩ := of_decide_eq_true fits
  obtain ⟨r, member, emits, sent⟩ := held.domain.sourced _ _ (domainOf_eq_some present domain)
  exact ⟨r, member, held.taskId_eq member found (sent.1.symm.trans owner)
    (sent.2.1.symm.trans version), emits, sent⟩

/-- Without an emitting receipt there is no event. -/
theorem Agrees.no_events (held : Agrees labels db) {id : Uuid} {task : ProjectionTask}
    (found : db.tasks.find? id = some task)
    (quiet : ∀ r ∈ recordedReceipts labels, r.1.projectionTaskId = id →
      r.1.shouldEmitDomainChanged = false) :
    db.changesFor id = [] ∧ db.domainEventsFor task = [] := by
  constructor
  · refine List.filter_eq_nil_iff.mpr fun change present here => ?_
    obtain ⟨r, member, same, emits, _⟩ := held.change_source present (of_decide_eq_true here)
    rw [quiet r member same] at emits
    cases emits
  · refine List.eq_nil_iff_forall_not_mem.mpr fun event chosen => ?_
    obtain ⟨r, member, same, emits, _⟩ := held.domain_source found chosen
    rw [quiet r member same] at emits
    cases emits

/-- An emitting receipt has one row in the change log. -/
theorem Agrees.one_change (held : Agrees labels db) {r : Recorded codec}
    (member : r ∈ recordedReceipts labels) (emits : r.1.shouldEmitDomainChanged = true) :
    ∃ change, db.changesFor r.1.projectionTaskId = [change] ∧ r.1.LoggedAs change := by
  obtain ⟨changeEventId, change, known, logged⟩ := held.changed r member emits
  obtain ⟨present, located⟩ := (db.changeEvents.find?_eq_some _ _).mp known
  refine ⟨change, filter_eq_singleton db.changeEvents present (decide_eq_true logged.1) ?_, logged⟩
  intro other also here
  obtain ⟨source, sourced, same, _, carried⟩ := held.change_source also (of_decide_eq_true here)
  obtain rfl := held.recorded_eq sourced member same
  exact held.changes.unique _ _ other change (db.changeEvents.find?_of_mem also)
    (located.symm ▸ known) ((loggedAs_aggregate _ _ carried).trans (loggedAs_aggregate _ _ logged).symm)

/-- It has one domain row in the outbox as long as nothing is purged. -/
theorem Agrees.one_event (held : Agrees labels db) (unpurged : ∀ cutoff, .purged cutoff ∉ labels)
    {r : Recorded codec} (member : r ∈ recordedReceipts labels)
    (emits : r.1.shouldEmitDomainChanged = true) {task : ProjectionTask}
    (found : db.tasks.find? r.1.projectionTaskId = some task) :
    ∃ event, db.domainEventsFor task = [event] ∧ r.1.SentAs event.content := by
  obtain ⟨outboxId, content, known, sent⟩ := held.sent unpurged r member emits
  obtain ⟨stored, domain⟩ := Option.filter_eq_some_iff.mp known
  obtain ⟨event, there, rfl⟩ := contentOf_eq_some.mp stored
  obtain ⟨present, located⟩ := (db.outbox.find?_eq_some _ _).mp there
  obtain ⟨source, same, owner, version⟩ := held.task_of_recorded member
  cases found.symm.trans same
  refine ⟨event, filter_eq_singleton db.outbox present ?_ ?_, sent⟩
  · exact decide_eq_true ⟨of_decide_eq_true domain, sent.1.trans owner.symm,
      sent.2.1.trans version.symm⟩
  · intro other also fits
    obtain ⟨source, sourced, same, _, carried⟩ :=
      held.domain_source found (List.mem_filter.mpr ⟨also, fits⟩)
    obtain rfl := held.recorded_eq sourced member same
    exact held.domain.unique _ _ other.content event.content
      (domainOf_eq_some also (of_decide_eq_true fits).1)
      (domainOf_eq_some present (of_decide_eq_true domain))
      ((sentAs_aggregate _ _ carried).trans (sentAs_aggregate _ _ sent).symm)

end Rows

section Answers

/-- The acknowledgement agrees with the receipt in every recorded field. -/
def ProjectionAcknowledgement.Records (ack : ProjectionAcknowledgement) (receipt : ReceiptFields) :
    Prop :=
  ack.entityUuid = receipt.entityUuid ∧ ack.projectionVersion = receipt.projectionVersion ∧
    ack.receiptClusterTime = receipt.clusterTime ∧ ack.mongoDocumentId = receipt.documentId ∧
    ack.appliedToCurrent = receipt.appliedToCurrent ∧ ack.stateChanged = receipt.stateChanged ∧
    ack.resultVersion = receipt.resultVersion ∧ ack.resultHash = receipt.resultHash ∧
    ack.previousHash = receipt.previousHash ∧ ack.eventId = receipt.eventId ∧
    ack.eventSha256 = receipt.recordedSha256

theorem differs_eq_nil {ack : ProjectionAcknowledgement} {receipt : ReceiptFields} :
    ack.differs receipt = [] ↔ ack.Records receipt := by
  simp only [ProjectionAcknowledgement.differs, ProjectionAcknowledgement.Records,
    List.append_eq_nil_iff, ite_eq_left_iff, List.cons_ne_nil, imp_false, not_not]
  tauto

theorem acknowledgement_records (receipt : ReceiptFields) (now : Time) :
    (receipt.acknowledgement now).Records receipt :=
  ⟨rfl, rfl, rfl, rfl, rfl, rfl, rfl, rfl, rfl, rfl, rfl⟩

/-- The reconciler's repetition of a recorded receipt answers and writes nothing. -/
theorem Agrees.acknowledge_again {labels : List (Label codec)} (held : Agrees labels db)
    {r : Recorded codec} (member : r ∈ recordedReceipts labels) (event : Option DomainChangedEvent)
    (draws : EventDraws) (now : Time) :
    ∃ result, acknowledgeProjection db r.1.projectionTaskId r.1 event none draws now =
      .ok (result, db) ∧ result.created = false := by
  obtain ⟨task, found, owner, version⟩ := held.task_of_recorded member
  have known := held.logged.known r member
  obtain ⟨_, counter, _⟩ := held.versions.within _ task.identity
    (identityOf_eq_some.mpr ⟨task, found, rfl⟩)
  obtain ⟨entity, registered, _⟩ := Option.map_eq_some_iff.mp counter
  refine ⟨⟨r.1.acknowledgement r.2, entity.confirmedProjectionVersion, none, none, false⟩, ?_, rfl⟩
  simp only [acknowledgeProjection, Except.bind_eq_ok, ensure_eq_ok, decide_eq_true_eq,
    Bool.and_eq_true]
  refine ⟨(), trivial, task, require_eq_ok.mpr found, (), ⟨owner, version⟩, (),
    held.logged.admitted r member, ?_⟩
  rw [known]
  simp only [Except.bind_eq_ok, ensure_eq_ok, require_eq_ok, List.isEmpty_iff]
  exact ⟨(), differs_eq_nil.mpr (acknowledgement_records _ _), entity, owner ▸ registered, rfl⟩

/-- A receipt that does not belong: of another task, entity or version, from a worker without the
lease, or other than the recorded one. -/
def Refused (db : Db) (taskId : Uuid) (receipt : ReceiptFields) (owner : Option String) : Prop :=
  receipt.projectionTaskId ≠ taskId ∨
    (∃ task, db.tasks.find? taskId = some task ∧ (task.entityUuid ≠ receipt.entityUuid ∨
      task.projectionVersion ≠ receipt.projectionVersion)) ∨
    (∃ worker, owner = some worker ∧ ∀ task, db.tasks.find? taskId = some task →
      ¬ (task.status = .leased ∧ task.leaseOwner = some worker)) ∨
    ∃ ack, db.acknowledgements.find? taskId = some ack ∧ ¬ ack.Records receipt

theorem acknowledgeProjection_refused {taskId : Uuid} {receipt : AppliedProjectionReceipt codec}
    {owner : Option String} (refused : Refused db taskId receipt.toReceiptFields owner)
    (event : Option DomainChangedEvent) (draws : EventDraws) (now : Time) :
    ∃ e, acknowledgeProjection db taskId receipt event owner draws now = .error e := by
  cases done : acknowledgeProjection db taskId receipt event owner draws now with
  | error e => exact ⟨e, rfl⟩
  | ok pair =>
    obtain ⟨result, next⟩ := pair
    obtain ⟨same, task, locked, sameEntity, sameVersion, outcome⟩ := acknowledgeProjection_eq_ok done
    have found := lockTask_found locked
    rcases refused with other | ⟨row, there, differ⟩ | ⟨worker, rfl, unheld⟩ | ⟨ack, known, differ⟩
    · exact absurd same other
    · cases found.symm.trans there
      rcases differ with entity | version
      · exact absurd sameEntity entity
      · exact absurd sameVersion version
    · exact absurd (lockOwned_eq_ok.mp locked).2 (unheld task found)
    · rcases outcome with ⟨existing, there, agrees, _⟩ | ⟨recording, rfl, _⟩
      · cases known.symm.trans there
        exact absurd (differs_eq_nil.mp agrees) differ
      · rw [← same, recording.unacknowledged] at known
        cases known

end Answers

/-- **Exactly one event for a receipt.** In every reachable state a task has at most one
acknowledgement and it is a receipt of the history; the change log and, until something is purged,
the outbox have one row for the task if that receipt was applied and changed the state, with its
bytes and hash, and none otherwise; the reconciler's repetition of the receipt answers
`created = false` and writes nothing; and a receipt that does not belong raises and writes
nothing. -/
theorem acknowledged_exactly_once {history : List (Event codec)}
    (run : (machine codec).Run Db.empty history db) :
    (∀ ack ∈ db.acknowledgements.rows, ∀ other ∈ db.acknowledgements.rows,
      ack.taskId = other.taskId → ack = other) ∧
    (∀ id task, db.tasks.find? id = some task →
      (db.acknowledgements.find? id = none →
        db.changesFor id = [] ∧ db.domainEventsFor task = []) ∧
      ∀ ack, db.acknowledgements.find? id = some ack →
        ∃ receipt now, (receipt, now) ∈ receipts history ∧ receipt.projectionTaskId = id ∧
          ack = receipt.acknowledgement now ∧
          (receipt.appliedToCurrent = true ∧ receipt.stateChanged = true →
            (∃ change, db.changesFor id = [change] ∧ receipt.LoggedAs change) ∧
            ((∀ entry ∈ history, entry.call.purges = false) →
              ∃ event, db.domainEventsFor task = [event] ∧ receipt.SentAs event.content)) ∧
          (¬ (receipt.appliedToCurrent = true ∧ receipt.stateChanged = true) →
            db.changesFor id = [] ∧ db.domainEventsFor task = [])) ∧
    (∀ receipt recordedAt, (receipt, recordedAt) ∈ receipts history → ∀ event draws now, ∃ result,
      (machine codec).commit db
          (.acknowledgeProjection receipt.projectionTaskId receipt event none draws now) =
        (.ok (.acknowledged result), db) ∧ result.created = false) ∧
    ∀ taskId (receipt : AppliedProjectionReceipt codec) event owner draws now,
      Refused db taskId receipt.toReceiptFields owner →
      ∃ e, (machine codec).commit db
          (.acknowledgeProjection taskId receipt event owner draws now) = (.error e, db) := by
  obtain ⟨_, held⟩ := run_agrees run
  refine ⟨?_, ?_, ?_, ?_⟩
  · exact fun ack present other also same => db.acknowledgements.eq_of_key_eq present also same
  · intro id task found
    constructor
    · intro unacknowledged
      refine held.no_events found fun r member same => ?_
      have known := held.logged.known r member
      rw [same, unacknowledged] at known
      cases known
    · intro ack known
      obtain ⟨⟨receipt, now⟩, member, rfl, rfl⟩ := held.logged.recorded id ack known
      refine ⟨receipt, now, member, rfl, rfl, ?_, ?_⟩
      · rintro ⟨applied, changed⟩
        have emits : receipt.shouldEmitDomainChanged = true := by
          simp [ReceiptFields.shouldEmitDomainChanged, applied, changed]
        exact ⟨held.one_change member emits, fun unpurged =>
          held.one_event (unpurged_labels unpurged) member emits found⟩
      · intro silent
        refine held.no_events found fun r also same => ?_
        obtain rfl := held.recorded_eq also member same
        rw [ReceiptFields.shouldEmitDomainChanged, Bool.and_eq_false_iff]
        simpa [or_iff_not_imp_left] using silent
  · intro receipt recordedAt member event draws now
    obtain ⟨result, done, old⟩ := held.acknowledge_again member event draws now
    exact ⟨result, Machine.commit_of_ok _ (answer_eq_ok.mpr ⟨result, done, rfl⟩), old⟩
  · intro taskId receipt event owner draws now refused
    obtain ⟨e, raised⟩ := acknowledgeProjection_refused refused event draws now
    refine ⟨e, Machine.commit_of_error _ ?_⟩
    change answer _ (acknowledgeProjection db taskId receipt event owner draws now) = .error e
    rw [raised]
    rfl

/-- The reconciler confirms the first version. -/
def Sample.confirmed : List (Event Sample.codec) × Db :=
  (machine Sample.codec).replay Db.empty
    [register, parse 1, acknowledge firstReceipt (some (event 1)) none]

theorem acknowledged_exactly_once_confirmed :
    ∃ receipt now, (receipt, now) ∈ receipts Sample.confirmed.1 ∧
      ∃ change, Sample.confirmed.2.changesFor (Sample.id 0x21) = [change] ∧
        receipt.LoggedAs change := by
  have run : (machine Sample.codec).Run Db.empty Sample.confirmed.1 Sample.confirmed.2 :=
    (machine Sample.codec).run_replay _ _
  have rows : (Sample.confirmed.2.tasks.find? (Sample.id 0x21)).isSome ∧
      (Sample.confirmed.2.acknowledgements.find? (Sample.id 0x21)).map
        (fun ack => (ack.appliedToCurrent, ack.stateChanged)) = some (true, true) := by
    decide +kernel
  obtain ⟨task, found⟩ := Option.isSome_iff_exists.mp rows.1
  obtain ⟨ack, known, flags⟩ := Option.map_eq_some_iff.mp rows.2
  obtain ⟨receipt, now, member, _, rfl, emitted, _⟩ :=
    ((acknowledged_exactly_once run).2.1 _ task found).2 ack known
  obtain ⟨applied, changed⟩ := Prod.mk.inj flags
  exact ⟨receipt, now, member, (emitted ⟨applied, changed⟩).1⟩

end Collector.Persistence.Projection
