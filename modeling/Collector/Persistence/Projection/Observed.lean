import Mathlib.Data.Multiset.MapFold
import Collector.Persistence.Projection.Commit

/-!
What an acknowledgement does, told without the identifiers and instants of a transaction. The view
of a database forgets them, and an acknowledgement under no owner acts on the view alone: it records
the receipt if the view accepts it, and otherwise leaves everything as it was.
-/

namespace Collector.Persistence.Projection
open Collector.Lib

variable {codec : Codec} {db next : Db}

/-- An entity without its instants and the columns of the first writer. -/
def EntityIndex.observed (entity : EntityIndex) : EntityIndex :=
  { entity with mongoCollection := none, mongoDocumentId := none, confirmedAt := none, updatedAt := 0 }

def ProjectionTask.observed (task : ProjectionTask) : ProjectionTask :=
  { task with finishedAt := none, updatedAt := 0 }

def ProjectionAcknowledgement.observed (ack : ProjectionAcknowledgement) :
    ProjectionAcknowledgement :=
  { ack with acknowledgedAt := 0, createdAt := 0 }

def ChangeEvent.observed (event : ChangeEvent) : ChangeEvent :=
  { event with changeEventId := 0, createdAt := 0 }

def OutboxEvent.observed (event : OutboxEvent) : OutboxEvent :=
  { event with outboxId := 0, availableAt := 0, createdAt := 0, updatedAt := 0 }

/-- The tables that acknowledgements write, up to generated identifiers, instants, the columns of
the first writer and the order of the event rows. -/
@[ext]
structure View where
  entityIndex : Uuid → Option EntityIndex
  tasks : Uuid → Option ProjectionTask
  acknowledgements : Uuid → Option ProjectionAcknowledgement
  changeEvents : Multiset ChangeEvent
  outbox : Multiset OutboxEvent

def Db.view (db : Db) : View where
  entityIndex id := (db.entityIndex.find? id).map EntityIndex.observed
  tasks id := (db.tasks.find? id).map ProjectionTask.observed
  acknowledgements id := (db.acknowledgements.find? id).map ProjectionAcknowledgement.observed
  changeEvents := (db.changeEvents.rows.map ChangeEvent.observed : List ChangeEvent)
  outbox := (db.outbox.rows.map OutboxEvent.observed : List OutboxEvent)

/-- A receipt presented for a task, and the event the caller passes with it. -/
structure Notice (codec : Codec) where
  taskId : Uuid
  receipt : AppliedProjectionReceipt codec
  event : Option DomainChangedEvent

/-- The notice that an acknowledgement under no owner presents. -/
def Call.notice : Call codec → Option (Notice codec)
  | .acknowledgeProjection taskId receipt event none _ _ => some ⟨taskId, receipt, event⟩
  | _ => none

namespace Notice
variable (notice : Notice codec)

/-- The rows that describe the event of the receipt. -/
def rows : Option (ChangeEvent × OutboxEvent) := do
  let descriptor ← (eventDescriptor codec notice.receipt.toReceiptFields notice.event).toOption
  guard (notice.receipt.eventId.all fun eventId => descriptor.eventId = eventId)
  let eventSha256 ← notice.receipt.recordedSha256
  let mediaType ← notice.receipt.mediaType
  return (notice.receipt.changeEvent descriptor eventSha256 mediaType 0 0,
    notice.receipt.domainEvent descriptor eventSha256 mediaType 0 0)

/-- The rows that the receipt leaves once it is recorded. -/
def emitted : Multiset (ChangeEvent × OutboxEvent) :=
  if notice.receipt.shouldEmitDomainChanged then ↑notice.rows.toList else 0

end Notice

/-- What a view must show for a notice to be recorded. -/
structure View.Accepts (view : View) (notice : Notice codec) : Prop where
  addressed : notice.receipt.projectionTaskId = notice.taskId
  task : ∃ task, view.tasks notice.taskId = some task ∧
    task.entityUuid = notice.receipt.entityUuid ∧
    task.projectionVersion = notice.receipt.projectionVersion ∧ (task.succeed 0).admissible = true
  admitted : (notice.receipt.acknowledgement 0).admissible = true
  unacknowledged : view.acknowledgements notice.taskId = none
  entity : ∃ entity, view.entityIndex notice.receipt.entityUuid = some entity ∧
    (entity.confirm notice.receipt.toReceiptFields 0).admissible = true
  described : notice.receipt.shouldEmitDomainChanged = true → notice.rows.isSome = true
  events : ∀ rows ∈ notice.emitted, rows.1.admissible = true ∧ rows.2.admissible = true ∧
    (∀ row ∈ view.changeEvents, row.eventId ≠ rows.1.eventId) ∧
    ∀ row ∈ view.outbox, row.eventId ≠ rows.2.eventId

def View.record (notice : Notice codec) (view : View) : View where
  entityIndex id := (view.entityIndex id).map fun entity =>
    if id = notice.receipt.entityUuid then
      (entity.confirm notice.receipt.toReceiptFields 0).observed
    else entity
  tasks id := (view.tasks id).map fun task =>
    if id = notice.taskId then (task.succeed 0).observed else task
  acknowledgements id :=
    if id = notice.taskId then some (notice.receipt.acknowledgement 0)
    else view.acknowledgements id
  changeEvents := view.changeEvents + notice.emitted.map Prod.fst
  outbox := view.outbox + notice.emitted.map Prod.snd

open Classical in
/-- An acknowledgement as the view sees it. -/
noncomputable def View.acknowledge (notice : Notice codec) (view : View) : View :=
  if view.Accepts notice then view.record notice else view

section Fitting

/-- The collection an entity was first projected to fits its column. -/
def Fitting (db : Db) : Prop :=
  ∀ e entity, db.entityIndex.find? e = some entity → fits 120 entity.mongoCollection = true

theorem fits_confirm (entity : EntityIndex) (receipt : AppliedProjectionReceipt codec) (now : Time)
    (fitting : fits 120 entity.mongoCollection = true) :
    fits 120 (entity.confirm receipt.toReceiptFields now).mongoCollection = true := by
  have collection := receipt.collection_fits
  cases written : entity.mongoCollection with
  | none => simpa [EntityIndex.confirm, written, fits] using collection
  | some name => simpa [EntityIndex.confirm, written] using fitting

theorem Change.fitting {label : Label codec} (change : Change codec db label next)
    (sound : Issued db) (fitting : Fitting db) : Fitting next := by
  intro e entity found
  cases change with
  | registered row unissued _ _ unprojected =>
    rw [db.entityIndex.find?_insert _ fun known => unissued (sound.entities _ known)] at found
    split at found
    · cases found
      rw [unprojected]
      rfl
    · exact fitting e entity found
  | issued issue =>
    rw [issue.find?_entity] at found
    split at found
    · cases found
      exact fitting _ issue.entity issue.known
    · exact fitting e entity found
  | acknowledged recording =>
    rw [recording.find?_entity] at found
    split at found
    · cases found
      exact fits_confirm _ _ _ (fitting _ _ recording.known)
    · exact fitting e entity found
  | same | attempted | leased | delivered | purged => exact fitting e entity found

theorem fitting_empty : Fitting Db.empty := by
  intro e entity found
  cases found

end Fitting

section Simulation

theorem Notice.rows_eq_some {notice : Notice codec} {rows : ChangeEvent × OutboxEvent} :
    notice.rows = some rows ↔ ∃ descriptor eventSha256 mediaType,
      eventDescriptor codec notice.receipt.toReceiptFields notice.event = .ok descriptor ∧
      (notice.receipt.eventId.all fun eventId => descriptor.eventId = eventId) = true ∧
      notice.receipt.recordedSha256 = some eventSha256 ∧
      notice.receipt.mediaType = some mediaType ∧
      (notice.receipt.changeEvent descriptor eventSha256 mediaType 0 0,
        notice.receipt.domainEvent descriptor eventSha256 mediaType 0 0) = rows := by
  have described : ∀ descriptor,
      (eventDescriptor codec notice.receipt.toReceiptFields notice.event).toOption =
        some descriptor ↔
      eventDescriptor codec notice.receipt.toReceiptFields notice.event = .ok descriptor := by
    intro descriptor
    cases eventDescriptor codec notice.receipt.toReceiptFields notice.event <;>
      simp [Except.toOption]
  simp only [Notice.rows, Option.bind_eq_bind, Option.bind_eq_some_iff, described,
    Option.guard_eq_some', pure, Option.some.injEq, exists_const]
  constructor
  · rintro ⟨descriptor, known, named, eventSha256, hash, mediaType, media, rfl⟩
    exact ⟨descriptor, eventSha256, mediaType, known, named, hash, media, rfl⟩
  · rintro ⟨descriptor, eventSha256, mediaType, known, named, hash, media, rfl⟩
    exact ⟨descriptor, known, named, eventSha256, hash, mediaType, media, rfl⟩

theorem Notice.emitted_of_quiet {notice : Notice codec}
    (quiet : notice.receipt.shouldEmitDomainChanged = false) : notice.emitted = 0 := by
  simp [Notice.emitted, quiet]

theorem Notice.emitted_of_rows {notice : Notice codec} {rows : ChangeEvent × OutboxEvent}
    (emits : notice.receipt.shouldEmitDomainChanged = true) (described : notice.rows = some rows) :
    notice.emitted = {rows} := by
  simp [Notice.emitted, emits, described]

/-- The notice that a recording answers. -/
def Recording.notice (recording : Recording codec db) : Notice codec :=
  ⟨recording.receipt.projectionTaskId, recording.receipt, recording.event⟩

theorem confirm_admissible (entity : EntityIndex) (receipt : AppliedProjectionReceipt codec)
    (now : Time) (fitting : fits 120 entity.mongoCollection = true) :
    (entity.observed.confirm receipt.toReceiptFields 0).admissible =
      (entity.confirm receipt.toReceiptFields now).admissible := by
  unfold EntityIndex.admissible
  rw [fits_confirm entity receipt now fitting, fits_confirm entity.observed receipt 0 rfl]
  rfl

theorem outboxByEventId_eq_none {eventId : Uuid} :
    outboxByEventId db eventId = none ↔ ∀ row ∈ db.view.outbox, row.eventId ≠ eventId := by
  simp [outboxByEventId, Db.view, OutboxEvent.observed]

theorem unlogged_iff {eventId : Uuid} :
    (∀ row ∈ db.changeEvents.rows, row.eventId ≠ eventId) ↔
      ∀ row ∈ db.view.changeEvents, row.eventId ≠ eventId := by
  simp [Db.view, ChangeEvent.observed]

/-- The rows of a recorded receipt are those its notice describes, under fresh identifiers. -/
theorem Emission.emitted_eq {receipt : AppliedProjectionReceipt codec}
    {event : Option DomainChangedEvent} {now : Time}
    {changeEvents : Table ChangeEvent.changeEventId} {outbox : Table OutboxEvent.outboxId}
    {issued : List Uuid}
    (emission : Emission codec db receipt.toReceiptFields event now changeEvents outbox issued)
    (sound : Issued db) (taskId : Uuid) :
    (receipt.shouldEmitDomainChanged = true →
      (Notice.rows ⟨taskId, receipt, event⟩).isSome = true) ∧
    (∀ rows ∈ Notice.emitted ⟨taskId, receipt, event⟩,
      rows.1.admissible = true ∧ rows.2.admissible = true ∧
      (∀ row ∈ db.view.changeEvents, row.eventId ≠ rows.1.eventId) ∧
      ∀ row ∈ db.view.outbox, row.eventId ≠ rows.2.eventId) ∧
    ↑(changeEvents.rows.map ChangeEvent.observed) =
      db.view.changeEvents + (Notice.emitted ⟨taskId, receipt, event⟩).map Prod.fst ∧
    ↑(outbox.rows.map OutboxEvent.observed) =
      db.view.outbox + (Notice.emitted ⟨taskId, receipt, event⟩).map Prod.snd := by
  cases emission with
  | silent quiet =>
    rw [Notice.emitted_of_quiet quiet]
    refine ⟨fun emits => ?_, ?_, ?_, ?_⟩
    · cases quiet.symm.trans emits
    · intro rows member
      cases Multiset.notMem_zero _ member
    · rw [Multiset.map_zero, Multiset.add_zero]
      rfl
    · rw [Multiset.map_zero, Multiset.add_zero]
      rfl
  | emitted descriptor eventSha256 mediaType changeEventId outboxId emits described named hash
      media newChange newOutbox unlogged unsent logs sends =>
    have rows : Notice.rows ⟨taskId, receipt, event⟩ = some _ := Notice.rows_eq_some.mpr
      ⟨descriptor, eventSha256, mediaType, described, named, hash, media, rfl⟩
    rw [Notice.emitted_of_rows emits rows]
    refine ⟨fun _ => ?_, ?_, ?_, ?_⟩
    · rw [rows]
      rfl
    · intro pair member
      rw [Multiset.mem_singleton.mp member]
      exact ⟨logs, sends, unlogged_iff.mp unlogged, outboxByEventId_eq_none.mp unsent⟩
    · rw [db.changeEvents.rows_insert _ fun known => newChange (sound.changeEvents _ known),
        List.map_append, ← Multiset.coe_add]
      rfl
    · rw [db.outbox.rows_insert _ fun known => newOutbox (sound.outbox _ known),
        List.map_append, ← Multiset.coe_add]
      rfl

theorem Recording.accepts (recording : Recording codec db) (sound : Issued db)
    (fitting : Fitting db) : db.view.Accepts recording.notice := by
  obtain ⟨described, events, _, _⟩ :=
    recording.emission.emitted_eq sound recording.receipt.projectionTaskId
  refine ⟨rfl, ⟨recording.task.observed, ?_, recording.sameEntity, recording.sameVersion,
    recording.succeeds⟩, recording.admitted, ?_, ⟨recording.entity.observed, ?_, ?_⟩, described,
    events⟩
  · simp only [Db.view, Recording.notice, recording.found, Option.map_some]
  · simp only [Db.view, Recording.notice, recording.unacknowledged, Option.map_none]
  · simp only [Db.view, Recording.notice, recording.known, Option.map_some]
  · rw [← recording.confirms]
    exact confirm_admissible _ _ _ (fitting _ _ recording.known)

theorem Recording.view_next (recording : Recording codec db) (sound : Issued db) :
    recording.next.view = db.view.record recording.notice := by
  obtain ⟨_, _, changeEvents, outbox⟩ :=
    recording.emission.emitted_eq sound recording.receipt.projectionTaskId
  refine View.ext (funext fun id => ?_) (funext fun id => ?_) (funext fun id => ?_) changeEvents
    outbox
  · simp only [Db.view, View.record, Recording.notice, recording.find?_entity]
    by_cases here : id = recording.receipt.entityUuid
    · subst here
      simp only [if_true, recording.known, Option.map_some]
      rfl
    · simp only [here, if_false, Option.map_id']
  · simp only [Db.view, View.record, Recording.notice, recording.find?_task]
    by_cases here : id = recording.receipt.projectionTaskId
    · subst here
      simp only [if_true, recording.found, Option.map_some]
      rfl
    · simp only [here, if_false, Option.map_id']
  · simp only [Db.view, View.record, Recording.notice, recording.find?_acknowledgement]
    by_cases here : id = recording.receipt.projectionTaskId
    · subst here
      simp only [if_true, Option.map_some]
      rfl
    · simp only [here, Ne.symm here, if_false]

theorem insertDomainChanged_of_rows {notice : Notice codec} {rows : ChangeEvent × OutboxEvent}
    (described : notice.rows = some rows) (logs : rows.1.admissible = true)
    (sends : rows.2.admissible = true)
    (unlogged : ∀ row ∈ db.changeEvents.rows, row.eventId ≠ rows.1.eventId)
    (unsent : outboxByEventId db rows.2.eventId = none) (draws : EventDraws) (now : Time) :
    ∃ out, insertDomainChanged codec db notice.receipt.toReceiptFields notice.event draws now =
      .ok out := by
  obtain ⟨descriptor, eventSha256, mediaType, known, named, hash, media, rfl⟩ :=
    Notice.rows_eq_some.mp described
  unfold insertDomainChanged
  simp only [Except.bind_eq_ok, ensure_eq_ok, require_eq_ok]
  exact ⟨_, descriptor, known, (), named, eventSha256, hash, mediaType, media, _,
    insertChangeEvent_eq_ok.mpr ⟨logs, unlogged, rfl⟩, _,
    insertOutbox_eq_ok.mpr ⟨sends, unsent, rfl⟩, rfl⟩

/-- What the view accepts, the call records. -/
theorem View.Accepts.recorded {notice : Notice codec} (accepts : db.view.Accepts notice)
    (fitting : Fitting db) (draws : EventDraws) (now : Time) :
    ∃ result next, acknowledgeProjection db notice.taskId notice.receipt notice.event none draws
      now = .ok (result, next) ∧ result.created = true := by
  obtain ⟨_, shown, owner, version, succeeds⟩ := accepts.task
  obtain ⟨task, found, rfl⟩ := Option.map_eq_some_iff.mp shown
  obtain ⟨_, shown, confirms⟩ := accepts.entity
  obtain ⟨entity, known, rfl⟩ := Option.map_eq_some_iff.mp shown
  have unacknowledged := Option.map_eq_none_iff.mp accepts.unacknowledged
  rw [confirm_admissible entity notice.receipt now (fitting _ _ known)] at confirms
  suffices recorded : ∃ result next, recordReceipt codec db task notice.receipt.toReceiptFields
      notice.event draws now = .ok (result, next) by
    obtain ⟨result, next, recorded⟩ := recorded
    obtain ⟨_, _, _, _, _, _, _, _, created, _⟩ := recordReceipt_eq_ok recorded
    refine ⟨result, next, ?_, created⟩
    unfold acknowledgeProjection
    simp only [Except.bind_eq_ok, ensure_eq_ok, unacknowledged]
    exact ⟨(), decide_eq_true accepts.addressed, task, require_eq_ok.mpr found, (),
      by rw [Bool.and_eq_true]; exact ⟨decide_eq_true owner, decide_eq_true version⟩, (),
      accepts.admitted, recorded⟩
  unfold recordReceipt
  simp only [Except.bind_eq_ok, ensure_eq_ok, require_eq_ok]
  cases emits : notice.receipt.shouldEmitDomainChanged with
  | false => exact ⟨_, _, entity, known, (), confirms, (), succeeds, rfl⟩
  | true =>
    obtain ⟨rows, described⟩ := Option.isSome_iff_exists.mp (accepts.described emits)
    obtain ⟨logs, sends, unlogged, unsent⟩ := accepts.events rows (by
      rw [Notice.emitted_of_rows emits described]
      exact Multiset.mem_singleton_self rows)
    -- The event rows go into tables that the first writes did not touch.
    refine ⟨_, _, entity, known, (), confirms, (), succeeds, Except.bind_eq_ok.mpr ⟨_,
      (insertDomainChanged_of_rows described logs sends ?_ ?_ draws now).choose_spec, rfl⟩⟩
    · exact unlogged_iff.mpr unlogged
    · exact outboxByEventId_eq_none.mpr unsent

theorem acknowledge_of_accepts {view : View} {notice : Notice codec}
    (accepts : view.Accepts notice) : view.acknowledge notice = view.record notice := if_pos accepts

theorem acknowledge_of_not_accepts {view : View} {notice : Notice codec}
    (refuses : ¬view.Accepts notice) : view.acknowledge notice = view := if_neg refuses

/-- An acknowledgement under no owner does to the view what its notice says. -/
theorem commit_view (sound : Issued db) (fitting : Fitting db) {call : Call codec}
    {notice : Notice codec} (presented : call.notice = some notice) :
    ((machine codec).commit db call).2.view = db.view.acknowledge notice := by
  cases call with
  | acknowledgeProjection taskId receipt event owner draws now =>
    cases owner with
    | some owner => cases presented
    | none =>
      cases presented
      cases done : acknowledgeProjection db taskId receipt event none draws now with
      | error e =>
        have raised : (machine codec).exec (.acknowledgeProjection taskId receipt event none draws
            now) db = .error e := congrArg (answer Answer.acknowledged) done
        rw [(machine codec).commit_of_error raised, acknowledge_of_not_accepts]
        intro accepts
        obtain ⟨_, _, recorded, _⟩ := accepts.recorded fitting draws now
        cases recorded.symm.trans done
      | ok pair =>
        obtain ⟨result, next⟩ := pair
        have answered : (machine codec).exec (.acknowledgeProjection taskId receipt event none draws
            now) db = .ok (.acknowledged result, next) := congrArg (answer Answer.acknowledged) done
        rw [(machine codec).commit_of_ok answered]
        obtain ⟨rfl, _, _, _, _, ⟨_, _, _, old, rfl⟩ | ⟨recording, rfl, rfl, _, _, _, rfl⟩⟩ :=
          acknowledgeProjection_eq_ok done
        · rw [acknowledge_of_not_accepts]
          intro accepts
          obtain ⟨_, _, recorded, created⟩ := accepts.recorded fitting draws now
          cases recorded.symm.trans done
          cases old.symm.trans created
        · exact (recording.view_next sound).trans
            (acknowledge_of_accepts (recording.accepts sound fitting)).symm
  | _ => cases presented

/-- The notices that a history presents, newest first. -/
def notices (history : List (Event codec)) : List (Notice codec) :=
  history.filterMap fun entry => entry.call.notice

/-- A run of such acknowledgements folds their notices over the view it began with. -/
theorem run_view {start : Db} (sound : Issued start) (fitting : Fitting start)
    {history : List (Event codec)} (run : (machine codec).Run start history db)
    (presented : ∀ entry ∈ history, entry.call.notice.isSome = true) :
    db.view = (notices history).foldr View.acknowledge start.view := by
  refine Machine.Run.commits (P := fun history db =>
    (∀ entry ∈ history, entry.call.notice.isSome = true) →
      db.view = (notices history).foldr View.acknowledge start.view) (fun _ => rfl) ?_ run presented
  intro history s call before ih presented
  have rest := ih fun entry member => presented entry (List.mem_cons_of_mem _ member)
  obtain ⟨soundHere, fittingHere⟩ := run_keeps sound fitting
    (fun _ _ _ sound fitting change => change.fitting sound fitting) before
  obtain ⟨notice, here⟩ := Option.isSome_iff_exists.mp (presented _ List.mem_cons_self)
  rw [notices, List.filterMap_cons, here, List.foldr_cons]
  exact (commit_view soundHere fittingHere here).trans (congrArg _ rest)

end Simulation

end Collector.Persistence.Projection
