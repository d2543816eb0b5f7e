import Collector.Persistence.Projection.Confirmation

/-!
What the change log and the outbox hold. Delivery moves counters and instants of an outbox row
but never its content; a row appears with a new task or with an emitting receipt and goes only by
retention.
-/

namespace Collector.Persistence.Projection
open Collector.Lib

variable {codec : Codec} {db next : Db}

def Db.contentOf (db : Db) (outboxId : Uuid) : Option OutboxContent :=
  (db.outbox.find? outboxId).map OutboxEvent.content

def Db.changeOf (db : Db) (changeEventId : Uuid) : Option ChangeEvent :=
  db.changeEvents.find? changeEventId

/-- The two rows of an emitting receipt, under identifiers that were not in use. -/
structure Announcement (db next : Db) (receipt : ReceiptFields) where
  descriptor : DomainChangedEvent
  eventSha256 : String
  mediaType : String
  changeEventId : Uuid
  outboxId : Uuid
  now : Time
  emits : receipt.shouldEmitDomainChanged = true
  named : receipt.eventId.all fun eventId => descriptor.eventId = eventId
  hash : receipt.recordedSha256 = some eventSha256
  freshChange : db.changeOf changeEventId = none
  freshOutbox : db.contentOf outboxId = none
  changes : ∀ id, next.changeOf id = if changeEventId = id
    then some (receipt.changeEvent descriptor eventSha256 mediaType changeEventId now)
    else db.changeOf id
  contents : ∀ id, next.contentOf id = if outboxId = id
    then some (receipt.domainEvent descriptor eventSha256 mediaType outboxId now).content
    else db.contentOf id

/-- What a change does to the change log and to the contents of the outbox. -/
inductive ContentStep (codec : Codec) (db next : Db) : Label codec → Prop
  | kept {label : Label codec} (unrecorded : label.receipt = none)
      (changes : ∀ id, next.changeOf id = db.changeOf id)
      (contents : ∀ id, next.contentOf id = db.contentOf id) : ContentStep codec db next label
  | commanded (issue : Issue codec db) (same : next = issue.next)
      (changes : ∀ id, next.changeOf id = db.changeOf id)
      (fresh : db.contentOf issue.outboxId = none)
      (contents : ∀ id, next.contentOf id =
        if issue.outboxId = id then some issue.command.content else db.contentOf id) :
      ContentStep codec db next .quiet
  | silent (recording : Recording codec db) (same : next = recording.next)
      (quiet : recording.receipt.shouldEmitDomainChanged = false)
      (changes : ∀ id, next.changeOf id = db.changeOf id)
      (contents : ∀ id, next.contentOf id = db.contentOf id) :
      ContentStep codec db next (.recorded (recording.receipt, recording.now))
  | emitted (recording : Recording codec db) (same : next = recording.next)
      (announcement : Announcement db next recording.receipt.toReceiptFields) :
      ContentStep codec db next (.recorded (recording.receipt, recording.now))
  | purged (cutoff : Time) (changes : ∀ id, next.changeOf id = db.changeOf id)
      (older : ∀ id content, next.contentOf id = some content → db.contentOf id = some content)
      (gone : ∀ id content, db.contentOf id = some content → next.contentOf id = some content ∨
        content.topic = .domain ∨ (db.settled content.eventId).isSome) :
      ContentStep codec db next (.purged cutoff)

theorem contentOf_eq_some {id : Uuid} {content : OutboxContent} :
    db.contentOf id = some content ↔
      ∃ event, db.outbox.find? id = some event ∧ event.content = content := by
  simp only [Db.contentOf, Option.map_eq_some_iff]

/-- A task that is done and acknowledged has succeeded. -/
theorem settled_of_commandAcknowledged {event : OutboxEvent}
    (done : commandAcknowledged db event = true) : (db.settled event.eventId).isSome := by
  unfold commandAcknowledged at done
  cases found : db.tasks.find? event.eventId with
  | none =>
    rw [found] at done
    cases done
  | some task =>
    rw [found, Option.any_some] at done
    simp only [isAcknowledged, Bool.and_eq_true, decide_eq_true_eq] at done
    simp [Db.settled, found, ProjectionTask.settled, done.1]

theorem Change.content {label : Label codec} (change : Change codec db label next)
    (sound : Issued db) : ContentStep codec db next label := by
  cases change with
  | same _ unrecorded => exact .kept unrecorded (fun _ => rfl) (fun _ => rfl)
  | registered => exact .kept rfl (fun _ => rfl) (fun _ => rfl)
  | attempted => exact .kept rfl (fun _ => rfl) (fun _ => rfl)
  | issued issue =>
    have fresh : issue.outboxId ∉ db.outbox.keys := fun known =>
      issue.newOutbox (sound.outbox _ known)
    refine .commanded issue rfl (fun _ => rfl) ?_ fun id => ?_
    · simp only [Db.contentOf, (db.outbox.find?_eq_none _).mpr fresh, Option.map_none]
    · simp only [Db.contentOf, issue.find?_outbox sound]
      split <;> rfl
  | leased => exact .kept rfl (fun _ => rfl) (fun _ => rfl)
  | acknowledged recording =>
    obtain ⟨receipt, event, task, entity, now, changeEvents, outbox, issued, found, known, owner,
      version, admitted, confirms, succeeds, unacknowledged, emission⟩ := recording
    cases emission with
    | silent quiet =>
      exact .silent ⟨receipt, event, task, entity, now, _, _, _, found, known, owner, version,
        admitted, confirms, succeeds, unacknowledged, .silent quiet⟩ rfl quiet (fun _ => rfl) (fun _ => rfl)
    | emitted descriptor eventSha256 mediaType changeEventId outboxId emits described named hash
        media newChange newOutbox unlogged unsent logs sends =>
      have freshChange : changeEventId ∉ db.changeEvents.keys := fun known =>
        newChange (sound.changeEvents _ known)
      have freshOutbox : outboxId ∉ db.outbox.keys := fun known =>
        newOutbox (sound.outbox _ known)
      refine .emitted ⟨receipt, event, task, entity, now, _, _, _, found, known, owner, version,
        admitted, confirms, succeeds, unacknowledged, .emitted descriptor eventSha256 mediaType
        changeEventId outboxId emits described named hash media newChange newOutbox unlogged unsent
        logs sends⟩ rfl
        ⟨descriptor, eventSha256, mediaType, changeEventId, outboxId, now, emits, named, hash,
          ?_, ?_, fun id => ?_, fun id => ?_⟩
      · exact (db.changeEvents.find?_eq_none _).mpr freshChange
      · simp only [Db.contentOf, (db.outbox.find?_eq_none _).mpr freshOutbox, Option.map_none]
      · exact db.changeEvents.find?_insert _ freshChange id
      · simp only [Db.contentOf, Recording.next]
        rw [db.outbox.find?_insert _ freshOutbox]
        change Option.map _ (if outboxId = id then _ else _) = _
        split <;> rfl
  | delivered outbox auditLog moved =>
    exact .kept rfl (fun _ => rfl) fun id =>
      Table.map_eq_of_rel (R := OutboxMove) (fun _ _ move => move) (moved id)
  | purged gone cutoff only =>
    refine .purged cutoff (fun _ => rfl) (fun id content known => ?_) fun id content known => ?_
    · obtain ⟨event, found, same⟩ := contentOf_eq_some.mp known
      rw [db.outbox.find?_delete] at found
      exact contentOf_eq_some.mpr ⟨event, (Option.filter_eq_some_iff.mp found).1, same⟩
    · obtain ⟨event, found, rfl⟩ := contentOf_eq_some.mp known
      cases leaves : gone event with
      | false =>
        refine .inl (contentOf_eq_some.mpr ⟨event, ?_, rfl⟩)
        rw [db.outbox.find?_delete, found]
        simp [Option.filter, leaves]
      | true =>
        have allowed := only event ((db.outbox.find?_eq_some _ _).mp found).1 leaves
        unfold purgeable at allowed
        split at allowed
        · rename_i domain
          exact .inr (.inl domain)
        · exact .inr (.inr (settled_of_commandAcknowledged (Bool.and_eq_true_iff.mp allowed).2))

end Collector.Persistence.Projection
