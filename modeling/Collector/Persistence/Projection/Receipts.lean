import Collector.Persistence.Projection.Contents

/-!
Every receipt is recorded once and announced once. The tables are compared with the receipts that
a run recorded: the acknowledgements are those receipts, and the rows of the change log and the
domain rows of the outbox are, one each, the emitting receipts among them.
-/

namespace Collector.Persistence.Projection
open Collector.Lib

variable {codec : Codec} {db next : Db}

/-- The row of the change log carries the event of the receipt. -/
def ReceiptFields.LoggedAs (receipt : ReceiptFields) (change : ChangeEvent) : Prop :=
  change.projectionTaskId = receipt.projectionTaskId ∧ change.aggregateId = receipt.entityUuid ∧
    change.aggregateVersion = receipt.projectionVersion ∧ some change.eventId = receipt.eventId ∧
    change.eventBytes = receipt.eventBytes ∧ some change.eventSha256 = receipt.recordedSha256 ∧
    change.eventArtifactUri = receipt.eventArtifact.map ArtifactRef.uri

/-- The domain row of the outbox carries the event of the receipt. -/
def ReceiptFields.SentAs (receipt : ReceiptFields) (content : OutboxContent) : Prop :=
  content.aggregateId = receipt.entityUuid ∧
    content.aggregateVersion = receipt.projectionVersion ∧ some content.eventId = receipt.eventId ∧
    content.payloadBytes = receipt.eventBytes ∧
    some content.payloadSha256 = receipt.recordedSha256 ∧
    content.payloadArtifactUri = receipt.eventArtifact.map ArtifactRef.uri

theorem loggedAs_aggregate (receipt : ReceiptFields) (change : ChangeEvent)
    (logged : receipt.LoggedAs change) : (change.aggregateId, change.aggregateVersion) =
      (receipt.entityUuid, receipt.projectionVersion) :=
  Prod.ext logged.2.1 logged.2.2.1

theorem sentAs_aggregate (receipt : ReceiptFields) (content : OutboxContent)
    (sent : receipt.SentAs content) : (content.aggregateId, content.aggregateVersion) =
      (receipt.entityUuid, receipt.projectionVersion) :=
  Prod.ext sent.1 sent.2.1

def Db.domainOf (db : Db) (id : Uuid) : Option OutboxContent :=
  (db.contentOf id).filter fun content => content.topic = .domain

section Views
variable {α : Type} {view view' : Uuid → Option α} {R : ReceiptFields → α → Prop}
  {aggregate : α → Uuid × Int} {label : Label codec} {log : List (Recorded codec)}

/-- What one change does to a table of announcements. -/
inductive ViewStep (R : ReceiptFields → α → Prop) (view view' : Uuid → Option α) :
    Label codec → Prop
  | kept {label : Label codec}
      (unannounced : ∀ r ∈ label.receipt, r.1.shouldEmitDomainChanged = false)
      (same : ∀ id, view' id = view id) : ViewStep R view view' label
  | added (r : Recorded codec) (emits : r.1.shouldEmitDomainChanged = true) (new : Uuid) (row : α)
      (carries : R r.1.toReceiptFields row) (fresh : view new = none)
      (lookup : ∀ id, view' id = if new = id then some row else view id) :
      ViewStep R view view' (.recorded r)
  | removed (cutoff : Time) (older : ∀ id row, view' id = some row → view id = some row) :
      ViewStep R view view' (.purged cutoff)

/-- Every row announces a recorded receipt, and no two announce one version. -/
structure Published (aggregate : α → Uuid × Int) (R : ReceiptFields → α → Prop)
    (log : List (Recorded codec)) (view : Uuid → Option α) : Prop where
  sourced : ∀ id row, view id = some row →
    ∃ r ∈ log, r.1.shouldEmitDomainChanged = true ∧ R r.1.toReceiptFields row
  unique : ∀ i j a b, view i = some a → view j = some b → aggregate a = aggregate b → i = j

/-- Every emitting receipt has its row. -/
def Announced (R : ReceiptFields → α → Prop) (log : List (Recorded codec))
    (view : Uuid → Option α) : Prop :=
  ∀ r ∈ log, r.1.shouldEmitDomainChanged = true →
    ∃ id row, view id = some row ∧ R r.1.toReceiptFields row

theorem Published.step (held : Published aggregate R log view) (step : ViewStep R view view' label)
    (keyed : ∀ receipt row, R receipt row → aggregate row = (receipt.entityUuid, receipt.projectionVersion))
    (fresh : ∀ r ∈ label.receipt, ∀ other ∈ log,
      (other.1.entityUuid, other.1.projectionVersion) ≠ (r.1.entityUuid, r.1.projectionVersion)) :
    Published aggregate R (label.receipt.toList ++ log) view' := by
  cases step with
  | kept _ same =>
    obtain rfl : view' = view := funext same
    refine ⟨fun id row known => ?_, held.unique⟩
    obtain ⟨r, member, carried⟩ := held.sourced id row known
    exact ⟨r, List.mem_append_right _ member, carried⟩
  | added r emits new row carries unused lookup =>
    -- The rows that were there announce other versions than the new one.
    have other : ∀ id old, view id = some old → aggregate old ≠ aggregate row := by
      intro id old known same
      obtain ⟨source, member, _, carried⟩ := held.sourced id old known
      exact fresh r rfl source member ((keyed _ _ carried).symm.trans (same.trans (keyed _ _ carries)))
    constructor
    · intro id row' known
      rw [lookup] at known
      split at known
      · cases known
        exact ⟨r, List.mem_cons_self .., emits, carries⟩
      · obtain ⟨source, member, carried⟩ := held.sourced id row' known
        exact ⟨source, List.mem_cons_of_mem _ member, carried⟩
    · intro i j a b first second same
      rw [lookup] at first second
      split at first <;> split at second
      · rename_i here there
        exact here.symm.trans there
      · cases first
        exact absurd same.symm (other j b second)
      · cases second
        exact absurd same (other i a first)
      · exact held.unique i j a b first second same
  | removed cutoff older =>
    exact ⟨fun id row known => held.sourced id row (older id row known),
      fun i j a b first second => held.unique i j a b (older i a first) (older j b second)⟩

theorem Announced.step (held : Announced R log view) (step : ViewStep R view view' label)
    (intact : ∀ cutoff, label = .purged cutoff → ∀ id, view' id = view id) :
    Announced R (label.receipt.toList ++ log) view' := by
  cases step with
  | kept unannounced same =>
    intro r member emits
    rcases List.mem_append.mp member with now | before
    · rw [unannounced r (Option.mem_toList.mp now)] at emits
      cases emits
    · obtain ⟨id, row, known, carried⟩ := held r before emits
      exact ⟨id, row, by rw [same, known], carried⟩
  | added r emits new row carries unused lookup =>
    intro source member emitting
    rcases List.mem_append.mp member with now | before
    · cases Option.mem_toList.mp now
      exact ⟨new, row, by rw [lookup, if_pos rfl], carries⟩
    · obtain ⟨id, old, known, carried⟩ := held source before emitting
      refine ⟨id, old, ?_, carried⟩
      rw [lookup, if_neg, known]
      rintro rfl
      rw [unused] at known
      cases known
  | removed cutoff =>
    obtain rfl : view' = view := funext (intact cutoff rfl)
    exact held

end Views

section Steps
variable {label : Label codec}

private theorem forall_of_unrecorded {P : Recorded codec → Prop} (unrecorded : label.receipt = none) :
    ∀ r ∈ label.receipt, P r := by
  rw [unrecorded]
  simp

/-- The descriptor of an emitting receipt has the event identifier of the receipt. -/
theorem eventId_of_named {receipt : AppliedProjectionReceipt codec} {descriptor : DomainChangedEvent}
    (emits : receipt.shouldEmitDomainChanged = true)
    (named : receipt.eventId.all fun eventId => descriptor.eventId = eventId) :
    some descriptor.eventId = receipt.eventId := by
  obtain ⟨eventId, same⟩ := Option.isSome_iff_exists.mp (receipt.eventId_isSome.trans emits)
  rw [same, Option.all_some, decide_eq_true_eq] at named
  rw [same, named]

theorem ContentStep.changeView (step : ContentStep codec db next label) :
    ViewStep ReceiptFields.LoggedAs db.changeOf next.changeOf label := by
  cases step with
  | kept unrecorded changes => exact .kept (forall_of_unrecorded unrecorded) changes
  | commanded _ _ changes => exact .kept (forall_of_unrecorded rfl) changes
  | silent recording _ quiet changes =>
    refine .kept ?_ changes
    rintro _ ⟨⟩
    exact quiet
  | emitted recording _ announcement =>
    exact .added _ announcement.emits announcement.changeEventId _
      ⟨rfl, rfl, rfl, eventId_of_named announcement.emits announcement.named, rfl,
        announcement.hash.symm, rfl⟩ announcement.freshChange announcement.changes
  | purged cutoff changes => exact .kept (forall_of_unrecorded rfl) changes

theorem ContentStep.changes_kept (step : ContentStep codec db next label)
    (unrecorded : label.receipt = none) (id : Uuid) : next.changeOf id = db.changeOf id := by
  cases step with
  | kept _ changes | commanded _ _ changes | purged _ changes => exact changes id
  | silent | emitted => cases unrecorded

theorem ContentStep.domainView (step : ContentStep codec db next label) :
    ViewStep ReceiptFields.SentAs db.domainOf next.domainOf label := by
  cases step with
  | kept unrecorded _ contents =>
    exact .kept (forall_of_unrecorded unrecorded) fun id => by rw [Db.domainOf, contents, Db.domainOf]
  | commanded issue _ _ fresh contents =>
    refine .kept (forall_of_unrecorded rfl) fun id => ?_
    simp only [Db.domainOf, contents]
    split
    · rename_i here
      rw [← here, fresh]
      rfl
    · rfl
  | silent recording _ quiet _ contents =>
    refine .kept ?_ fun id => by rw [Db.domainOf, contents, Db.domainOf]
    rintro _ ⟨⟩
    exact quiet
  | emitted recording _ announcement =>
    refine .added _ announcement.emits announcement.outboxId
      (recording.receipt.domainEvent announcement.descriptor announcement.eventSha256
        announcement.mediaType announcement.outboxId announcement.now).content
      ⟨rfl, rfl, eventId_of_named announcement.emits announcement.named, rfl,
        announcement.hash.symm, rfl⟩ ?_ fun id => ?_
    · rw [Db.domainOf, announcement.freshOutbox]
      rfl
    · simp only [Db.domainOf, announcement.contents]
      split <;> rfl
  | purged cutoff _ older =>
    refine .removed cutoff fun id row known => ?_
    obtain ⟨there, domain⟩ := Option.filter_eq_some_iff.mp known
    exact Option.filter_eq_some_iff.mpr ⟨older id row there, domain⟩

/-- The acknowledgements are the recorded receipts, one for a task. -/
structure Logged (log : List (Recorded codec)) (db : Db) : Prop where
  known : ∀ r ∈ log, db.acknowledgements.find? r.1.projectionTaskId = some (r.1.acknowledgement r.2)
  recorded : ∀ id ack, db.acknowledgements.find? id = some ack →
    ∃ r ∈ log, r.1.projectionTaskId = id ∧ r.1.acknowledgement r.2 = ack
  admitted : ∀ r ∈ log, (r.1.acknowledgement r.2).admissible = true
  once : (log.map fun r => r.1.projectionTaskId).Nodup

theorem Change.logged (change : Change codec db label next) {log : List (Recorded codec)}
    (held : Logged log db) : Logged (label.receipt.toList ++ log) next := by
  cases change with
  | same label unrecorded =>
    rw [unrecorded]
    exact held
  | acknowledged recording =>
    have elsewhere : ∀ r ∈ log, recording.receipt.projectionTaskId ≠ r.1.projectionTaskId := by
      intro r member same
      have known := held.known r member
      rw [← same, recording.unacknowledged] at known
      cases known
    refine ⟨?_, ?_, ?_, ?_⟩
    · intro r member
      rw [recording.find?_acknowledgement]
      rcases List.mem_cons.mp member with rfl | before
      · rw [if_pos rfl]
      · rw [if_neg (elsewhere r before), held.known r before]
    · intro id ack known
      rw [recording.find?_acknowledgement] at known
      split at known
      · rename_i here
        exact ⟨_, List.mem_cons_self .., here, Option.some.inj known⟩
      · obtain ⟨r, member, same⟩ := held.recorded id ack known
        exact ⟨r, List.mem_cons_of_mem _ member, same⟩
    · intro r member
      rcases List.mem_cons.mp member with rfl | before
      · exact recording.admitted
      · exact held.admitted r before
    · refine List.nodup_cons.mpr ⟨?_, held.once⟩
      intro member
      obtain ⟨r, before, same⟩ := List.mem_map.mp member
      exact elsewhere r before same.symm
  | _ => exact ⟨held.known, held.recorded, held.admitted, held.once⟩

/-- The version of a receipt to be recorded has no receipt yet. -/
theorem Change.version_unrecorded (change : Change codec db label next) (versions : Versions db)
    (confirmed : Confirmed db) {log : List (Recorded codec)} (held : Logged log db) :
    ∀ r ∈ label.receipt, ∀ other ∈ log,
      (other.1.entityUuid, other.1.projectionVersion) ≠ (r.1.entityUuid, r.1.projectionVersion) := by
  cases change with
  | same _ unrecorded => exact forall_of_unrecorded unrecorded
  | acknowledged recording =>
    rintro _ ⟨⟩ other member same
    obtain ⟨owner, version⟩ := Prod.mk.inj same
    have known := held.known other member
    have recorded : db.acknowledged other.1.projectionTaskId =
        some (other.1.entityUuid, other.1.projectionVersion) := by
      rw [Db.acknowledged, known]
      rfl
    obtain ⟨task, found, _, sameEntity, sameVersion⟩ :=
      settled_eq_some.mp ((confirmed.agreed _).trans recorded)
    have here := versions.unique _ _ _ _ (identityOf_eq_some.mpr ⟨task, found, rfl⟩)
      (identityOf_eq_some.mpr ⟨recording.task, recording.found, rfl⟩)
      (sameEntity.trans (owner.trans recording.sameEntity.symm))
      (sameVersion.trans (version.trans recording.sameVersion.symm))
    rw [here, recording.unacknowledged] at known
    cases known
  | _ => exact forall_of_unrecorded rfl

end Steps

/-- The tables agree with the receipts recorded so far. -/
structure Agrees (labels : List (Label codec)) (db : Db) : Prop where
  versions : Versions db
  confirmed : Confirmed db
  logged : Logged (recordedReceipts labels) db
  changes : Published (fun change => (change.aggregateId, change.aggregateVersion))
    ReceiptFields.LoggedAs (recordedReceipts labels) db.changeOf
  changed : Announced ReceiptFields.LoggedAs (recordedReceipts labels) db.changeOf
  domain : Published (fun content => (content.aggregateId, content.aggregateVersion))
    ReceiptFields.SentAs (recordedReceipts labels) db.domainOf
  sent : (∀ cutoff, .purged cutoff ∉ labels) →
    Announced ReceiptFields.SentAs (recordedReceipts labels) db.domainOf

theorem agrees_empty : Agrees ([] : List (Label codec)) Db.empty := by
  refine ⟨versions_empty, confirmed_empty, ⟨?_, ?_, ?_, ?_⟩, ⟨?_, ?_⟩, ?_, ⟨?_, ?_⟩, ?_⟩ <;>
    simp [recordedReceipts, Db.empty, Db.changeOf, Db.domainOf, Db.contentOf, Announced]

theorem Agrees.step {labels : List (Label codec)} {label : Label codec} (held : Agrees labels db)
    (sound : Issued db) (change : Change codec db label next) : Agrees (label :: labels) next := by
  have fresh := change.version_unrecorded held.versions held.confirmed held.logged
  have content := change.content sound
  refine ⟨(change.skeleton sound).versions held.versions,
    (change.confirmation sound).confirmed held.versions held.confirmed, ?_, ?_, ?_, ?_, ?_⟩ <;>
    rw [recordedReceipts_cons]
  · exact change.logged held.logged
  · exact held.changes.step content.changeView loggedAs_aggregate fresh
  · exact held.changed.step content.changeView fun cutoff same => content.changes_kept (same ▸ rfl)
  · exact held.domain.step content.domainView sentAs_aggregate fresh
  · intro unpurged
    refine (held.sent fun cutoff member => unpurged cutoff (List.mem_cons_of_mem _ member)).step
      content.domainView fun cutoff same => ?_
    exact absurd (same ▸ List.mem_cons_self ..) (unpurged cutoff)

end Collector.Persistence.Projection
