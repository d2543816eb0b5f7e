import Collector.Persistence.Mongo.ReceiptDocuments
import Collector.Persistence.Projection.ExactlyOnce

/-!
Receipts read back from Mongo. After a crash the reconciler acknowledges the receipt of the store,
the projector the one it made; they differ in the microseconds of one instant, and no other column
than the time of the change shows which of them came first.
-/

namespace Collector.Persistence.Mongo
open Collector.Lib Collector.Persistence.Projection

section Undated

/-- A row of the change log without the time of its change. -/
def undatedChange (change : ChangeEvent) : ChangeEvent := { change with occurredAt := 0 }

/-- The database without the times of its changes. -/
def undatedDb (db : Db) : Db :=
  { db with changeEvents := db.changeEvents.update (fun _ => true) undatedChange fun _ => rfl }

/-- An answer and the database after it, without the times of the changes. -/
def undated (outcome : AcknowledgeResult × Db) : AcknowledgeResult × Db :=
  ({ outcome.1 with changeEvent := outcome.1.changeEvent.map undatedChange }, undatedDb outcome.2)

theorem undated_insert (t : Table ChangeEvent.changeEventId) (row other : ChangeEvent)
    (same : undatedChange row = undatedChange other) :
    (t.insert row).update (fun _ => true) undatedChange (fun _ => rfl) =
      (t.insert other).update (fun _ => true) undatedChange fun _ => rfl := by
  have key : row.changeEventId = other.changeEventId :=
    (congrArg ChangeEvent.changeEventId same :)
  by_cases known : row.changeEventId ∈ t.keys
  · have also : other.changeEventId ∈ t.keys := key ▸ known
    simp only [Table.insert, dif_pos known, dif_pos also]
  · have fresh : other.changeEventId ∉ t.keys := key ▸ known
    simp [Table.update, Table.rows_insert t row known, Table.rows_insert t other fresh, same]

variable {codec : Codec} (receipt : AppliedProjectionReceipt codec) (instant : Time)

/-- The receipt with another time. -/
def redated : AppliedProjectionReceipt codec where
  toReceiptFields := { receipt.toReceiptFields with committedAt := instant }
  valid := receipt.valid

variable (db : Db) (event : Option DomainChangedEvent) (draws : EventDraws) (now : Time)

theorem map_bind {ε α β γ : Type} (f : β → γ) (x : Except ε α) (g : α → Except ε β) :
    (x >>= g).map f = x >>= fun a => (g a).map f := by
  cases x <;> rfl

theorem insertDomainChanged_redated :
    (insertDomainChanged codec db (redated receipt instant).toReceiptFields event draws now).map
        (fun made => (undatedChange made.1.1, made.1.2, undatedDb made.2)) =
      (insertDomainChanged codec db receipt.toReceiptFields event draws now).map
        fun made => (undatedChange made.1.1, made.1.2, undatedDb made.2) := by
  simp only [insertDomainChanged, map_bind, insertChangeEvent, insertOutbox, bind_assoc, pure_bind]
  refine bind_congr fun descriptor => bind_congr fun _ => bind_congr fun eventSha256 =>
    bind_congr fun mediaType => bind_congr fun _ => bind_congr fun _ => ?_
  refine congrArg Except.ok (Prod.ext rfl (Prod.ext rfl ?_))
  have rows := undated_insert db.changeEvents
    ((redated receipt instant).changeEvent descriptor eventSha256 mediaType
      (newEntityId db.issued draws.changeEvent) now)
    (receipt.changeEvent descriptor eventSha256 mediaType
      (newEntityId db.issued draws.changeEvent) now) rfl
  exact congrArg (fun changes => Db.mk _ _ _ _ _ changes _ _ _) rows

theorem recordReceipt_redated (task : ProjectionTask) :
    (recordReceipt codec db task (redated receipt instant).toReceiptFields event draws now).map
        undated =
      (recordReceipt codec db task receipt.toReceiptFields event draws now).map undated := by
  simp only [recordReceipt, map_bind]
  refine bind_congr fun entity => bind_congr fun _ => bind_congr fun _ => ?_
  by_cases emits : receipt.shouldEmitDomainChanged = true
  · have emitting : (redated receipt instant).shouldEmitDomainChanged = true := emits
    rw [if_pos emits, if_pos emitting]
    have same := insertDomainChanged_redated receipt instant
      { db with
        acknowledgements := db.acknowledgements.insert (receipt.acknowledgement now)
        entityIndex := db.entityIndex.put (entity.confirm receipt.toReceiptFields now)
        tasks := db.tasks.put (task.succeed now) } event draws now
    have spread : ∀ made : Except PersistenceError ((ChangeEvent × OutboxEvent) × Db),
        (made >>= fun made => Except.ok (⟨receipt.acknowledgement now,
          (entity.confirm receipt.toReceiptFields now).confirmedProjectionVersion, some made.1.1,
          some made.1.2, true⟩, made.2)).map undated =
        (made.map fun made => (undatedChange made.1.1, made.1.2, undatedDb made.2)).map
          fun seen => (⟨receipt.acknowledgement now,
            (entity.confirm receipt.toReceiptFields now).confirmedProjectionVersion, some seen.1,
            some seen.2.1, true⟩, seen.2.2) := by
      intro made
      cases made <;> rfl
    exact (spread _).trans ((congrArg _ same).trans (spread _).symm)
  · have quiet : ¬ (redated receipt instant).shouldEmitDomainChanged = true := emits
    rw [if_neg emits, if_neg quiet]
    rfl

/-- In a state with an acknowledgement for the task the time of the receipt is not looked at. -/
theorem acknowledge_known (owner : Option String) {taskId : Uuid}
    (known : (db.acknowledgements.find? taskId).isSome) :
    acknowledgeProjection db taskId (redated receipt instant) event owner draws now =
      acknowledgeProjection db taskId receipt event owner draws now := by
  obtain ⟨ack, known⟩ := Option.isSome_iff_exists.mp known
  unfold acknowledgeProjection
  rw [known]
  rfl

theorem acknowledge_redated (owner : Option String) (taskId : Uuid) :
    (acknowledgeProjection db taskId (redated receipt instant) event owner draws now).map undated =
      (acknowledgeProjection db taskId receipt event owner draws now).map undated := by
  cases known : db.acknowledgements.find? taskId with
  | some ack =>
    rw [acknowledge_known receipt instant db event draws now owner (by rw [known]; rfl)]
  | none =>
    simp only [acknowledgeProjection, map_bind, known]
    refine bind_congr fun _ => bind_congr fun task => bind_congr fun _ => bind_congr fun _ => ?_
    exact recordReceipt_redated receipt instant db event draws now task

end Undated

section Replay
variable {codec : Codec} {history : List (Event codec)} {db : Db}

/-- A receipt with another instant is answered as the recorded one, and nothing is written. -/
theorem redated_again (run : (machine codec).Run Db.empty history db)
    {receipt : AppliedProjectionReceipt codec} {recordedAt : Time}
    (member : (receipt, recordedAt) ∈ receipts history) (instant : Time)
    (event : Option DomainChangedEvent) (draws : EventDraws) (now : Time) :
    ∃ result, (machine codec).commit db (.acknowledgeProjection receipt.projectionTaskId
        (redated receipt instant) event none draws now) = (.ok (.acknowledged result), db) ∧
      result.created = false := by
  obtain ⟨_, held⟩ := run_agrees run
  obtain ⟨result, done, old⟩ := held.acknowledge_again member event draws now
  have known : (db.acknowledgements.find? receipt.projectionTaskId).isSome := by
    rw [held.logged.known _ member]
    rfl
  refine ⟨result, Machine.commit_of_ok _ (answer_eq_ok.mpr ⟨result, ?_, rfl⟩), old⟩
  rw [acknowledge_known receipt instant db event draws now none known]
  exact done

variable {word : Char → Bool}

/-- **A stored receipt replays as the same receipt.** The document of every receipt that BSON can
store is accepted again; whichever of the two was acknowledged in a history, the other answers
`created = false` and writes nothing; and in every state the two do the same, down to the bytes,
hashes and identifiers of the event, but for the time of the change. -/
theorem stored_receipt_replays (receipt : ReceiptModel word codec) {document : Fields}
    (kept : (receiptToDocument receipt).stored = some document) :
    ∃ reread, receiptFromDocument word codec document = some reread ∧
      (∀ history db, (machine codec).Run Db.empty history db → ∀ event draws now,
        (∀ recordedAt, (receipt.toAppliedProjectionReceipt, recordedAt) ∈ receipts history →
          ∃ result, (machine codec).commit db (.acknowledgeProjection receipt.projectionTaskId
            reread.toAppliedProjectionReceipt event none draws now) =
              (.ok (.acknowledged result), db) ∧ result.created = false) ∧
        ∀ recordedAt, (reread.toAppliedProjectionReceipt, recordedAt) ∈ receipts history →
          ∃ result, (machine codec).commit db (.acknowledgeProjection receipt.projectionTaskId
            receipt.toAppliedProjectionReceipt event none draws now) =
              (.ok (.acknowledged result), db) ∧ result.created = false) ∧
      ∀ db taskId event owner draws now,
        (acknowledgeProjection db taskId reread.toAppliedProjectionReceipt event owner draws
          now).map undated =
        (acknowledgeProjection db taskId receipt.toAppliedProjectionReceipt event owner draws
          now).map undated := by
  refine ⟨receipt.cut, receiptFromDocument_stored kept, ?_, ?_⟩
  · intro history db run event draws now
    constructor
    · intro recordedAt member
      exact redated_again run member (receipt.committedAt / 1000 * 1000) event draws now
    · intro recordedAt member
      exact redated_again run member receipt.committedAt event draws now
  · intro db taskId event owner draws now
    exact acknowledge_redated receipt.toAppliedProjectionReceipt
      (receipt.committedAt / 1000 * 1000) db event draws now owner taskId

end Replay

namespace Sample
open Projection.Sample

def isWord (c : Char) : Bool := c.isAlphanum || c == '_'

/-- The first receipt, seven microseconds past the second. -/
def precise : ReceiptModel isWord codec where
  toAppliedProjectionReceipt := redated firstReceipt (Projection.Sample.now + 7)
  schemaVersion := "1.0"
  artifactSchemaVersion := none
  contract := by decide +kernel

/-- The projector confirms the first version, and stops before it answers. -/
def reconciled : List (Event codec) × Db :=
  (machine codec).replay Db.empty
    [register, parse 1, acknowledge precise.toAppliedProjectionReceipt (some (event 1)) none]

theorem precise_recorded :
    (precise.toAppliedProjectionReceipt, Projection.Sample.now) ∈ receipts reconciled.1 := by
  have all : (receipts reconciled.1).map (fun r => (r.1.toReceiptFields, r.2)) =
      [(precise.toReceiptFields, Projection.Sample.now)] := by
    decide +kernel
  have member := List.mem_singleton_self (precise.toReceiptFields, Projection.Sample.now)
  rw [← all] at member
  obtain ⟨⟨⟨fields, valid⟩, recordedAt⟩, member, same⟩ := List.mem_map.mp member
  obtain ⟨rfl, rfl⟩ := Prod.mk.inj same
  exact member

end Sample

/-- The reconciler finds the receipt without its seven microseconds. -/
theorem stored_receipt_replays_precise :
    ∃ document reread, (receiptToDocument Sample.precise).stored = some document ∧
      receiptFromDocument Sample.isWord Projection.Sample.codec document = some reread ∧
      ∃ result, (machine Projection.Sample.codec).commit Sample.reconciled.2
        (.acknowledgeProjection Sample.precise.projectionTaskId reread.toAppliedProjectionReceipt
          (some (Projection.Sample.event 1)) none ⟨0, 0⟩ 0) =
        (.ok (.acknowledged result), Sample.reconciled.2) ∧ result.created = false := by
  have storable : (receiptToDocument Sample.precise).stored.isSome := by decide +kernel
  obtain ⟨document, kept⟩ := Option.isSome_iff_exists.mp storable
  have run : (machine Projection.Sample.codec).Run Db.empty Sample.reconciled.1
      Sample.reconciled.2 := (machine Projection.Sample.codec).run_replay _ _
  obtain ⟨reread, accepted, again, _⟩ := stored_receipt_replays Sample.precise kept
  exact ⟨document, reread, kept, accepted,
    (again _ _ run (some (Projection.Sample.event 1)) ⟨0, 0⟩ 0).1 _ Sample.precise_recorded⟩

end Collector.Persistence.Mongo
