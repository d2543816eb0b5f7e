import Collector.Persistence.Projection.Writes

/-!
Every answered call is one of the eight kinds of change, provided the primary keys in use were
all issued; that proviso is itself kept by every change, so it holds after every run.
-/

namespace Collector.Persistence.Projection
open Collector.Lib

variable {codec : Codec} {db next : Db}

section Delivery

theorem OutboxEvent.deliver_content (event : OutboxEvent)
    (visibilitySeconds maxDeliveryAttempts : Int) (now : Time) :
    (event.deliver visibilitySeconds maxDeliveryAttempts now).content = event.content := by
  unfold deliver
  split <;> rfl

theorem OutboxEvent.fail_content (event : OutboxEvent) (errorCode : String)
    (errorMessage : Option String) (policy : Backoff) (maxAttempts : Int) (now : Time) :
    (event.fail errorCode errorMessage policy maxAttempts now).content = event.content := by
  unfold fail
  dsimp only
  split <;> rfl

theorem OutboxEvent.fail_outboxId (event : OutboxEvent) (errorCode : String)
    (errorMessage : Option String) (policy : Backoff) (maxAttempts : Int) (now : Time) :
    (event.fail errorCode errorMessage policy maxAttempts now).outboxId = event.outboxId := by
  unfold fail
  dsimp only
  split <;> rfl

theorem writeOutbox_eq_ok {event row : OutboxEvent} :
    db.writeOutbox event = .ok (row, next) ↔
      event.admissible = true ∧ row = event ∧ next = { db with outbox := db.outbox.put event } := by
  unfold Db.writeOutbox
  simp only [Except.bind_eq_ok, ensure_eq_ok, pure, Except.pure, Except.ok.injEq, Prod.mk.injEq]
  constructor
  · rintro ⟨_, admissible, rfl, rfl⟩
    exact ⟨admissible, rfl, rfl⟩
  · rintro ⟨admissible, rfl, rfl⟩
    exact ⟨(), admissible, rfl, rfl⟩

/-- One row of the outbox written back with its content. -/
private theorem delivered_put {outboxId : Uuid} {event : OutboxEvent} (row : OutboxEvent)
    (found : db.outbox.find? outboxId = some event) (same : row.outboxId = event.outboxId)
    (content : OutboxMove event row) (auditLog : List AuditEntry) :
    Change codec db .delivered { db with outbox := db.outbox.put row, auditLog := auditLog } := by
  have located := ((db.outbox.find?_eq_some _ _).mp found).2
  exact .delivered _ auditLog fun id =>
    Table.rel_put OutboxMove.refl db.outbox row (same ▸ located ▸ found) content id

theorem fetchUnpublished_change {topics : List Topic}
    {limit visibilitySeconds maxDeliveryAttempts : Int} {skip : List Uuid} {now : Time}
    {events : List OutboxEvent}
    (done : fetchUnpublished db topics limit visibilitySeconds maxDeliveryAttempts skip now =
      .ok (events, next)) : Change codec db .delivered next := by
  unfold fetchUnpublished at done
  simp only [Except.bind_eq_ok, ensure_eq_ok, pure, Except.pure, Except.ok.injEq,
    Prod.mk.injEq] at done
  obtain ⟨_, _, _, _, _, _, _, rfl⟩ := done
  exact .delivered _ _ fun id => Table.rel_update OutboxMove.refl db.outbox _ _ _
    (fun event _ _ => event.deliver_content _ _ _) id

theorem markPublished_change {outboxIds : List Uuid} {now : Time} {count : Nat}
    (done : markPublished db outboxIds now = .ok (count, next)) : Change codec db .delivered next := by
  unfold markPublished at done
  simp only [pure, Except.pure, Except.ok.injEq, Prod.mk.injEq] at done
  obtain ⟨_, rfl⟩ := done
  exact .delivered _ _ fun id => Table.rel_update OutboxMove.refl db.outbox _
    (fun event => event.publish now) _ (fun _ _ _ => rfl) id

theorem markFailed_change {outboxId : Uuid} {errorCode : String} {errorMessage : Option String}
    {policy : Backoff} {maxAttempts : Int} {now : Time} {row : OutboxEvent}
    (done : markFailed db outboxId errorCode errorMessage policy maxAttempts now = .ok (row, next)) :
    Change codec db .delivered next := by
  unfold markFailed at done
  simp only [Except.bind_eq_ok, ensure_eq_ok, require_eq_ok] at done
  obtain ⟨_, _, event, found, done⟩ := done
  split at done
  · simp only [pure, Except.pure, Except.ok.injEq, Prod.mk.injEq] at done
    rw [← done.2]
    exact .same _ rfl
  · obtain ⟨_, _, rfl⟩ := writeOutbox_eq_ok.mp done
    exact delivered_put _ found (event.fail_outboxId ..) (event.fail_content ..) _

theorem unpark_change {outboxId : Uuid} {actor reason : String} {requestId : Option String}
    {now : Time} {row : OutboxEvent}
    (done : unpark db outboxId actor reason requestId now = .ok (row, next)) :
    Change codec db .delivered next := by
  unfold unpark at done
  simp only [Except.bind_eq_ok, ensure_eq_ok, require_eq_ok, pure, Except.pure, Except.ok.injEq,
    Prod.mk.injEq] at done
  obtain ⟨_, _, event, found, _, _, ⟨written, middle⟩, wrote, auditLog, _, _, rfl⟩ := done
  obtain ⟨_, _, rfl⟩ := writeOutbox_eq_ok.mp wrote
  exact delivered_put (event.unpark now) found rfl rfl auditLog

theorem purgePublished_change {olderThan : Time} {after : Option Uuid} {limit : Int}
    {skip : List Uuid} {now : Time} {result : PurgeResult}
    (done : purgePublished db olderThan after limit skip now = .ok (result, next)) :
    Change codec db (.purged (now - olderThan)) next := by
  unfold purgePublished at done
  simp only [Except.bind_eq_ok, ensure_eq_ok, pure, Except.pure, Except.ok.injEq,
    Prod.mk.injEq] at done
  obtain ⟨_, _, _, _, _, rfl⟩ := done
  refine .purged _ (now - olderThan) fun event present gone => ?_
  obtain ⟨chosen, picked, same⟩ := List.mem_map.mp (of_decide_eq_true gone)
  obtain ⟨stored, selected⟩ := Table.mem_of_mem_select picked
  obtain rfl := db.outbox.eq_of_key_eq stored present same
  simp only [Bool.and_eq_true] at selected
  exact selected.1.1

end Delivery

theorem upsertEntity_change {identity : EntityIdentity} {draw : Uuid} {now : Time}
    {row : EntityIndex} (done : upsertEntity db identity draw now = .ok (row, next)) :
    Change codec db .quiet next := by
  unfold upsertEntity at done
  simp only [Except.bind_eq_ok, ensure_eq_ok] at done
  obtain ⟨_, _, done⟩ := done
  split at done
  · simp only [pure, Except.pure, Except.ok.injEq, Prod.mk.injEq] at done
    rw [← done.2]
    exact .same _ rfl
  · simp only [pure, Except.pure, Except.ok.injEq, Prod.mk.injEq] at done
    rw [← done.2]
    exact .registered _ (newEntityId_not_mem _ _) rfl rfl rfl

theorem recordParseFailure_change {attempt : ParseAttemptRecord} {draw : Uuid} {now : Time}
    {row : ParseAttempt} (done : recordParseFailure db attempt draw now = .ok (row, next)) :
    Change codec db .quiet next := by
  unfold recordParseFailure at done
  simp only [Except.bind_eq_ok, ensure_eq_ok] at done
  obtain ⟨_, _, done⟩ := done
  obtain ⟨fresh, rfl⟩ := insertParseAttempt_eq_ok done
  exact .attempted row fresh

theorem LeaseStep.change {entry : Event codec} (step : LeaseStep db next entry) :
    Change codec db .quiet next := by
  obtain ⟨tasks, rfl, effect⟩ := step
  refine .leased tasks fun id => ?_
  have here := effect id
  generalize db.tasks.find? id = before, act entry id = performed, tasks.find? id = after at here ⊢
  cases here with
  | absent => exact .none
  | kept task => exact .some (.inl rfl)
  | moved advances same unfinished pending => exact .some (.inr ⟨same, unfinished, pending⟩)

/-- **Every committed call is a change.** -/
theorem exec_change (sound : Issued db) {call : Call codec} {a : Answer}
    (answered : (machine codec).exec call db = .ok (a, next)) :
    Change codec db (Event.label ⟨call, .ok a⟩) next := by
  cases call with
  | upsertEntity =>
    obtain ⟨_, done, rfl⟩ := answer_eq_ok.mp answered
    exact upsertEntity_change done
  | recordParseResult =>
    obtain ⟨_, done, rfl⟩ := answer_eq_ok.mp answered
    rcases recordParseResult_eq_ok sound done with ⟨_, _, _, rfl⟩ | ⟨issue, _, _, _, _, _, rfl⟩
    · exact .same _ rfl
    · exact .issued issue
  | recordParseFailure =>
    obtain ⟨_, done, rfl⟩ := answer_eq_ok.mp answered
    exact recordParseFailure_change done
  | claimProjectionTasks =>
    obtain ⟨_, done, rfl⟩ := answer_eq_ok.mp answered
    exact (claimProjectionTasks_step done).change
  | heartbeatProjectionTask =>
    obtain ⟨_, done, rfl⟩ := answer_eq_ok.mp answered
    exact (heartbeatProjectionTask_step done).change
  | retryProjectionTask =>
    obtain ⟨_, done, rfl⟩ := answer_eq_ok.mp answered
    exact (retryProjectionTask_step done).change
  | releaseProjectionTask =>
    obtain ⟨_, done, rfl⟩ := answer_eq_ok.mp answered
    exact (releaseProjectionTask_step done).change
  | quarantineProjectionTask =>
    obtain ⟨_, done, rfl⟩ := answer_eq_ok.mp answered
    exact (quarantineProjectionTask_step done).change
  | recoverExpiredProjectionLeases =>
    obtain ⟨_, done, rfl⟩ := answer_eq_ok.mp answered
    exact (recoverExpiredProjectionLeases_step done).change
  | acknowledgeProjection taskId receipt event owner draws now =>
    obtain ⟨result, done, rfl⟩ := answer_eq_ok.mp answered
    obtain ⟨_, _, _, _, _, ⟨_, _, _, old, rfl⟩ | ⟨recording, rfl, _, _, rfl, created, rfl⟩⟩ :=
      acknowledgeProjection_eq_ok done
    · simp only [Event.label, old, Bool.false_eq_true, ↓reduceIte]
      exact .same _ rfl
    · simp only [Event.label, created, ↓reduceIte]
      exact .acknowledged recording
  | fetchUnpublished =>
    obtain ⟨_, done, rfl⟩ := answer_eq_ok.mp answered
    exact fetchUnpublished_change done
  | markPublished outboxIds now =>
    change answer Answer.count (markPublished db outboxIds now) = .ok (a, next) at answered
    obtain ⟨_, done, rfl⟩ := answer_eq_ok.mp answered
    exact markPublished_change done
  | markFailed =>
    obtain ⟨_, done, rfl⟩ := answer_eq_ok.mp answered
    exact markFailed_change done
  | unpark =>
    obtain ⟨_, done, rfl⟩ := answer_eq_ok.mp answered
    exact unpark_change done
  | purgePublished =>
    obtain ⟨_, done, rfl⟩ := answer_eq_ok.mp answered
    exact purgePublished_change done

section Sound

/-- A table whose rows were moved has the keys it had. -/
theorem mem_keys_of_rel {α κ : Type} {key : α → κ} [DecidableEq κ] {t t' : Table key}
    {R : α → α → Prop} (moved : ∀ k, Option.Rel R (t.find? k) (t'.find? k)) {k : κ}
    (member : k ∈ t'.keys) : k ∈ t.keys := by
  obtain ⟨row, found⟩ := (t'.mem_keys_iff k).mp member
  have rel := moved k
  rw [found] at rel
  cases before : t.find? k with
  | none =>
    rw [before] at rel
    cases rel
  | some old => exact (t.mem_keys_iff k).mpr ⟨old, before⟩

private theorem issued_insert {α : Type} {key : α → Uuid} {t : Table key} {row : α}
    {before after : List Uuid} (sound : ∀ id ∈ t.keys, id ∈ before)
    (grown : ∀ id, id ∈ before ∨ id = key row → id ∈ after) :
    ∀ id ∈ (t.insert row).keys, id ∈ after := by
  intro id member
  rcases Table.mem_keys_insert _ _ member with rfl | known
  · exact grown _ (.inr rfl)
  · exact grown _ (.inl (sound id known))

theorem Emission.issued_mem {receipt : ReceiptFields} {event : Option DomainChangedEvent} {now : Time}
    {changeEvents : Table ChangeEvent.changeEventId} {outbox : Table OutboxEvent.outboxId}
    {issued : List Uuid} (emission : Emission codec db receipt event now changeEvents outbox issued)
    {id : Uuid} (known : id ∈ db.issued) : id ∈ issued := by
  cases emission with
  | silent => exact known
  | emitted => exact List.mem_cons_of_mem _ (List.mem_cons_of_mem _ known)

theorem Emission.sound {receipt : ReceiptFields} {event : Option DomainChangedEvent} {now : Time}
    {changeEvents : Table ChangeEvent.changeEventId} {outbox : Table OutboxEvent.outboxId}
    {issued : List Uuid} (emission : Emission codec db receipt event now changeEvents outbox issued)
    (sound : Issued db) :
    (∀ id ∈ changeEvents.keys, id ∈ issued) ∧ ∀ id ∈ outbox.keys, id ∈ issued := by
  cases emission with
  | silent => exact ⟨sound.changeEvents, sound.outbox⟩
  | emitted =>
    refine ⟨issued_insert sound.changeEvents ?_, issued_insert sound.outbox ?_⟩
    · rintro id (known | rfl)
      · exact List.mem_cons_of_mem _ (List.mem_cons_of_mem _ known)
      · exact List.mem_cons_of_mem _ (List.mem_cons_self ..)
    · rintro id (known | rfl)
      · exact List.mem_cons_of_mem _ (List.mem_cons_of_mem _ known)
      · exact List.mem_cons_self ..

theorem Change.sound {label : Label codec} (change : Change codec db label next)
    (sound : Issued db) : Issued next := by
  obtain ⟨entities, attempts, artifacts, tasks, changeEvents, outbox⟩ := sound
  cases change with
  | same => exact ⟨entities, attempts, artifacts, tasks, changeEvents, outbox⟩
  | registered row =>
    have keep : ∀ id ∈ db.issued, id ∈ row.entityUuid :: db.issued :=
      fun _ => List.mem_cons_of_mem _
    exact ⟨issued_insert entities (by simp [or_comm]), fun id h => keep id (attempts id h),
      fun id h => keep id (artifacts id h), fun id h => keep id (tasks id h),
      fun id h => keep id (changeEvents id h), fun id h => keep id (outbox id h)⟩
  | attempted row =>
    have keep : ∀ id ∈ db.issued, id ∈ row.parseAttemptId :: db.issued :=
      fun _ => List.mem_cons_of_mem _
    exact ⟨fun id h => keep id (entities id h), issued_insert attempts (by simp [or_comm]),
      fun id h => keep id (artifacts id h), fun id h => keep id (tasks id h),
      fun id h => keep id (changeEvents id h), fun id h => keep id (outbox id h)⟩
  | issued issue =>
    have keep : ∀ id ∈ db.issued, id ∈ issue.issued := fun id h => issue.grown id (.inl h)
    refine ⟨?_, issue.attemptsIssued, issue.artifactsIssued, issued_insert tasks ?_,
      fun id h => keep id (changeEvents id h), issued_insert outbox ?_⟩
    · intro id member
      exact keep id (entities id (by simpa [Issue.next] using member))
    · exact fun id member => issue.grown id (member.imp_right .inl)
    · exact fun id member => issue.grown id (member.imp_right .inr)
  | leased moved' rel =>
    exact ⟨entities, attempts, artifacts, fun id h => tasks id (mem_keys_of_rel rel h),
      changeEvents, outbox⟩
  | acknowledged recording =>
    have keep : ∀ id ∈ db.issued, id ∈ recording.issued :=
      fun id h => recording.emission.issued_mem h
    have events := recording.emission.sound
      ⟨entities, attempts, artifacts, tasks, changeEvents, outbox⟩
    refine ⟨?_, fun id h => keep id (attempts id h), fun id h => keep id (artifacts id h), ?_,
      events.1, events.2⟩
    · intro id member
      exact keep id (entities id (by simpa [Recording.next] using member))
    · intro id member
      exact keep id (tasks id (by simpa [Recording.next] using member))
  | delivered moved' auditLog rel =>
    exact ⟨entities, attempts, artifacts, tasks, changeEvents,
      fun id h => outbox id (mem_keys_of_rel rel h)⟩
  | purged gone =>
    exact ⟨entities, attempts, artifacts, tasks, changeEvents,
      fun id h => outbox id (db.outbox.mem_keys_of_mem_delete gone h)⟩

theorem issued_empty : Issued Db.empty := by
  constructor <;> nofun

end Sound

/-- The receipts among labels, newest first. -/
def recordedReceipts (labels : List (Label codec)) : List (Recorded codec) :=
  labels.filterMap Label.receipt

theorem recordedReceipts_cons (label : Label codec) (labels : List (Label codec)) :
    recordedReceipts (label :: labels) = label.receipt.toList ++ recordedReceipts labels := by
  unfold recordedReceipts
  rw [List.filterMap_cons]
  cases label.receipt <;> rfl

theorem Event.receipt_error (call : Call codec) (e : PersistenceError) :
    (Event.label (⟨call, .error e⟩ : Event codec)).receipt = none := by
  cases call <;> rfl

/-- The induction rule of the flow: what every change keeps, of the labels so far and the tables,
is kept by every run. -/
theorem run_labels {P : List (Label codec) → Db → Prop} (base : P [] Db.empty)
    (kept : ∀ labels db label next, Issued db → P labels db → Change codec db label next →
      P (label :: labels) next)
    {history : List (Event codec)} (run : (machine codec).Run Db.empty history db) :
    Issued db ∧ P (history.map Event.label) db := by
  induction run with
  | nil => exact ⟨issued_empty, base⟩
  | raise _ _ ih => exact ⟨ih.1, kept _ _ _ _ ih.1 ih.2 (.same _ (Event.receipt_error ..))⟩
  | answer _ answered ih =>
    have change := exec_change ih.1 answered
    exact ⟨change.sound ih.1, kept _ _ _ _ ih.1 ih.2 change⟩

theorem run_keeps {P : Db → Prop} {start : Db} (sound : Issued start) (base : P start)
    (kept : ∀ db label next, Issued db → P db → Change codec db label next → P next)
    {history : List (Event codec)} (run : (machine codec).Run start history db) :
    Issued db ∧ P db := by
  refine run.invariant (P := fun db => Issued db ∧ P db) ⟨sound, base⟩ ?_
  rintro db call a next ⟨sound, holds⟩ answered
  have change := exec_change sound answered
  exact ⟨change.sound sound, kept db _ next sound holds change⟩

theorem run_issued {history : List (Event codec)} (run : (machine codec).Run Db.empty history db) :
    Issued db :=
  (run_keeps issued_empty trivial (fun _ _ _ _ _ _ => trivial) run).1

theorem run_invariant {P : Db → Prop} (base : P Db.empty)
    (kept : ∀ db label next, Issued db → P db → Change codec db label next → P next)
    {history : List (Event codec)} (run : (machine codec).Run Db.empty history db) :
    Issued db ∧ P db := run_keeps issued_empty base kept run

end Collector.Persistence.Projection
