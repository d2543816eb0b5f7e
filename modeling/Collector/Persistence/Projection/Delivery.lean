import Collector.Lib.Delivery
import Collector.Persistence.Projection.Commit

/-!
Delivery of the outbox. Each row is a message under a visibility lease, and each committed call is
one step of that message: a fetch hands it out or parks it, a failure postpones it, an operator
reopens it, retention drops it, and every other call leaves it alone.
-/

namespace Collector.Persistence.Projection
open Collector.Lib Collector.Lib.Delivery

variable {codec : Codec} {db next : Db}

def OutboxEvent.message (event : OutboxEvent) : Message Time :=
  ⟨event.availableAt, event.deliveryAttempts, event.publishedAt.isNone && event.parkedAt.isNone⟩

def Db.slot (db : Db) (id : Uuid) : Slot Time :=
  match db.outbox.find? id with
  | some event => .held event.message
  | none => if id ∈ db.issued then .gone else .unused

/-- What a client sees a call do to one outbox row. -/
def mail (entry : Event codec) (id : Uuid) : Option (Delivery.Act Time) :=
  match entry.call with
  | .fetchUnpublished _ _ _ _ _ now =>
    match entry.outcome with
    | .ok (.events events) =>
      (events.find? fun event => event.outboxId = id).map fun event => .hand now event.availableAt
    | _ => none
  | .markFailed outboxId _ _ _ _ _ =>
    match entry.outcome with
    | .ok _ => if outboxId = id then some .fail else none
    | .error _ => none
  | .unpark outboxId _ _ _ _ =>
    match entry.outcome with
    | .ok _ => if outboxId = id then some .reopen else none
    | .error _ => none
  | _ => none

/-- `max_delivery_attempts` of a fetch. -/
def Call.deliveryLimit : Call codec → Option Int
  | .fetchUnpublished _ _ _ maxDeliveryAttempts _ _ => some maxDeliveryAttempts
  | _ => none

section Silence

theorem slot_held {id : Uuid} {event : OutboxEvent} (found : db.outbox.find? id = some event) :
    db.slot id = .held event.message := by
  rw [Db.slot, found]

/-- A call that does not write the row of an identifier. -/
theorem slot_untouched {id : Uuid} (same : next.outbox.find? id = db.outbox.find? id)
    (grown : ∀ id ∈ db.issued, id ∈ next.issued) : Silent (db.slot id) (next.slot id) := by
  unfold Db.slot
  rw [same]
  cases db.outbox.find? id with
  | some event => exact .same _
  | none =>
    dsimp only
    by_cases used : id ∈ db.issued
    · rw [if_pos used, if_pos (grown id used)]
      exact .same _
    · rw [if_neg used]
      split
      · exact .taken
      · exact .same _

theorem slot_appears {id : Uuid} {event : OutboxEvent} (sound : Issued db) (unused : id ∉ db.issued)
    (there : next.outbox.find? id = some event) (fresh : event.deliveryAttempts = 0) :
    Silent (db.slot id) (next.slot id) := by
  have absent : db.outbox.find? id = none :=
    (db.outbox.find?_eq_none _).mpr fun known => unused (sound.outbox _ known)
  rw [slot_held there, Db.slot, absent]
  dsimp only
  rw [if_neg unused]
  exact .appear fresh

/-- A change that is no step of delivery is silent. -/
theorem Change.slot {label : Label codec} (change : Change codec db label next) (sound : Issued db)
    (undelivered : label ≠ .delivered) (id : Uuid) : Silent (db.slot id) (next.slot id) := by
  cases change with
  | same => exact .same _
  | registered => exact slot_untouched rfl fun _ => List.mem_cons_of_mem _
  | attempted => exact slot_untouched rfl fun _ => List.mem_cons_of_mem _
  | issued issue =>
    by_cases here : issue.outboxId = id
    · subst here
      have there := issue.find?_outbox sound issue.outboxId
      rw [if_pos rfl] at there
      exact slot_appears sound issue.newOutbox there rfl
    · refine slot_untouched ?_ fun id known => issue.grown id (.inl known)
      rw [issue.find?_outbox sound, if_neg here]
  | leased => exact slot_untouched rfl fun _ known => known
  | acknowledged recording =>
    obtain ⟨receipt, event, task, entity, now, changeEvents, outbox, issued, found, known, owner,
      version, admitted, confirms, succeeds, unacknowledged, emission⟩ := recording
    cases emission with
    | silent => exact slot_untouched rfl fun _ known => known
    | emitted descriptor eventSha256 mediaType changeEventId outboxId emits described named hash
        media newChange newOutbox =>
      have lookup := db.outbox.find?_insert
        (receipt.domainEvent descriptor eventSha256 mediaType outboxId now)
        (fun known => newOutbox (sound.outbox _ known))
      by_cases here : outboxId = id
      · subst here
        exact slot_appears sound newOutbox ((lookup outboxId).trans (if_pos rfl)) rfl
      · refine slot_untouched ((lookup id).trans (if_neg here)) fun _ known => ?_
        exact List.mem_cons_of_mem _ (List.mem_cons_of_mem _ known)
  | delivered => exact absurd rfl undelivered
  | purged gone cutoff only =>
    unfold Db.slot
    dsimp only
    rw [db.outbox.find?_delete]
    cases found : db.outbox.find? id with
    | none => exact .same _
    | some event =>
      have used := sound.outbox id ((db.outbox.mem_keys_iff id).mpr ⟨event, found⟩)
      cases leaves : gone event with
      | false =>
        simp only [Option.filter, leaves, Bool.not_false, ↓reduceIte]
        exact .same _
      | true =>
        simp only [Option.filter, leaves, Bool.not_true, Bool.false_eq_true, ↓reduceIte, used]
        exact .drop

end Silence

section Steps
variable {id : Uuid} {limit : Int}

private theorem find?_eq_of_unique {α : Type} {rows : List α} {p : α → Bool} {row : α}
    (member : row ∈ rows) (holds : p row = true) (unique : ∀ other ∈ rows, p other = true → other = row) :
    rows.find? p = some row := by
  cases found : rows.find? p with
  | none => exact absurd holds (List.find?_eq_none.mp found row member)
  | some other =>
    rw [unique other (List.mem_of_find?_eq_some found) (List.find?_some found)]

theorem mem_fetchCandidates {topics : List Topic} {limit : Int} {skip : List Uuid} {now : Time}
    {event : OutboxEvent} (chosen : event ∈ fetchCandidates db topics limit skip now) :
    event ∈ db.outbox.rows ∧ event.publishedAt = none ∧ event.parkedAt = none ∧
      event.availableAt ≤ now := by
  obtain ⟨present, selected⟩ := Table.mem_of_mem_select chosen
  simp only [Bool.and_eq_true, Option.isNone_iff_eq_none, decide_eq_true_eq] at selected
  obtain ⟨⟨⟨⟨unpublished, unparked⟩, visible⟩, _⟩, _⟩ := selected
  exact ⟨present, unpublished, unparked, visible⟩

/-- A fetch changes the rows it chose, and answers with those of them that it did not park. -/
theorem fetchUnpublished_eq_ok {topics : List Topic}
    {size visibilitySeconds maxDeliveryAttempts : Int} {skip : List Uuid} {now : Time}
    {events : List OutboxEvent}
    (done : fetchUnpublished db topics size visibilitySeconds maxDeliveryAttempts skip now =
      .ok (events, next)) :
    1 ≤ visibilitySeconds ∧ next.issued = db.issued ∧
      (∀ id, next.outbox.find? id = (db.outbox.find? id).map fun event =>
        if event.outboxId ∈ (fetchCandidates db topics size skip now).map OutboxEvent.outboxId
        then event.deliver visibilitySeconds maxDeliveryAttempts now else event) ∧
      ∀ event, event ∈ events ↔ (∃ row ∈ fetchCandidates db topics size skip now,
        row.deliver visibilitySeconds maxDeliveryAttempts now = event) ∧ event.parkedAt = none := by
  unfold fetchUnpublished at done
  simp only [Except.bind_eq_ok, ensure_eq_ok, decide_eq_true_eq, pure, Except.pure, Except.ok.injEq,
    Prod.mk.injEq] at done
  obtain ⟨_, ⟨_, visibility, _⟩, _, _, _, _, rfl, rfl⟩ := done
  refine ⟨visibility, rfl, fun id => ?_, fun event => ?_⟩
  · dsimp only
    rw [Table.find?_update]
    simp only [decide_eq_true_eq]
  · simp only [List.mem_insertionSort, List.mem_filter, List.mem_map, Option.isNone_iff_eq_none]

theorem fetchUnpublished_step {topics : List Topic}
    {size visibilitySeconds maxDeliveryAttempts : Int} {skip : List Uuid} {now : Time}
    {events : List OutboxEvent}
    (done : fetchUnpublished db topics size visibilitySeconds maxDeliveryAttempts skip now =
      .ok (events, next)) (id : Uuid) :
    Step maxDeliveryAttempts (db.slot id)
      (mail (⟨.fetchUnpublished topics size visibilitySeconds maxDeliveryAttempts skip now,
        .ok (.events events)⟩ : Event codec) id) (next.slot id) := by
  obtain ⟨visibility, sameIssued, lookup, answer⟩ := fetchUnpublished_eq_ok done
  change Step _ _ ((events.find? fun event => event.outboxId = id).map _) _
  by_cases member : id ∈ (fetchCandidates db topics size skip now).map OutboxEvent.outboxId
  · obtain ⟨event, chosen, rfl⟩ := List.mem_map.mp member
    obtain ⟨present, unpublished, unparked, visible⟩ := mem_fetchCandidates chosen
    have found := db.outbox.find?_of_mem present
    have there := lookup event.outboxId
    rw [found, Option.map_some, if_pos member] at there
    rw [slot_held found, slot_held there]
    -- Whatever the answer says about this identifier, it says about this row.
    have only : ∀ other ∈ events, other.outboxId = event.outboxId →
        other = event.deliver visibilitySeconds maxDeliveryAttempts now := by
      intro other answered same
      obtain ⟨⟨row, also, rfl⟩, _⟩ := (answer other).mp answered
      rw [OutboxEvent.deliver_outboxId] at same
      rw [db.outbox.eq_of_key_eq (mem_fetchCandidates also).1 present same]
    by_cases exhausted : maxDeliveryAttempts ≤ event.deliveryAttempts
    · have unanswered : events.find? (fun other => other.outboxId = event.outboxId) = none := by
        rw [List.find?_eq_none]
        intro other answered same
        obtain rfl := only other answered (of_decide_eq_true same)
        have unparked := ((answer _).mp answered).2
        simp [OutboxEvent.deliver, exhausted] at unparked
      rw [unanswered, OutboxEvent.deliver, if_pos exhausted]
      have parked : ({ event with
          parkedAt := some now
          lastErrorCode := some deliveryAttemptsExhausted
          updatedAt := now } : OutboxEvent).message = { event.message with pending := false } := by
        simp [OutboxEvent.message]
      rw [parked]
      exact .silent .close
    · have returned : events.find? (fun other => other.outboxId = event.outboxId) =
          some (event.deliver visibilitySeconds maxDeliveryAttempts now) := by
        refine find?_eq_of_unique ((answer _).mpr ⟨⟨event, chosen, rfl⟩, ?_⟩) ?_ ?_
        · simpa [OutboxEvent.deliver, exhausted] using unparked
        · simp [OutboxEvent.deliver_outboxId]
        · exact fun other answered same => only other answered (of_decide_eq_true same)
      rw [returned, OutboxEvent.deliver, if_neg exhausted]
      refine .hand ?_ visible (not_le.mp exhausted) ?_
      · simp [OutboxEvent.message, unpublished, unparked]
      · have positive : 0 < seconds visibilitySeconds := by
          change (0 : Int) < visibilitySeconds * 1000000
          omega
        exact lt_add_of_pos_right now positive
  · have unanswered : events.find? (fun other => other.outboxId = id) = none := by
      rw [List.find?_eq_none]
      intro other answered same
      obtain ⟨⟨row, chosen, rfl⟩, _⟩ := (answer other).mp answered
      rw [OutboxEvent.deliver_outboxId, decide_eq_true_eq] at same
      exact member (same ▸ List.mem_map_of_mem chosen)
    rw [unanswered]
    refine .silent (slot_untouched ?_ fun _ known => sameIssued.symm ▸ known)
    rw [lookup]
    cases found : db.outbox.find? id with
    | none => rfl
    | some event =>
      have located := ((db.outbox.find?_eq_some _ _).mp found).2
      rw [Option.map_some, located, if_neg member]

theorem markPublished_slot {outboxIds : List Uuid} {now : Time} {count : Nat}
    (done : markPublished db outboxIds now = .ok (count, next)) (id : Uuid) :
    Silent (db.slot id) (next.slot id) := by
  unfold markPublished at done
  simp only [pure, Except.pure, Except.ok.injEq, Prod.mk.injEq] at done
  obtain ⟨_, rfl⟩ := done
  simp only [Db.slot, Table.find?_update]
  cases found : db.outbox.find? id with
  | none => exact .same _
  | some event =>
    dsimp only [Option.map_some]
    split
    · exact .close
    · exact .same _

/-- The slots after one row was written back. -/
private theorem slot_put {outboxId : Uuid} {event : OutboxEvent} (row : OutboxEvent) (next : Db)
    (found : db.outbox.find? outboxId = some event) (same : row.outboxId = event.outboxId)
    (written : next.outbox = db.outbox.put row) (sameIssued : next.issued = db.issued) (id : Uuid) :
    db.slot outboxId = .held event.message ∧ next.slot outboxId = .held row.message ∧
      (outboxId ≠ id → Silent (db.slot id) (next.slot id)) := by
  have located : row.outboxId = outboxId := same.trans ((db.outbox.find?_eq_some _ _).mp found).2
  have lookup := db.outbox.find?_put row (located.symm ▸ found)
  rw [← written, located] at lookup
  refine ⟨slot_held found, slot_held ((lookup outboxId).trans (if_pos rfl)), fun elsewhere => ?_⟩
  exact slot_untouched ((lookup id).trans (if_neg elsewhere.symm)) fun _ known =>
    sameIssued.symm ▸ known

theorem OutboxEvent.fail_deliveryAttempts (event : OutboxEvent) (errorCode : String)
    (errorMessage : Option String) (policy : Backoff) (maxAttempts : Int) (now : Time) :
    (event.fail errorCode errorMessage policy maxAttempts now).deliveryAttempts =
      event.deliveryAttempts := by
  unfold fail
  dsimp only
  split <;> rfl

theorem markFailed_step {outboxId : Uuid} {errorCode : String} {errorMessage : Option String}
    {policy : Backoff} {maxAttempts : Int} {now : Time} {row : OutboxEvent}
    (done : markFailed db outboxId errorCode errorMessage policy maxAttempts now = .ok (row, next))
    (limit : Int) (id : Uuid) :
    Step limit (db.slot id) (if outboxId = id then some .fail else none) (next.slot id) := by
  unfold markFailed at done
  simp only [Except.bind_eq_ok, ensure_eq_ok, require_eq_ok] at done
  obtain ⟨_, _, event, found, done⟩ := done
  split at done
  · simp only [pure, Except.pure, Except.ok.injEq, Prod.mk.injEq] at done
    obtain ⟨_, rfl⟩ := done
    by_cases here : outboxId = id
    · rw [if_pos here, ← here, slot_held found]
      exact .fail rfl
    · rw [if_neg here]
      exact .silent (.same _)
  · obtain ⟨_, _, rfl⟩ := writeOutbox_eq_ok.mp done
    obtain ⟨before, after, elsewhere⟩ := slot_put _ { db with outbox := db.outbox.put _ } found
      (event.fail_outboxId ..) rfl rfl id
    by_cases here : outboxId = id
    · rw [if_pos here, ← here, before, after]
      exact .fail (event.fail_deliveryAttempts ..)
    · rw [if_neg here]
      exact .silent (elsewhere here)

theorem unpark_step {outboxId : Uuid} {actor reason : String} {requestId : Option String}
    {now : Time} {row : OutboxEvent}
    (done : unpark db outboxId actor reason requestId now = .ok (row, next)) (limit : Int)
    (id : Uuid) :
    Step limit (db.slot id) (if outboxId = id then some .reopen else none) (next.slot id) := by
  unfold unpark at done
  simp only [Except.bind_eq_ok, ensure_eq_ok, require_eq_ok, pure, Except.pure, Except.ok.injEq,
    Prod.mk.injEq] at done
  obtain ⟨_, _, event, found, _, _, ⟨written, middle⟩, wrote, auditLog, _, _, rfl⟩ := done
  obtain ⟨_, _, rfl⟩ := writeOutbox_eq_ok.mp wrote
  obtain ⟨before, after, elsewhere⟩ := slot_put (event.unpark now)
    { db with outbox := db.outbox.put (event.unpark now), auditLog := auditLog } found rfl rfl rfl id
  by_cases here : outboxId = id
  · rw [if_pos here, ← here, before, after]
    exact .reopen rfl
  · rw [if_neg here]
    exact .silent (elsewhere here)

/-- **Every committed call is one step of every message.** -/
theorem exec_step (sound : Issued db) {call : Call codec} {a : Answer}
    (answered : (machine codec).exec call db = .ok (a, next)) {limit : Int}
    (fixed : ∀ bound ∈ call.deliveryLimit, bound = limit) (id : Uuid) :
    Step limit (db.slot id) (mail ⟨call, .ok a⟩ id) (next.slot id) := by
  have change := exec_change sound answered
  cases call with
  | fetchUnpublished topics size visibilitySeconds maxDeliveryAttempts skip now =>
    obtain ⟨_, done, rfl⟩ := answer_eq_ok.mp answered
    obtain rfl := fixed maxDeliveryAttempts rfl
    exact fetchUnpublished_step done id
  | markPublished outboxIds now =>
    change answer Answer.count (markPublished db outboxIds now) = .ok (a, next) at answered
    obtain ⟨_, done, rfl⟩ := answer_eq_ok.mp answered
    exact .silent (markPublished_slot done id)
  | markFailed =>
    obtain ⟨_, done, rfl⟩ := answer_eq_ok.mp answered
    exact markFailed_step done limit id
  | unpark =>
    obtain ⟨_, done, rfl⟩ := answer_eq_ok.mp answered
    exact unpark_step done limit id
  | acknowledgeProjection =>
    refine .silent (change.slot sound ?_ id)
    unfold Event.label
    dsimp only
    split
    · split <;> nofun
    · nofun
  | _ => exact .silent (change.slot sound nofun id)

end Steps

end Collector.Persistence.Projection
