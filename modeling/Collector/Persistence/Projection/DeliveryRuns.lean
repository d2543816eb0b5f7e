import Collector.Persistence.Projection.Delivery

/-!
Delivery over whole runs, whatever the number of publishers and wherever they stop. A run is a path
of every message, so the bounds of the delivery protocol hold of every row of the outbox.
-/

namespace Collector.Persistence.Projection
open Collector.Lib Collector.Lib.Delivery

variable {codec : Codec} {db next : Db}

/-- The fetches of a history that name a limit all name this one. -/
def limited (limit : Int) (history : List (Event codec)) : Prop :=
  ∀ entry ∈ history, ∀ bound ∈ entry.call.deliveryLimit, bound = limit

theorem mail_error (call : Call codec) (e : PersistenceError) (id : Uuid) :
    mail (⟨call, .error e⟩ : Event codec) id = none := by
  cases call <;> rfl

/-- A run is a path of every message. -/
theorem run_path {start : Db} (sound : Issued start) {history : List (Event codec)}
    (run : (machine codec).Run start history db) {limit : Int} (fixed : limited limit history)
    (id : Uuid) :
    Path limit (start.slot id) (history.map fun entry => mail entry id) (db.slot id) := by
  induction run with
  | nil => exact .nil
  | raise _ _ ih =>
    rw [List.map_cons, mail_error]
    exact .step (ih fun entry member => fixed entry (List.mem_cons_of_mem _ member))
      (.silent (.same _))
  | answer before answered ih =>
    have kept := (run_keeps sound trivial (fun _ _ _ _ _ _ => trivial) before).1
    exact .step (ih fun entry member => fixed entry (List.mem_cons_of_mem _ member))
      (exec_step kept answered (fixed _ (List.mem_cons_self ..)) id)

/-- The entry is a fetch that returned the row. -/
def returned (id : Uuid) (entry : Event codec) : Bool := (mail entry id).any Act.isHand

/-- The entry is an unpark of the row. -/
def unparked (id : Uuid) (entry : Event codec) : Bool := (mail entry id).any Act.isReopen

theorem slot_empty (id : Uuid) : Db.empty.slot id = .unused := rfl

/-- Between two reopenings of a row it is returned at most `limit` times. -/
theorem returned_le {m : Nat} {history newer middle older : List (Event codec)}
    (run : (machine codec).Run Db.empty history db) (fixed : limited m history) (id : Uuid)
    (order : history = newer ++ (middle ++ older))
    (quiet : ∀ entry ∈ middle, unparked id entry = false) :
    middle.countP (returned id) ≤ m := by
  subst order
  obtain ⟨after, prior, _⟩ := run.split
  obtain ⟨before, start, rest⟩ := prior.split
  have sound := run_issued start
  have fixedStart : limited m older := fun entry member => fixed entry (by simp [member])
  have fixedRest : limited m middle := fun entry member => fixed entry (by simp [member])
  have within := (run_path issued_empty start fixedStart id).within (Int.natCast_nonneg m)
    (by simp [slot_empty, Slot.within])
  have counted := (run_path sound rest fixedRest id).counted (Int.natCast_nonneg m) within ?_
  · have bound := counted.1
    simp only [hands, List.countP_map] at bound
    exact_mod_cast bound
  · intro act member
    obtain ⟨entry, present, rfl⟩ := List.mem_map.mp member
    have closed := quiet entry present
    unfold unparked at closed
    cases seen : mail entry id with
    | none => rfl
    | some act => simpa [seen] using closed

/-- A row that was returned is not returned again before the instant then set. -/
theorem returned_after {m : Nat} {history newer middle older : List (Event codec)}
    {first second : Event codec} {id : Uuid} {now hidden again later : Time}
    (run : (machine codec).Run Db.empty history db) (fixed : limited m history)
    (order : history = newer ++ second :: (middle ++ first :: older))
    (handed : mail first id = some (.hand now hidden))
    (handedAgain : mail second id = some (.hand again later))
    (quiet : ∀ entry ∈ middle, mail entry id ≠ some .fail ∧ unparked id entry = false) :
    hidden ≤ again := by
  subst order
  have fixedFirst := fixed first (by simp)
  have fixedSecond := fixed second (by simp)
  have fixedMiddle : limited m middle := fun entry member => fixed entry (by simp [member])
  obtain ⟨_, prior, _⟩ := run.split
  cases prior with
  | raise =>
    rw [mail_error] at handedAgain
    cases handedAgain
  | answer prior answered =>
    obtain ⟨between, start, rest⟩ := prior.split
    have sound := run_issued start
    cases start with
    | raise =>
      rw [mail_error] at handed
      cases handed
    | answer start initial =>
      have hides := exec_step (run_issued start) initial fixedFirst id
      rw [handed] at hides
      have step := exec_step (run_issued prior) answered fixedSecond id
      rw [handedAgain] at step
      refine (run_path sound rest fixedMiddle id).hidden hides.hand_hides ?_ step
      intro act member
      obtain ⟨entry, present, rfl⟩ := List.mem_map.mp member
      obtain ⟨unfailed, closed⟩ := quiet entry present
      unfold unparked at closed
      cases seen : mail entry id with
      | none => rfl
      | some act =>
        rw [seen] at unfailed closed
        cases act with
        | hand => rfl
        | fail => exact absurd rfl unfailed
        | reopen => cases closed

/-- Only a purge deletes a row, and only one that it may. -/
theorem Change.row_gone {label : Label codec} (change : Change codec db label next)
    (sound : Issued db) {id : Uuid} {event : OutboxEvent} (found : db.outbox.find? id = some event)
    (absent : next.outbox.find? id = none) :
    ∃ cutoff, label = .purged cutoff ∧ purgeable db cutoff event = true := by
  have used : id ∈ db.issued := sound.outbox id ((db.outbox.mem_keys_iff id).mpr ⟨event, found⟩)
  cases change with
  | same | registered | attempted | leased => cases found.symm.trans absent
  | issued issue =>
    rw [issue.find?_outbox sound, if_neg, found] at absent
    · cases absent
    · rintro rfl
      exact issue.newOutbox used
  | acknowledged recording =>
    obtain ⟨receipt, passed, task, entity, now, changeEvents, outbox, issued, _, _, _, _, _, _,
      _, _, emission⟩ := recording
    cases emission with
    | silent => cases found.symm.trans absent
    | emitted descriptor eventSha256 mediaType changeEventId outboxId _ _ _ _ _ _ newOutbox =>
      have lookup := db.outbox.find?_insert
        (receipt.domainEvent descriptor eventSha256 mediaType outboxId now)
        (fun known => newOutbox (sound.outbox _ known)) id
      rw [if_neg, found] at lookup
      · cases lookup.symm.trans absent
      · rintro rfl
        exact newOutbox used
  | delivered outbox auditLog moved =>
    have rel := moved id
    rw [found, show outbox.find? id = none from absent] at rel
    cases rel
  | purged gone cutoff only =>
    refine ⟨cutoff, rfl, only event ((db.outbox.find?_eq_some _ _).mp found).1 ?_⟩
    have deleted := db.outbox.find?_delete gone id
    rw [show (db.outbox.delete gone).find? id = none from absent, found] at deleted
    cases leaves : gone event with
    | true => rfl
    | false => simp [Option.filter, leaves] at deleted

theorem label_purged {call : Call codec} {a : Answer} {cutoff : Time}
    (purged : Event.label (⟨call, .ok a⟩ : Event codec) = .purged cutoff) :
    ∃ olderThan after limit skip now, call = .purgePublished olderThan after limit skip now ∧
      cutoff = now - olderThan := by
  cases call with
  | purgePublished olderThan after limit skip now =>
    cases purged
    exact ⟨_, _, _, _, _, rfl, rfl⟩
  | acknowledgeProjection =>
    unfold Event.label at purged
    dsimp only at purged
    split at purged
    · split at purged <;> cases purged
    · cases purged
  | _ => cases purged

/-- **Bounded delivery without loss.** With one `max_delivery_attempts` for all fetches, a row is
returned at most that often between two unparks; what a fetch returns was neither published nor
parked; a returned row does not come back before the instant its return set, unless a failure was
reported or the row was unparked; and a domain row disappears only in a purge whose cutoff is
after its publication. -/
theorem outbox_delivery {m : Nat} {history : List (Event codec)}
    (run : (machine codec).Run Db.empty history db) (fixed : limited m history) (id : Uuid) :
    (∀ newer middle older, history = newer ++ (middle ++ older) →
      (∀ entry ∈ middle, unparked id entry = false) → middle.countP (returned id) ≤ m) ∧
    (∀ call events next, (machine codec).exec call db = .ok (.events events, next) →
      ∀ event ∈ events, ∃ row, db.outbox.find? event.outboxId = some row ∧
        row.publishedAt = none ∧ row.parkedAt = none) ∧
    (∀ newer middle older first second now hidden again later,
      history = newer ++ second :: (middle ++ first :: older) →
      mail first id = some (.hand now hidden) → mail second id = some (.hand again later) →
      (∀ entry ∈ middle, mail entry id ≠ some .fail ∧ unparked id entry = false) →
      hidden ≤ again) ∧
    ∀ call a next event, (machine codec).exec call db = .ok (a, next) →
      db.outbox.find? id = some event → event.topic = .domain → next.outbox.find? id = none →
      ∃ olderThan after limit skip now published,
        call = .purgePublished olderThan after limit skip now ∧
        event.publishedAt = some published ∧ published < now - olderThan := by
  have sound := run_issued run
  refine ⟨?_, ?_, ?_, ?_⟩
  · intro newer middle older order quiet
    exact returned_le run fixed id order quiet
  · intro call events next answered event member
    cases call with
    | fetchUnpublished =>
      obtain ⟨_, done, same⟩ := answer_eq_ok.mp answered
      cases same
      obtain ⟨_, _, _, answer⟩ := fetchUnpublished_eq_ok done
      obtain ⟨⟨row, chosen, rfl⟩, _⟩ := (answer event).mp member
      obtain ⟨present, unpublished, unparked, _⟩ := mem_fetchCandidates chosen
      rw [OutboxEvent.deliver_outboxId]
      exact ⟨row, db.outbox.find?_of_mem present, unpublished, unparked⟩
    | _ =>
      simp only [machine] at answered
      obtain ⟨_, _, same⟩ := answer_eq_ok.mp answered
      cases same
  · intro newer middle older first second now hidden again later order handed handedAgain quiet
    exact returned_after run fixed order handed handedAgain quiet
  · intro call a next event answered found domain absent
    obtain ⟨cutoff, purged, allowed⟩ := (exec_change sound answered).row_gone sound found absent
    obtain ⟨olderThan, after, limit, skip, now, rfl, rfl⟩ := label_purged purged
    unfold purgeable at allowed
    rw [domain] at allowed
    cases published : event.publishedAt with
    | none =>
      rw [published] at allowed
      cases allowed
    | some instant =>
      rw [published, Option.any_some, decide_eq_true_eq] at allowed
      exact ⟨olderThan, after, limit, skip, now, instant, rfl, rfl, allowed⟩

/-- Two publishers that crash, where a row is handed out once. -/
def Sample.crashing : List (Event Sample.codec) × Db :=
  (machine Sample.codec).replay Db.empty [register, parse 1,
    .fetchUnpublished [.internal] 10 30 1 [] now,
    .fetchUnpublished [.internal] 10 30 1 [] (now + seconds 30)]

theorem outbox_delivery_crashing :
    limited (1 : Nat) Sample.crashing.1 ∧
      Sample.crashing.1.countP (returned (Sample.id 0x51)) = 1 ∧
      Sample.crashing.1.countP (returned (Sample.id 0x51)) ≤ 1 := by
  have run : (machine Sample.codec).Run Db.empty Sample.crashing.1 Sample.crashing.2 :=
    (machine Sample.codec).run_replay _ _
  have fixed : limited (1 : Nat) Sample.crashing.1 := by
    unfold limited
    decide +kernel
  have outcomes : Sample.crashing.1.countP (returned (Sample.id 0x51)) = 1 ∧
      ∀ entry ∈ Sample.crashing.1, unparked (Sample.id 0x51) entry = false := by decide +kernel
  exact ⟨fixed, outcomes.1, (outbox_delivery run fixed (Sample.id 0x51)).1 [] Sample.crashing.1 []
    (by rw [List.append_nil, List.nil_append]) outcomes.2⟩

end Collector.Persistence.Projection
