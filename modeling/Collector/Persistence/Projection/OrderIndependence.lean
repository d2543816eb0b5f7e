import Mathlib.Algebra.Order.Group.Multiset
import Collector.Lib.Commuting
import Collector.Persistence.Projection.Observed

/-!
Acknowledgements in any order. Deliveries of receipts are repeated and out of order, so what they
leave must not depend on which came first. On the view they commute and gain nothing from being
repeated; the rest is the library's.
-/

namespace Collector.Persistence.Projection
open Collector.Lib

variable {codec : Codec} {db : Db} {view : View} {notice other : Notice codec}

/-- Notices for different tasks, with different events. -/
structure Notice.Apart (notice other : Notice codec) : Prop where
  task : notice.taskId ≠ other.taskId
  event : ∀ eventId, notice.receipt.eventId = some eventId → other.receipt.eventId ≠ some eventId

theorem Notice.Apart.symm (apart : notice.Apart other) : other.Apart notice :=
  ⟨apart.task.symm, fun eventId there here => apart.event eventId here there⟩

section Commuting

/-- The rows that a notice leaves are those of the event it names. -/
theorem Notice.eventId_of_emitted {rows : ChangeEvent × OutboxEvent}
    (member : rows ∈ notice.emitted) :
    notice.receipt.eventId = some rows.1.eventId ∧ rows.2.eventId = rows.1.eventId := by
  cases emits : notice.receipt.shouldEmitDomainChanged with
  | false =>
    rw [Notice.emitted_of_quiet emits] at member
    cases Multiset.notMem_zero _ member
  | true =>
    have written : notice.rows = some rows := by simpa [Notice.emitted, emits] using member
    obtain ⟨descriptor, _, _, _, named, _, _, rfl⟩ := Notice.rows_eq_some.mp written
    obtain ⟨eventId, known⟩ :=
      Option.isSome_iff_exists.mp (notice.receipt.eventId_isSome.trans emits)
    rw [known] at named ⊢
    exact ⟨congrArg some (of_decide_eq_true named).symm, rfl⟩

theorem Notice.Apart.eventId_ne (apart : notice.Apart other) {rows pair : ChangeEvent × OutboxEvent}
    (here : rows ∈ notice.emitted) (there : pair ∈ other.emitted) :
    pair.1.eventId ≠ rows.1.eventId := by
  intro same
  apply apart.event _ (Notice.eventId_of_emitted here).1
  rw [(Notice.eventId_of_emitted there).1, same]

/-- Confirming one version does not stand in the way of confirming another. -/
theorem confirm_confirm_admissible {entity : EntityIndex} (receipt next : AppliedProjectionReceipt codec)
    (confirmed : (entity.confirm receipt.toReceiptFields 0).admissible = true) :
    ((entity.confirm receipt.toReceiptFields 0).observed.confirm next.toReceiptFields
      0).admissible = true ↔ (entity.confirm next.toReceiptFields 0).admissible = true := by
  have positive := next.version_pos
  have written := (Bool.and_eq_true _ _ ▸ confirmed).2
  have fitting : fits 120 entity.mongoCollection = true := by
    cases first : entity.mongoCollection with
    | none => rfl
    | some name => simpa only [EntityIndex.confirm, first, Option.some_or] using written
  have here := fits_confirm entity next 0 fitting
  have there := fits_confirm (entity.confirm receipt.toReceiptFields 0).observed next 0 rfl
  simp only [EntityIndex.admissible, Bool.and_eq_true, decide_eq_true_eq, here, there, and_true] at confirmed ⊢
  simp only [EntityIndex.confirm, EntityIndex.observed] at confirmed ⊢
  obtain ⟨⟨⟨⟨⟨bounds, range⟩, source⟩, item⟩, identity⟩, _⟩ := confirmed
  simp only [range, source, item, identity, and_true]
  omega

/-- Recording one notice does not decide about another. -/
theorem accepts_record_iff (apart : notice.Apart other) (accepted : view.Accepts other) :
    (view.record other).Accepts notice ↔ view.Accepts notice := by
  have task : (view.record other).tasks notice.taskId = view.tasks notice.taskId := by
    simp only [View.record, apart.task, if_false, Option.map_id']
  have ack : (view.record other).acknowledgements notice.taskId =
      view.acknowledgements notice.taskId := by
    simp only [View.record, apart.task, if_false]
  have entity : (∃ entity, (view.record other).entityIndex notice.receipt.entityUuid = some entity ∧
      (entity.confirm notice.receipt.toReceiptFields 0).admissible = true) ↔
      ∃ entity, view.entityIndex notice.receipt.entityUuid = some entity ∧
        (entity.confirm notice.receipt.toReceiptFields 0).admissible = true := by
    by_cases here : notice.receipt.entityUuid = other.receipt.entityUuid
    · obtain ⟨current, known, confirmed⟩ := accepted.entity
      simp only [View.record, here, if_true, known, Option.map_some, Option.some.injEq,
        exists_eq_left']
      exact confirm_confirm_admissible other.receipt notice.receipt confirmed
    · simp only [View.record, here, if_false, Option.map_id']
  have events : (∀ rows ∈ notice.emitted, rows.1.admissible = true ∧ rows.2.admissible = true ∧
      (∀ row ∈ (view.record other).changeEvents, row.eventId ≠ rows.1.eventId) ∧
      ∀ row ∈ (view.record other).outbox, row.eventId ≠ rows.2.eventId) ↔
      ∀ rows ∈ notice.emitted, rows.1.admissible = true ∧ rows.2.admissible = true ∧
        (∀ row ∈ view.changeEvents, row.eventId ≠ rows.1.eventId) ∧
        ∀ row ∈ view.outbox, row.eventId ≠ rows.2.eventId := by
    refine forall₂_congr fun rows member => ?_
    simp only [View.record, Multiset.mem_add, Multiset.mem_map, or_imp, forall_and,
      forall_exists_index, and_imp, forall_apply_eq_imp_iff₂]
    have logged : ∀ pair ∈ other.emitted, pair.1.eventId ≠ rows.1.eventId :=
      fun pair there => apart.eventId_ne member there
    have sent : ∀ pair ∈ other.emitted, pair.2.eventId ≠ rows.2.eventId := by
      intro pair there
      rw [(Notice.eventId_of_emitted there).2, (Notice.eventId_of_emitted member).2]
      exact logged pair there
    simp only [iff_true_intro logged, iff_true_intro sent, and_true]
  constructor
  · rintro ⟨addressed, found, admitted, fresh, known, described, unused⟩
    exact ⟨addressed, task ▸ found, admitted, ack ▸ fresh, entity.mp known, described,
      events.mp unused⟩
  · rintro ⟨addressed, found, admitted, fresh, known, described, unused⟩
    exact ⟨addressed, task.symm ▸ found, admitted, ack.trans fresh, entity.mpr known, described,
      events.mpr unused⟩

/-- Notices that are apart are recorded in either order. -/
theorem record_comm (apart : notice.Apart other) :
    (view.record other).record notice = (view.record notice).record other := by
  apply View.ext
  · funext id
    simp only [View.record, Option.map_map]
    congr 1
    funext entity
    by_cases here : id = notice.receipt.entityUuid
    · by_cases there : id = other.receipt.entityUuid
      · simp only [Function.comp_apply, if_pos here, if_pos there, EntityIndex.confirm,
          EntityIndex.observed, max_right_comm]
      · simp only [Function.comp_apply, if_pos here, if_neg there]
    · simp only [Function.comp_apply, if_neg here]
  · funext id
    simp only [View.record, Option.map_map]
    congr 1
    funext task
    by_cases here : id = notice.taskId
    · have there : id ≠ other.taskId := here ▸ apart.task
      simp only [Function.comp_apply, if_pos here, if_neg there]
    · simp only [Function.comp_apply, if_neg here]
  · funext id
    by_cases here : id = notice.taskId
    · have there : id ≠ other.taskId := here ▸ apart.task
      simp only [View.record, if_pos here, if_neg there]
    · simp only [View.record, if_neg here]
  · exact add_right_comm ..
  · exact add_right_comm ..

theorem acknowledge_comm (apart : notice.Apart other) :
    (view.acknowledge other).acknowledge notice = (view.acknowledge notice).acknowledge other := by
  by_cases here : view.Accepts notice
  · by_cases there : view.Accepts other
    · rw [acknowledge_of_accepts here, acknowledge_of_accepts there,
        acknowledge_of_accepts ((accepts_record_iff apart there).mpr here),
        acknowledge_of_accepts ((accepts_record_iff apart.symm here).mpr there), record_comm apart]
    · rw [acknowledge_of_not_accepts there, acknowledge_of_accepts here,
        acknowledge_of_not_accepts ((accepts_record_iff apart.symm here).not.mpr there)]
  · by_cases there : view.Accepts other
    · rw [acknowledge_of_not_accepts here, acknowledge_of_accepts there,
        acknowledge_of_not_accepts ((accepts_record_iff apart there).not.mpr here)]
    · rw [acknowledge_of_not_accepts here, acknowledge_of_not_accepts there,
        acknowledge_of_not_accepts here]

/-- A recorded notice is not recorded again. -/
theorem acknowledge_idem : (view.acknowledge notice).acknowledge notice = view.acknowledge notice := by
  apply acknowledge_of_not_accepts
  intro again
  by_cases here : view.Accepts notice
  · rw [acknowledge_of_accepts here] at again
    have recorded := again.unacknowledged
    simp only [View.record, if_true] at recorded
    cases recorded
  · rw [acknowledge_of_not_accepts here] at again
    exact here again

theorem confluent_acknowledge {family : Set (Notice codec)}
    (apart : ∀ a ∈ family, ∀ b ∈ family, a ≠ b → a.Apart b) :
    Confluent View.acknowledge family where
  commutes a here b there view := by
    by_cases same : a = b
    · rw [same]
    · exact acknowledge_comm (apart a here b there same)
  idempotent a _ view := acknowledge_idem

end Commuting

/-- A history that presents every notice of a family, and no call besides. -/
structure Presents (family : Set (Notice codec)) (history : List (Event codec)) : Prop where
  only : ∀ entry ∈ history, ∃ notice ∈ family, entry.call.notice = some notice
  each : ∀ notice ∈ family, ∃ entry ∈ history, entry.call.notice = some notice

theorem Presents.mem_notices {family : Set (Notice codec)} {history : List (Event codec)}
    (presents : Presents family history) : notice ∈ notices history ↔ notice ∈ family := by
  simp only [notices, List.mem_filterMap]
  constructor
  · rintro ⟨entry, member, here⟩
    obtain ⟨_, known, there⟩ := presents.only entry member
    cases here.symm.trans there
    exact known
  · exact presents.each notice

/-- **Order does not matter.** Two runs of acknowledgements under no owner that present the same
notices, one for each task and with distinct events, in any order and however often, leave the same
confirmed versions, task states, acknowledgements and event rows. -/
theorem acknowledgements_order_independent {before first second : List (Event codec)}
    {left right : Db} (family : Set (Notice codec))
    (start : (machine codec).Run Db.empty before db)
    (apart : ∀ a ∈ family, ∀ b ∈ family, a ≠ b → a.Apart b)
    (firstRun : (machine codec).Run db first left) (firstPresents : Presents family first)
    (secondRun : (machine codec).Run db second right) (secondPresents : Presents family second) :
    left.view = right.view := by
  obtain ⟨sound, fitting⟩ := run_invariant fitting_empty
    (fun _ _ _ sound fitting change => change.fitting sound fitting) start
  have presented : ∀ {history : List (Event codec)}, Presents family history →
      ∀ entry ∈ history, entry.call.notice.isSome = true := by
    intro history presents entry member
    obtain ⟨_, _, here⟩ := presents.only entry member
    rw [here]
    rfl
  rw [run_view sound fitting firstRun (presented firstPresents),
    run_view sound fitting secondRun (presented secondPresents)]
  refine (confluent_acknowledge apart).foldr_eq_of_mem_iff ?_ ?_ _
  · exact fun notice => firstPresents.mem_notices.mp
  · exact fun notice => firstPresents.mem_notices.trans secondPresents.mem_notices.symm

theorem presents_replay {family : Set (Notice codec)} (start : Db) {calls : List (Call codec)}
    (only : ∀ call ∈ calls, ∃ notice ∈ family, call.notice = some notice)
    (each : ∀ notice ∈ family, ∃ call ∈ calls, call.notice = some notice) :
    Presents family ((machine codec).replay start calls).1 := by
  have called : ∀ call, call ∈ calls ↔
      ∃ entry ∈ ((machine codec).replay start calls).1, entry.call = call := by
    intro call
    rw [← List.mem_reverse, ← (machine codec).calls_replay start, List.mem_map]
  constructor
  · exact fun entry member => only _ ((called _).mpr ⟨entry, member, rfl⟩)
  · intro notice member
    obtain ⟨_, there, presented⟩ := each notice member
    obtain ⟨entry, listed, rfl⟩ := (called _).mp there
    exact ⟨entry, listed, presented⟩

/-- The receipts of the two versions of the listing, each with its event. -/
def Sample.pair : Set (Notice Sample.codec) :=
  {⟨id 0x21, firstReceipt, some (event 1)⟩, ⟨id 0x22, secondReceipt, some (event 2)⟩}

def Sample.first : Call Sample.codec := acknowledge firstReceipt (some (event 1)) none

def Sample.second : Call Sample.codec := acknowledge secondReceipt (some (event 2)) none

theorem acknowledgements_order_independent_pair :
    ∃ before db, (machine Sample.codec).Run Db.empty before db ∧
      ((machine Sample.codec).replay db [Sample.first, Sample.second]).2.view =
        ((machine Sample.codec).replay db [Sample.second, Sample.first, Sample.second]).2.view := by
  have start := (machine Sample.codec).run_replay Db.empty
    [Sample.register, Sample.parse 1, Sample.parse 2]
  have apart : ∀ a ∈ Sample.pair, ∀ b ∈ Sample.pair, a ≠ b → a.Apart b := by
    rintro a (rfl | rfl) b (rfl | rfl) distinct
    · exact absurd rfl distinct
    · exact ⟨by decide, by decide⟩
    · exact ⟨by decide, by decide⟩
    · exact absurd rfl distinct
  have only : ∀ call ∈ [Sample.first, Sample.second],
      ∃ notice ∈ Sample.pair, call.notice = some notice := by
    intro call member
    rcases List.mem_pair.mp member with rfl | rfl
    · exact ⟨_, .inl rfl, rfl⟩
    · exact ⟨_, .inr rfl, rfl⟩
  have each : ∀ notice ∈ Sample.pair,
      ∃ call ∈ [Sample.first, Sample.second], call.notice = some notice := by
    rintro notice (rfl | rfl)
    · exact ⟨Sample.first, by simp, rfl⟩
    · exact ⟨Sample.second, by simp, rfl⟩
  refine ⟨_, _, start, acknowledgements_order_independent Sample.pair start apart
    ((machine Sample.codec).run_replay _ _) (presents_replay _ only each)
    ((machine Sample.codec).run_replay _ _) (presents_replay _ ?_ ?_)⟩
  · intro call member
    rcases List.mem_cons.mp member with rfl | listed
    · exact only _ (by simp)
    · exact only call listed
  · intro notice member
    obtain ⟨call, listed, presented⟩ := each notice member
    exact ⟨call, List.mem_cons_of_mem _ listed, presented⟩

/-- What is left depends on the event that comes with a receipt: the receipt of an event artifact is
refused under no event and recorded under its own. -/
theorem acknowledgement_depends_on_event :
    ∃ before db left right, (machine Sample.codec).Run Db.empty before db ∧
      (∃ outcome, (machine Sample.codec).Run db
        [⟨Sample.acknowledge Sample.firstReceipt none none, outcome⟩] left) ∧
      (∃ outcome, (machine Sample.codec).Run db
        [⟨Sample.acknowledge Sample.firstReceipt (some (Sample.event 1)) none, outcome⟩] right) ∧
      (left.tasks.find? (Sample.id 0x21)).map ProjectionTask.status = some .pending ∧
      (right.tasks.find? (Sample.id 0x21)).map ProjectionTask.status = some .succeeded := by
  have statuses : (((machine Sample.codec).commit Sample.parsed.2
        (Sample.acknowledge Sample.firstReceipt none none)).2.tasks.find? (Sample.id 0x21)).map
        ProjectionTask.status = some .pending ∧
      (((machine Sample.codec).commit Sample.parsed.2
        (Sample.acknowledge Sample.firstReceipt (some (Sample.event 1)) none)).2.tasks.find?
        (Sample.id 0x21)).map ProjectionTask.status = some .succeeded := by decide +kernel
  exact ⟨_, _, _, _, Sample.run_parsed, ⟨_, Machine.Run.nil.commit _⟩,
    ⟨_, Machine.Run.nil.commit _⟩, statuses⟩

end Collector.Persistence.Projection
