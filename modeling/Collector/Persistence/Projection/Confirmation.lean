import Collector.Persistence.Projection.Versions

/-!
Confirmed versions. A task has succeeded exactly when its receipt is recorded, and the confirmed
version of an entity is the highest of its recorded versions. Registration and the recording of a
receipt are the only changes that move any of this.
-/

namespace Collector.Persistence.Projection
open Collector.Lib

variable {codec : Codec} {db next : Db}

/-- Entity and version of a task that has succeeded. -/
def ProjectionTask.settled (task : ProjectionTask) : Option (Uuid × Int) :=
  if task.status = .succeeded then some (task.entityUuid, task.projectionVersion) else none

def Db.settled (db : Db) (id : Uuid) : Option (Uuid × Int) :=
  (db.tasks.find? id).bind ProjectionTask.settled

/-- Entity and version of a recorded receipt. -/
def Db.acknowledged (db : Db) (id : Uuid) : Option (Uuid × Int) :=
  (db.acknowledgements.find? id).map fun ack => (ack.entityUuid, ack.projectionVersion)

def Db.confirmedOf (db : Db) (entityUuid : Uuid) : Option Int :=
  (db.entityIndex.find? entityUuid).map EntityIndex.confirmedProjectionVersion

/-- What a change does to succeeded tasks, recorded receipts and confirmed versions. -/
inductive Confirmation (db next : Db) : Prop
  | quiet (settled : ∀ id, next.settled id = db.settled id)
      (acknowledged : ∀ id, next.acknowledged id = db.acknowledged id)
      (confirmed : ∀ e, next.confirmedOf e = db.confirmedOf e) : Confirmation db next
  | registered (e : Uuid) (fresh : db.versionOf e = none) (unconfirmed : db.confirmedOf e = none)
      (settled : ∀ id, next.settled id = db.settled id)
      (acknowledged : ∀ id, next.acknowledged id = db.acknowledged id)
      (confirmed : ∀ other, next.confirmedOf other =
        if e = other then some 0 else db.confirmedOf other) : Confirmation db next
  | recorded (id e : Uuid) (version confirmedVersion : Int) (fresh : db.acknowledged id = none)
      (known : db.confirmedOf e = some confirmedVersion)
      (settled : ∀ other, next.settled other =
        if other = id then some (e, version) else db.settled other)
      (acknowledged : ∀ other, next.acknowledged other =
        if other = id then some (e, version) else db.acknowledged other)
      (confirmed : ∀ other, next.confirmedOf other =
        if other = e then some (max confirmedVersion version) else db.confirmedOf other) :
      Confirmation db next

/-- A lease operation neither ends a success nor makes one. -/
theorem LeaseMove.settled {task next : ProjectionTask} (move : LeaseMove task next) :
    next.settled = task.settled := by
  rcases move with rfl | ⟨_, unfinished, pending⟩
  · rfl
  · have running : task.status ≠ .succeeded := by
      intro done
      rw [done] at unfinished
      cases unfinished
    rw [ProjectionTask.settled, ProjectionTask.settled, if_neg pending, if_neg running]

theorem Change.confirmation {label : Label codec} (change : Change codec db label next)
    (sound : Issued db) :
    Confirmation db next := by
  cases change with
  | same => exact .quiet (fun _ => rfl) (fun _ => rfl) (fun _ => rfl)
  | registered row unissued _ unconfirmed =>
    have fresh : row.entityUuid ∉ db.entityIndex.keys := fun known =>
      unissued (sound.entities _ known)
    have absent := (db.entityIndex.find?_eq_none _).mpr fresh
    refine .registered row.entityUuid ?_ ?_ (fun _ => rfl) (fun _ => rfl) fun other => ?_
    · simp only [Db.versionOf, absent, Option.map_none]
    · simp only [Db.confirmedOf, absent, Option.map_none]
    · simp only [Db.confirmedOf, db.entityIndex.find?_insert _ fresh]
      split <;> simp [unconfirmed]
  | attempted => exact .quiet (fun _ => rfl) (fun _ => rfl) (fun _ => rfl)
  | issued issue =>
    refine .quiet (fun id => ?_) (fun _ => rfl) fun e => ?_
    · simp only [Db.settled, issue.find?_task sound]
      split
      · rename_i here
        subst here
        have pending : issue.task.status = .pending := congrArg LeaseColumns.status issue.fresh
        rw [(db.tasks.find?_eq_none _).mpr (issue.newTask_key sound)]
        simp [ProjectionTask.settled, pending]
      · rfl
    · simp only [Db.confirmedOf, issue.find?_entity]
      split
      · rename_i here
        rw [here, issue.known]
        rfl
      · rfl
  | leased tasks moved =>
    exact .quiet (fun id => Table.bind_eq_of_rel (fun _ _ move => LeaseMove.settled move) (moved id))
      (fun _ => rfl) (fun _ => rfl)
  | acknowledged recording =>
    refine .recorded recording.receipt.projectionTaskId recording.receipt.entityUuid
      recording.receipt.projectionVersion recording.entity.confirmedProjectionVersion
      ?_ ?_ (fun other => ?_) (fun other => ?_) fun other => ?_
    · simp only [Db.acknowledged, recording.unacknowledged, Option.map_none]
    · simp only [Db.confirmedOf, recording.known, Option.map_some]
    · simp only [Db.settled, recording.find?_task]
      split
      · simp [ProjectionTask.settled, ProjectionTask.succeed, recording.sameEntity,
          recording.sameVersion]
      · rfl
    · simp only [Db.acknowledged, recording.find?_acknowledgement, eq_comm (a := other)]
      split <;> rfl
    · simp only [Db.confirmedOf, recording.find?_entity]
      split <;> rfl
  | delivered => exact .quiet (fun _ => rfl) (fun _ => rfl) (fun _ => rfl)
  | purged => exact .quiet (fun _ => rfl) (fun _ => rfl) (fun _ => rfl)

/-- Success and recorded receipts agree, and the confirmed version is the highest recorded. -/
structure Confirmed (db : Db) : Prop where
  agreed : ∀ id, db.settled id = db.acknowledged id
  bounded : ∀ id e version confirmed, db.acknowledged id = some (e, version) →
    db.confirmedOf e = some confirmed → version ≤ confirmed
  reached : ∀ e confirmed, db.confirmedOf e = some confirmed →
    confirmed = 0 ∨ ∃ id, db.acknowledged id = some (e, confirmed)

theorem confirmed_empty : Confirmed Db.empty := by
  constructor <;> simp [Db.settled, Db.acknowledged, Db.confirmedOf, Db.empty]

theorem settled_eq_some {id e : Uuid} {version : Int} : db.settled id = some (e, version) ↔
    ∃ task, db.tasks.find? id = some task ∧ task.status = .succeeded ∧ task.entityUuid = e ∧
      task.projectionVersion = version := by
  simp only [Db.settled, Option.bind_eq_some_iff, ProjectionTask.settled, Option.ite_none_right_eq_some,
    Option.some.injEq, Prod.mk.injEq]

/-- The entity of a succeeded task is registered and its version was issued. -/
theorem Versions.of_settled (held : Versions db) {id e : Uuid} {version : Int}
    (settled : db.settled id = some (e, version)) :
    ∃ issued, db.versionOf e = some issued ∧ 1 ≤ version ∧ version ≤ issued := by
  obtain ⟨task, found, _, rfl, rfl⟩ := settled_eq_some.mp settled
  exact held.within id task.identity (identityOf_eq_some.mpr ⟨task, found, rfl⟩)

/-- A recorded receipt stays. -/
theorem Confirmation.acknowledged_kept (step : Confirmation db next) {id : Uuid} {done : Uuid × Int}
    (recorded : db.acknowledged id = some done) : next.acknowledged id = some done := by
  cases step with
  | quiet _ same => rw [same, recorded]
  | registered _ _ _ _ same => rw [same, recorded]
  | recorded _ _ _ _ fresh _ _ same =>
    rw [same, if_neg, recorded]
    rintro rfl
    rw [fresh] at recorded
    cases recorded

theorem Confirmation.confirmed (step : Confirmation db next) (versions : Versions db)
    (held : Confirmed db) : Confirmed next := by
  obtain ⟨agreed, bounded, reached⟩ := held
  have kept : ∀ id done, db.acknowledged id = some done → next.acknowledged id = some done :=
    fun _ _ => step.acknowledged_kept
  cases step with
  | quiet settled acknowledged confirmed =>
    constructor <;> simp only [settled, acknowledged, confirmed] <;> assumption
  | registered e fresh _ settled acknowledged confirmed =>
    constructor
    · simpa only [settled, acknowledged] using agreed
    · intro id owner version current recorded known
      rw [acknowledged] at recorded
      rw [confirmed] at known
      split at known
      · rename_i here
        subst here
        obtain ⟨issued, found, _⟩ := versions.of_settled ((agreed id).trans recorded)
        rw [fresh] at found
        cases found
      · exact bounded id owner version current recorded known
    · intro other current known
      rw [confirmed] at known
      split at known
      · cases known
        exact .inl rfl
      · simpa only [acknowledged] using reached other current known
  | recorded id e version current fresh known settled acknowledged confirmed =>
    constructor
    · intro other
      rw [settled, acknowledged]
      split
      · rfl
      · exact agreed other
    · intro other owner recorded newer there here
      rw [acknowledged] at there
      rw [confirmed] at here
      split at there
      · cases there
        rw [if_pos rfl] at here
        cases here
        exact le_max_right _ _
      · split at here
        · rename_i same
          subst same
          cases here
          exact (bounded other owner recorded current there known).trans (le_max_left _ _)
        · exact bounded other owner recorded newer there here
    · intro owner newer here
      rw [confirmed] at here
      split at here
      · rename_i same
        subst same
        cases here
        rcases le_total version current with low | high
        · rw [max_eq_left low]
          -- An older version arrived late: the receipt that reached the maximum is still there.
          exact (reached owner current known).imp_right fun ⟨other, there⟩ => ⟨other, kept _ _ there⟩
        · rw [max_eq_right high]
          exact .inr ⟨id, by rw [acknowledged, if_pos rfl]⟩
      · exact (reached owner newer here).imp_right fun ⟨other, there⟩ => ⟨other, kept _ _ there⟩

/-- A task that has succeeded stays so. -/
theorem Confirmation.settled_kept (step : Confirmation db next) (held : Confirmed db) {id : Uuid}
    {done : Uuid × Int} (settled : db.settled id = some done) : next.settled id = some done := by
  cases step with
  | quiet same => rw [same, settled]
  | registered _ _ _ same => rw [same, settled]
  | recorded _ _ _ _ fresh _ same =>
    rw [same, if_neg, settled]
    rintro rfl
    rw [held.agreed, fresh] at settled
    cases settled

theorem run_confirmed {history : List (Event codec)}
    (run : (machine codec).Run Db.empty history db) : Issued db ∧ Versions db ∧ Confirmed db :=
  run_invariant (P := fun db => Versions db ∧ Confirmed db) ⟨versions_empty, confirmed_empty⟩
    (fun _ _ _ sound held change => ⟨(change.skeleton sound).versions held.1,
      (change.confirmation sound).confirmed held.1 held.2⟩) run

end Collector.Persistence.Projection
