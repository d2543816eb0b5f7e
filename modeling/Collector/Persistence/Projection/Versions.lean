import Collector.Persistence.Projection.Commit

/-!
Projection versions. An entity's tasks carry the versions one up to its counter, each once, and
a parse step owns at most one of them. Only two kinds of change touch what these facts are
about: the registration of an entity and the issue of a version.
-/

namespace Collector.Persistence.Projection
open Collector.Lib

variable {codec : Codec} {db next : Db}

def Db.identityOf (db : Db) (id : Uuid) : Option TaskIdentity :=
  (db.tasks.find? id).map ProjectionTask.identity

def Db.versionOf (db : Db) (entityUuid : Uuid) : Option Int :=
  (db.entityIndex.find? entityUuid).map EntityIndex.projectionVersion

/-- What a change does to the identities of tasks and to the counters of entities. -/
inductive Skeleton (codec : Codec) (db next : Db) : Prop
  | quiet (identities : ∀ id, next.identityOf id = db.identityOf id)
      (versions : ∀ e, next.versionOf e = db.versionOf e) : Skeleton codec db next
  | registered (e : Uuid) (fresh : db.versionOf e = none)
      (identities : ∀ id, next.identityOf id = db.identityOf id)
      (versions : ∀ other, next.versionOf other = if e = other then some 0 else db.versionOf other) :
      Skeleton codec db next
  | issued (issue : Issue codec db) (same : next = issue.next)
      (fresh : db.identityOf issue.task.taskId = none)
      (identities : ∀ id, next.identityOf id =
        if issue.task.taskId = id then some issue.task.identity else db.identityOf id)
      (current : db.versionOf issue.task.entityUuid = some issue.entity.projectionVersion)
      (versions : ∀ e, next.versionOf e = if e = issue.task.entityUuid
        then some issue.task.projectionVersion else db.versionOf e) : Skeleton codec db next

theorem LeaseMove.identity {task next : ProjectionTask} (move : LeaseMove task next) :
    next.identity = task.identity := by
  rcases move with rfl | ⟨same, _⟩
  · rfl
  · exact same

theorem Change.skeleton {label : Label codec} (change : Change codec db label next)
    (sound : Issued db) :
    Skeleton codec db next := by
  cases change with
  | same => exact .quiet (fun _ => rfl) (fun _ => rfl)
  | registered row unissued unversioned =>
    have fresh : row.entityUuid ∉ db.entityIndex.keys := fun known =>
      unissued (sound.entities _ known)
    refine .registered row.entityUuid ?_ (fun _ => rfl) fun other => ?_
    · simp only [Db.versionOf, (db.entityIndex.find?_eq_none _).mpr fresh, Option.map_none]
    · simp only [Db.versionOf, db.entityIndex.find?_insert _ fresh]
      split <;> simp [unversioned]
  | attempted => exact .quiet (fun _ => rfl) (fun _ => rfl)
  | issued issue =>
    refine .issued issue rfl ?_ (fun id => ?_) ?_ fun e => ?_
    · simp only [Db.identityOf, (db.tasks.find?_eq_none _).mpr (issue.newTask_key sound),
        Option.map_none]
    · simp only [Db.identityOf, issue.find?_task sound]
      split <;> rfl
    · simp only [Db.versionOf, issue.known, Option.map_some]
    · simp only [Db.versionOf, issue.find?_entity]
      split <;> rfl
  | leased tasks moved =>
    exact .quiet (fun id => Table.map_eq_of_rel (fun _ _ move => LeaseMove.identity move) (moved id))
      fun _ => rfl
  | acknowledged recording =>
    refine .quiet (fun id => ?_) fun e => ?_
    · simp only [Db.identityOf, recording.find?_task]
      split
      · rename_i here
        rw [here, recording.found]
        rfl
      · rfl
    · simp only [Db.versionOf, recording.find?_entity]
      split
      · rename_i here
        rw [here, recording.known]
        rfl
      · rfl
  | delivered => exact .quiet (fun _ => rfl) (fun _ => rfl)
  | purged => exact .quiet (fun _ => rfl) (fun _ => rfl)

/-- The versions of an entity's tasks are one up to its counter, each of them once, and two
tasks never stand for one parse step. -/
structure Versions (db : Db) : Prop where
  counted : ∀ e version, db.versionOf e = some version → 0 ≤ version
  within : ∀ id task, db.identityOf id = some task → ∃ version,
    db.versionOf task.entityUuid = some version ∧ 1 ≤ task.projectionVersion ∧
      task.projectionVersion ≤ version
  covered : ∀ e version, db.versionOf e = some version → ∀ v, 1 ≤ v → v ≤ version →
    ∃ id task, db.identityOf id = some task ∧ task.entityUuid = e ∧ task.projectionVersion = v
  unique : ∀ i j a b, db.identityOf i = some a → db.identityOf j = some b →
    a.entityUuid = b.entityUuid → a.projectionVersion = b.projectionVersion → i = j
  keyed : ∀ i j a b, db.identityOf i = some a → db.identityOf j = some b →
    a.parseKey = b.parseKey → i = j

theorem versions_empty : Versions Db.empty := by
  constructor <;> simp [Db.identityOf, Db.versionOf, Db.empty]

theorem identityOf_eq_some {id : Uuid} {identity : TaskIdentity} :
    db.identityOf id = some identity ↔
      ∃ task, db.tasks.find? id = some task ∧ task.identity = identity := by
  simp only [Db.identityOf, Option.map_eq_some_iff]

/-- No task in the table has a parse key that the lookup did not find. -/
theorem parseKey_unused {key : String} (unused : taskByParseKey db key = none) {id : Uuid}
    {task : TaskIdentity} (known : db.identityOf id = some task) : task.parseKey ≠ key := by
  obtain ⟨row, found, rfl⟩ := identityOf_eq_some.mp known
  have present := ((db.tasks.find?_eq_some _ _).mp found).1
  change row.parseKey ≠ key
  simpa using List.find?_eq_none.mp unused row present

theorem taskByParseKey_eq_some {key : String} {row : ProjectionTask}
    (found : taskByParseKey db key = some row) :
    db.tasks.find? row.taskId = some row ∧ row.parseKey = key :=
  ⟨db.tasks.find?_of_mem (List.mem_of_find?_eq_some found), by simpa using List.find?_some found⟩

/-- The task with a parse key that is in use is the one the lookup finds. -/
theorem taskByParseKey_of_identityOf (versions : Versions db) {id : Uuid} {task : TaskIdentity}
    (known : db.identityOf id = some task) :
    ∃ row, taskByParseKey db task.parseKey = some row ∧ row.taskId = id := by
  cases found : taskByParseKey db task.parseKey with
  | none => exact absurd rfl (parseKey_unused found known)
  | some row =>
    obtain ⟨present, same⟩ := taskByParseKey_eq_some found
    have here : db.identityOf row.taskId = some row.identity :=
      identityOf_eq_some.mpr ⟨row, present, rfl⟩
    exact ⟨row, rfl, versions.keyed _ _ _ _ here known same⟩

theorem Versions.registered (held : Versions db) {e : Uuid} (fresh : db.versionOf e = none)
    (identities : ∀ id, next.identityOf id = db.identityOf id)
    (versions : ∀ other, next.versionOf other = if e = other then some 0 else db.versionOf other) :
    Versions next where
  counted other version known := by
    rw [versions] at known
    split at known
    · cases known
      exact le_rfl
    · exact held.counted other version known
  within id task known := by
    rw [identities] at known
    obtain ⟨version, found, bounds⟩ := held.within id task known
    refine ⟨version, ?_, bounds⟩
    rw [versions, if_neg, found]
    rintro rfl
    rw [fresh] at found
    cases found
  covered other version known v lower upper := by
    rw [versions] at known
    split at known
    · cases known
      omega
    · simpa only [identities] using held.covered other version known v lower upper
  unique := by simpa only [identities] using held.unique
  keyed := by simpa only [identities] using held.keyed

section Issued
variable {issue : Issue codec db}
  (identities : ∀ id, next.identityOf id =
    if issue.task.taskId = id then some issue.task.identity else db.identityOf id)
include identities

theorem identityOf_issued_of_known (fresh : db.identityOf issue.task.taskId = none) {id : Uuid}
    {task : TaskIdentity} (known : db.identityOf id = some task) :
    next.identityOf id = some task := by
  rw [identities, if_neg, known]
  rintro rfl
  rw [fresh] at known
  cases known

/-- What tells the tasks before apart, and the issued one from them, tells the tasks apart. -/
theorem eq_of_issued {β : Type} {f : TaskIdentity → β}
    (old : ∀ i j a b, db.identityOf i = some a → db.identityOf j = some b → f a = f b → i = j)
    (apart : ∀ id task, db.identityOf id = some task → f task ≠ f issue.task.identity)
    {i j : Uuid} {a b : TaskIdentity} (first : next.identityOf i = some a)
    (second : next.identityOf j = some b) (same : f a = f b) : i = j := by
  rw [identities] at first second
  split at first <;> split at second
  · rename_i here there
    exact here.symm.trans there
  · cases first
    exact absurd same.symm (apart j b second)
  · cases second
    exact absurd same (apart i a first)
  · exact old i j a b first second same

theorem Versions.issued (held : Versions db) (fresh : db.identityOf issue.task.taskId = none)
    (current : db.versionOf issue.task.entityUuid = some issue.entity.projectionVersion)
    (versions : ∀ e, next.versionOf e = if e = issue.task.entityUuid
      then some issue.task.projectionVersion else db.versionOf e) : Versions next := by
  have step := issue.version
  have counter := held.counted _ _ current
  constructor
  · intro e version known
    rw [versions] at known
    split at known
    · cases known
      omega
    · exact held.counted e version known
  · intro id task known
    rw [identities] at known
    split at known
    · cases known
      refine ⟨issue.task.projectionVersion, ?_, ?_, ?_⟩
      · rw [versions]
        exact if_pos rfl
      · change 1 ≤ issue.task.projectionVersion
        omega
      · exact le_rfl
    · obtain ⟨version, found, lower, upper⟩ := held.within id task known
      rw [versions]
      split
      · rename_i here
        rw [here, current] at found
        cases found
        exact ⟨_, rfl, lower, by omega⟩
      · exact ⟨version, found, lower, upper⟩
  · intro e version known v lower upper
    rw [versions] at known
    split at known
    · rename_i here
      cases known
      by_cases last : v = issue.task.projectionVersion
      · exact ⟨issue.task.taskId, issue.task.identity, by rw [identities, if_pos rfl], here.symm,
          last.symm⟩
      · obtain ⟨id, task, found, rest⟩ := held.covered _ _ (here ▸ current) v lower (by omega)
        exact ⟨id, task, identityOf_issued_of_known identities fresh found, rest⟩
    · obtain ⟨id, task, found, rest⟩ := held.covered e version known v lower upper
      exact ⟨id, task, identityOf_issued_of_known identities fresh found, rest⟩
  · -- The version just issued is above every version the entity had.
    intro i j a b first second owner same
    refine eq_of_issued identities
      (f := fun task : TaskIdentity => (task.entityUuid, task.projectionVersion)) ?_ ?_ first second
      (Prod.ext owner same)
    · intro i j a b first second same
      exact held.unique i j a b first second (Prod.mk.inj same).1 (Prod.mk.inj same).2
    · intro id task known same
      obtain ⟨owner, last⟩ := Prod.mk.inj same
      obtain ⟨version, found, _, upper⟩ := held.within id task known
      rw [show task.entityUuid = issue.task.entityUuid from owner, current] at found
      cases found
      have : task.projectionVersion = issue.task.projectionVersion := last
      omega
  · intro i j a b first second same
    exact eq_of_issued identities held.keyed (fun _ _ known => parseKey_unused issue.unused known)
      first second same

end Issued

theorem Skeleton.versions (skeleton : Skeleton codec db next) (held : Versions db) :
    Versions next := by
  cases skeleton with
  | quiet identities versions =>
    obtain ⟨counted, within, covered, unique, keyed⟩ := held
    constructor <;> simp only [identities, versions] <;> assumption
  | registered e fresh identities versions => exact held.registered fresh identities versions
  | issued issue _ fresh identities current versions =>
    exact held.issued identities fresh current versions

/-- A task keeps its identity. -/
theorem Skeleton.identity_kept (skeleton : Skeleton codec db next) {id : Uuid} {task : TaskIdentity}
    (known : db.identityOf id = some task) : next.identityOf id = some task := by
  cases skeleton with
  | quiet identities => rw [identities, known]
  | registered _ _ identities => rw [identities, known]
  | issued issue _ fresh identities => exact identityOf_issued_of_known identities fresh known

end Collector.Persistence.Projection
