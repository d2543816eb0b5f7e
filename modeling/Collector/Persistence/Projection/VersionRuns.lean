import Collector.Persistence.Projection.Confirmation

/-!
Versions over whole runs: what an entity's tasks and its confirmed version are in every state
that parsers, projectors, the reconciler and retention can reach, and what they become later.
-/

namespace Collector.Persistence.Projection
open Collector.Lib

variable {codec : Codec} {db next : Db}

section Replay

/-- What identifies a parse step. -/
structure ParseIdentity where
  fetchId : Uuid
  rawSha256 : String
  parserVersion : String
  entityUuid : Uuid
  targetCollection : String
  deriving DecidableEq

def ParseIdentity.key (codec : Codec) (identity : ParseIdentity) : String :=
  parseKey codec identity.fetchId identity.rawSha256 identity.parserVersion identity.entityUuid
    identity.targetCollection

def Call.parseIdentity : Call codec → Option ParseIdentity
  | .recordParseResult attempt ref options _ _ =>
    some ⟨ref.fetchId, attempt.rawSha256, attempt.parserVersion, ref.entityUuid,
      options.targetCollection⟩
  | _ => none

/-- An answered parse leaves a task under its key; it is new only if the key was not in use. -/
theorem parsed_eq_ok (sound : Issued db) {call : Call codec} {result : ParseResult}
    (answered : (machine codec).exec call db = .ok (.parsed result, next)) :
    ∃ identity, call.parseIdentity = some identity ∧
      (∃ task, next.identityOf result.task.taskId = some task ∧
        task.parseKey = identity.key codec) ∧
      ∀ row, taskByParseKey db (identity.key codec) = some row →
        result.created = false ∧ result.task = row := by
  cases call with
  | recordParseResult attempt ref options draws now =>
    obtain ⟨_, done, same⟩ := answer_eq_ok.mp answered
    cases same
    refine ⟨_, rfl, ?_⟩
    rcases recordParseResult_eq_ok sound done with
      ⟨task, found, again, rfl⟩ | ⟨issue, same, key, _, _, _, rfl⟩
    · obtain ⟨rfl, old⟩ := existingParseResult_eq_ok again
      obtain ⟨present, key⟩ := taskByParseKey_eq_some found
      refine ⟨⟨_, identityOf_eq_some.mpr ⟨_, present, rfl⟩, key⟩, fun row known => ⟨old, ?_⟩⟩
      exact Option.some.inj (found.symm.trans known)
    · refine ⟨⟨issue.task.identity, ?_, key⟩, fun row known => ?_⟩
      · refine identityOf_eq_some.mpr ⟨issue.task, ?_, rfl⟩
        rw [issue.find?_task sound, ← same, if_pos rfl]
      · cases (key ▸ issue.unused).symm.trans known
  | _ =>
    simp only [machine] at answered
    obtain ⟨_, _, same⟩ := answer_eq_ok.mp answered
    cases same

/-- Parse steps with one identity share one task, and only the first of them issues a version. -/
theorem parsed_once {history newer middle older : List (Event codec)} {first second : Call codec}
    {issued again : ParseResult}
    (run : (machine codec).Run Db.empty history db)
    (order : history = newer ++ ⟨second, .ok (.parsed again)⟩ ::
      (middle ++ ⟨first, .ok (.parsed issued)⟩ :: older))
    (same : first.parseIdentity = second.parseIdentity) :
    again.created = false ∧ again.task.taskId = issued.task.taskId := by
  subst order
  obtain ⟨after, prior, _⟩ := run.split
  cases prior with
  | answer prior answered =>
    obtain ⟨between, start, rest⟩ := prior.split
    obtain ⟨sound, versions, _⟩ := run_confirmed prior
    have soundBetween := (run_confirmed start).1
    cases start with
    | answer start initial =>
      obtain ⟨identity, called, ⟨task, known, key⟩, _⟩ :=
        parsed_eq_ok (run_confirmed start).1 initial
      have kept := (run_keeps soundBetween known
        (fun _ _ _ sound known change => (change.skeleton sound).identity_kept known) rest).2
      obtain ⟨row, found, located⟩ := taskByParseKey_of_identityOf versions kept
      obtain ⟨identity', repeated, _, replay⟩ := parsed_eq_ok sound answered
      cases called.symm.trans (same.trans repeated)
      obtain ⟨old, rfl⟩ := replay row (key ▸ found)
      exact ⟨old, located⟩

end Replay

section Confirmed

/-- The confirmed version of an entity only grows. -/
theorem Confirmation.confirmed_le (step : Confirmation db next) {e : Uuid} {version : Int}
    (known : ∃ current, db.confirmedOf e = some current ∧ version ≤ current) :
    ∃ current, next.confirmedOf e = some current ∧ version ≤ current := by
  obtain ⟨current, here, le⟩ := known
  cases step with
  | quiet _ _ confirmed => exact ⟨current, by rw [confirmed, here], le⟩
  | registered registered _ unconfirmed _ _ confirmed =>
    refine ⟨current, ?_, le⟩
    rw [confirmed, if_neg, here]
    rintro rfl
    rw [unconfirmed] at here
    cases here
  | recorded _ entity recorded before _ held _ _ confirmed =>
    rw [confirmed]
    split
    · rename_i same
      rw [same, held] at here
      cases here
      exact ⟨_, rfl, le_max_of_le_left le⟩
    · exact ⟨current, here, le⟩

/-- The versions of an entity's tasks. -/
def Db.versionsOf (db : Db) (entityUuid : Uuid) : List Int :=
  (db.tasks.rows.filter fun task => task.entityUuid = entityUuid).map
    ProjectionTask.projectionVersion

/-- The versions of an entity's acknowledged tasks. -/
def Db.acknowledgedVersions (db : Db) (entityUuid : Uuid) : List Int :=
  (db.tasks.rows.filter fun task => task.entityUuid = entityUuid ∧
    (db.acknowledgements.find? task.taskId).isSome).map ProjectionTask.projectionVersion

theorem Versions.nodup_versionsOf (held : Versions db) (e : Uuid) : (db.versionsOf e).Nodup := by
  have rows : db.tasks.rows.Nodup := List.Nodup.of_map _ db.tasks.nodup
  refine (rows.filter _).map_on ?_
  intro task present other also same
  simp only [List.mem_filter, decide_eq_true_eq] at present also
  apply db.tasks.eq_of_key_eq present.1 also.1
  exact held.unique _ _ _ _ (identityOf_eq_some.mpr ⟨task, db.tasks.find?_of_mem present.1, rfl⟩)
    (identityOf_eq_some.mpr ⟨other, db.tasks.find?_of_mem also.1, rfl⟩)
    (present.2.trans also.2.symm) same

theorem Versions.mem_versionsOf (held : Versions db) {e : Uuid} {issued : Int}
    (known : db.versionOf e = some issued) (version : Int) :
    version ∈ db.versionsOf e ↔ 1 ≤ version ∧ version ≤ issued := by
  simp only [Db.versionsOf, List.mem_map, List.mem_filter, decide_eq_true_eq]
  constructor
  · rintro ⟨task, ⟨present, rfl⟩, rfl⟩
    obtain ⟨current, found, bounds⟩ := held.within task.taskId task.identity
      (identityOf_eq_some.mpr ⟨task, db.tasks.find?_of_mem present, rfl⟩)
    cases found.symm.trans known
    exact bounds
  · rintro ⟨lower, upper⟩
    obtain ⟨id, task, found, owner, same⟩ := held.covered e issued known version lower upper
    obtain ⟨row, present, rfl⟩ := identityOf_eq_some.mp found
    exact ⟨row, ⟨((db.tasks.find?_eq_some _ _).mp present).1, owner⟩, same⟩

theorem Confirmed.mem_acknowledgedVersions (held : Confirmed db) (e : Uuid) (version : Int) :
    version ∈ db.acknowledgedVersions e ↔ ∃ id, db.acknowledged id = some (e, version) := by
  simp only [Db.acknowledgedVersions, List.mem_map, List.mem_filter, decide_eq_true_eq]
  constructor
  · rintro ⟨task, ⟨present, rfl, recorded⟩, rfl⟩
    obtain ⟨ack, found⟩ := Option.isSome_iff_exists.mp recorded
    have recorded : db.acknowledged task.taskId = some (ack.entityUuid, ack.projectionVersion) := by
      rw [Db.acknowledged, found, Option.map_some]
    obtain ⟨row, there, _, owner, same⟩ := settled_eq_some.mp ((held.agreed _).trans recorded)
    rw [db.tasks.find?_of_mem present] at there
    cases there
    exact ⟨task.taskId, owner ▸ same ▸ recorded⟩
  · rintro ⟨id, recorded⟩
    obtain ⟨task, found, _, owner, same⟩ := settled_eq_some.mp ((held.agreed id).trans recorded)
    obtain ⟨present, rfl⟩ := (db.tasks.find?_eq_some _ _).mp found
    refine ⟨task, ⟨present, owner, ?_⟩, same⟩
    obtain ⟨ack, there, _⟩ := Option.map_eq_some_iff.mp recorded
    rw [there]
    rfl

/-- The confirmed version is the highest acknowledged one, and zero before the first. -/
theorem Confirmed.eq_max (held : Confirmed db) (versions : Versions db) {e : Uuid} {confirmed : Int}
    (known : db.confirmedOf e = some confirmed) :
    confirmed = (db.acknowledgedVersions e).max?.getD 0 := by
  have bound : ∀ version ∈ db.acknowledgedVersions e, 1 ≤ version ∧ version ≤ confirmed := by
    intro version member
    obtain ⟨id, recorded⟩ := (held.mem_acknowledgedVersions e version).mp member
    obtain ⟨_, _, positive, _⟩ := versions.of_settled ((held.agreed id).trans recorded)
    exact ⟨positive, held.bounded id e version confirmed recorded known⟩
  cases recorded : db.acknowledgedVersions e with
  | nil =>
    rcases held.reached e confirmed known with zero | reached
    · exact zero
    · have member := (held.mem_acknowledgedVersions e confirmed).mpr reached
      rw [recorded] at member
      cases member
  | cons version rest =>
    have first := bound version (recorded ▸ List.mem_cons_self ..)
    have reached : confirmed ∈ db.acknowledgedVersions e := by
      rcases held.reached e confirmed known with zero | reached
      · omega
      · exact (held.mem_acknowledgedVersions e confirmed).mpr reached
    rw [← recorded, List.max?_eq_some_iff.mpr ⟨reached, fun v member => (bound v member).2⟩]
    rfl

theorem Confirmed.le_version (held : Confirmed db) (versions : Versions db) {e : Uuid}
    {confirmed issued : Int} (known : db.confirmedOf e = some confirmed)
    (counter : db.versionOf e = some issued) : confirmed ≤ issued := by
  rcases held.reached e confirmed known with zero | ⟨id, recorded⟩
  · have := versions.counted e issued counter
    omega
  · obtain ⟨current, found, _, upper⟩ := versions.of_settled ((held.agreed id).trans recorded)
    cases found.symm.trans counter
    exact upper

end Confirmed

/-- **Versions and confirmation.** In every reachable state the versions of an entity's tasks are
one up to its counter, each once; its confirmed version is the highest acknowledged one, is at
most the counter and never falls again; and a parse step that repeats an earlier one answers with
the task of that step instead of issuing a version. -/
theorem versions_and_confirmation {history : List (Event codec)}
    (run : (machine codec).Run Db.empty history db) :
    (∀ e entity, db.entityIndex.find? e = some entity →
      (db.versionsOf e).Nodup ∧
      (∀ version, version ∈ db.versionsOf e ↔
        1 ≤ version ∧ version ≤ entity.projectionVersion) ∧
      entity.confirmedProjectionVersion = (db.acknowledgedVersions e).max?.getD 0 ∧
      entity.confirmedProjectionVersion ≤ entity.projectionVersion ∧
      ∀ newer later, (machine codec).Run db newer later →
        ∃ entity', later.entityIndex.find? e = some entity' ∧
          entity.confirmedProjectionVersion ≤ entity'.confirmedProjectionVersion) ∧
    ∀ newer middle older first second issued again,
      history = newer ++ ⟨second, .ok (.parsed again)⟩ ::
        (middle ++ ⟨first, .ok (.parsed issued)⟩ :: older) →
      first.parseIdentity = second.parseIdentity →
      again.created = false ∧ again.task.taskId = issued.task.taskId := by
  obtain ⟨sound, versions, confirmed⟩ := run_confirmed run
  constructor
  · intro e entity found
    have counter : db.versionOf e = some entity.projectionVersion := by
      rw [Db.versionOf, found, Option.map_some]
    have current : db.confirmedOf e = some entity.confirmedProjectionVersion := by
      rw [Db.confirmedOf, found, Option.map_some]
    refine ⟨versions.nodup_versionsOf e, versions.mem_versionsOf counter,
      confirmed.eq_max versions current, confirmed.le_version versions current counter, ?_⟩
    intro newer later after
    obtain ⟨_, here, le⟩ := (run_keeps sound ⟨_, current, le_rfl⟩
      (fun _ _ _ sound known change => (change.confirmation sound).confirmed_le known) after).2
    obtain ⟨entity', found', rfl⟩ := Option.map_eq_some_iff.mp here
    exact ⟨entity', found', le⟩
  · intro newer middle older first second issued again order same
    exact parsed_once run order same

theorem versions_and_confirmation_parsed :
    ∃ entity, Sample.parsed.2.entityIndex.find? (Sample.id 1) = some entity ∧
      entity.projectionVersion = 1 ∧
      (∀ version, version ∈ Sample.parsed.2.versionsOf (Sample.id 1) ↔
        1 ≤ version ∧ version ≤ entity.projectionVersion) ∧
      entity.confirmedProjectionVersion ≤ entity.projectionVersion := by
  have counted : (Sample.parsed.2.entityIndex.find? (Sample.id 1)).map
      EntityIndex.projectionVersion = some 1 := by decide +kernel
  obtain ⟨entity, found, issued⟩ := Option.map_eq_some_iff.mp counted
  obtain ⟨_, versions, _, bounded, _⟩ :=
    (versions_and_confirmation Sample.run_parsed).1 _ entity found
  exact ⟨entity, found, issued, versions, bounded⟩

end Collector.Persistence.Projection
