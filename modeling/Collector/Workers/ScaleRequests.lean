import Collector.Workers.ScaleVerified

/-!
`request_scale` under the discipline of scale commands. From the moment it holds the pool row no
one else can add a command of the role, so when the supersede statement has visited what its
snapshot found, nothing of the role is active any more and the new command is the only one.
-/

namespace Collector.Workers
open Collector.Lib Collector.Persistence Collector.Persistence.Pools

variable {queue lock task : Type}

/-- Where a creating request stands: the pool row is held and written, the commands of `done`
are held and superseded, and what is active of the role is done or still to visit. -/
structure Superseding (request : ScaleRequest) (pool : WorkerPool) (done visit : List Uuid)
    (held : List (FleetLock lock × LockMode)) (pending : Fleet queue → Fleet queue)
    (c : Fleet queue) : Prop where
  locked : (.pool request.role, .update) ∈ held
  known : c.pools.find? request.role = some pool
  pools : ∀ s, (pending s).pools = s.pools.put (request.desired pool)
  holds : ∀ i ∈ done, (.command i, .noKeyUpdate) ∈ held
  active : ∀ i ∈ done, ∃ row, c.commands.find? i = some row ∧ row.status.terminal = false
  commands : ∀ s i, (pending s).commands.find? i =
    if i ∈ done then (s.commands.find? i).map (.superseded request.now) else s.commands.find? i
  covered : ∀ i row, c.commands.find? i = some row → row.role = request.role →
    row.status.terminal = false → i ∈ done ∨ i ∈ visit

namespace Superseding
variable {request : ScaleRequest} {pool : WorkerPool} {done visit : List Uuid}
  {held more : List (FleetLock lock × LockMode)} {pending : Fleet queue → Fleet queue} {c c' : Fleet queue}

theorem move (at_ : Superseding request pool done visit held pending c) (sub : held ⊆ more)
    (moved : ScaleRely more c c') : Superseding request pool done visit more pending c' where
  locked := sub at_.locked
  known := pool_kept (sub at_.locked) rfl at_.known moved
  pools := at_.pools
  holds i member := sub (at_.holds i member)
  active := by
    intro i member
    rw [moved.command i .noKeyUpdate (sub (at_.holds i member)) rfl]
    exact at_.active i member
  commands := at_.commands
  covered := by
    intro i row found role active
    -- Nobody else adds a command of the role, and none becomes active again.
    obtain ⟨earlier, before⟩ := moved.created request.role (sub at_.locked) i row found role
    obtain ⟨later, found', goes⟩ := moved.commands i earlier before
    rw [found] at found'
    cases found'
    exact at_.covered i earlier before (goes.role.symm.trans role) (goes.active active)

theorem congr {next : Fleet queue → Fleet queue} (at_ : Superseding request pool done visit held pending c)
    (same : ∀ s, desiredState (next s) = desiredState (pending s)) :
    Superseding request pool done visit held next c where
  locked := at_.locked
  known := at_.known
  pools s := (pools_of_same (same s)).trans (at_.pools s)
  holds := at_.holds
  active := at_.active
  commands s i := by rw [commands_of_same (same s), at_.commands]
  covered := at_.covered

/-- A visited command that no longer matches is done with. -/
theorem leave {i : Uuid} {rest : List Uuid}
    (at_ : Superseding request pool done (i :: rest) held pending c)
    (fails : activeCommand request.role (pending c) i = false) :
    Superseding request pool done rest held pending c where
  locked := at_.locked
  known := at_.known
  pools := at_.pools
  holds := at_.holds
  active := at_.active
  commands := at_.commands
  covered := by
    intro j row found role active
    rcases at_.covered j row found role active with here | there
    · exact .inl here
    rcases List.mem_cons.mp there with rfl | there
    · by_cases here : j ∈ done
      · exact .inl here
      · rw [activeCommand, at_.commands, if_neg here, found] at fails
        simp [role, active] at fails
    · exact .inr there

theorem write {i : Uuid} {rest : List Uuid}
    (at_ : Superseding request pool done (i :: rest) held pending c)
    (locked : (.command i, .noKeyUpdate) ∈ held)
    (matched : activeCommand request.role (pending c) i = true) :
    Superseding request pool (i :: done) rest held (supersede request.now i ∘ pending) c where
  locked := at_.locked
  known := at_.known
  pools := at_.pools
  holds := by
    intro j member
    rcases List.mem_cons.mp member with rfl | member
    · exact locked
    · exact at_.holds j member
  active := by
    intro j member
    rcases List.mem_cons.mp member with rfl | member
    · by_cases already : j ∈ done
      · exact at_.active j already
      · rw [activeCommand, at_.commands, if_neg already] at matched
        obtain ⟨row, found, facts⟩ := (Option.any_eq_true _ _).mp matched
        rw [Bool.and_eq_true, Bool.not_eq_true'] at facts
        exact ⟨row, found, facts.2⟩
    · exact at_.active j member
  commands := by
    intro s j
    have written : ((supersede request.now i ∘ pending) s).commands.find? j =
        if j = i then ((pending s).commands.find? j).map (.superseded request.now)
        else (pending s).commands.find? j :=
      Table.find?_update_key (pending s).commands i (.superseded request.now) (fun _ => rfl) j
    rw [written, at_.commands]
    by_cases same : j = i
    · subst same
      rw [if_pos rfl, if_pos List.mem_cons_self]
      split
      · cases s.commands.find? j <;> rfl
      · rfl
    · rw [if_neg same]
      simp only [List.mem_cons, same, false_or]
  covered := by
    intro j row found role active
    rcases at_.covered j row found role active with here | there
    · exact .inl (List.mem_cons_of_mem _ here)
    rcases List.mem_cons.mp there with rfl | there
    · exact .inl List.mem_cons_self
    · exact .inr there

end Superseding

section Creation
variable {request : ScaleRequest} {pool : WorkerPool} {row : ScaleCommand} {done : List Uuid}
  {held : List (FleetLock lock × LockMode)} {pending : Fleet queue → Fleet queue} {c : Fleet queue}

/-- The end of a creating request, with everything it holds. -/
structure Creating (request : ScaleRequest) (pool : WorkerPool) (row : ScaleCommand)
    (done : List Uuid) (held : List (FleetLock lock × LockMode)) (pending : Fleet queue → Fleet queue)
    (c : Fleet queue) : Prop where
  superseding : Superseding request pool done [] held pending c
  expected : pool.revision = request.expectedRevision
  idLocked : (.command row.commandId, .update) ∈ held
  keyLocked : (.commandKey row.idempotencyKey, .update) ∈ held
  fresh : c.commands.find? row.commandId = none
  unused : ∀ i other, c.commands.find? i = some other → other.idempotencyKey ≠ row.idempotencyKey
  role : row.role = request.role
  key : row.idempotencyKey = request.idempotencyKey
  asked : row.expectedPoolRevision = request.expectedRevision
  applied : row.appliedPoolRevision = pool.revision + 1

namespace Creating

theorem find? (at_ : Creating request pool row done held pending c) (j : Uuid) :
    (Fleet.addCommand row (pending c)).commands.find? j =
      if row.commandId = j then some row
      else if j ∈ done then (c.commands.find? j).map (.superseded request.now) else c.commands.find? j := by
  have absent : (pending c).commands.find? row.commandId = none := by
    rw [at_.superseding.commands, at_.fresh]
    split <;> rfl
  have added := (pending c).commands.find?_insert row ((Table.find?_eq_none _ _).mp absent) j
  rwa [at_.superseding.commands] at added

/-- A command of the new table is the new one, or continues one of the old table; if it is
active then it was not superseded. -/
theorem earlier (at_ : Creating request pool row done held pending c) {j : Uuid} {b : ScaleCommand}
    (found : (Fleet.addCommand row (pending c)).commands.find? j = some b) :
    (row.commandId = j ∧ row = b) ∨ ∃ a, c.commands.find? j = some a ∧ Continues a b ∧
      (b.status.terminal = false → b.role ≠ request.role) := by
  rw [at_.find?] at found
  split at found
  · rename_i same
    cases found
    exact .inl ⟨same, rfl⟩
  split at found
  · rename_i member
    obtain ⟨a, known, active⟩ := at_.superseding.active j member
    rw [known] at found
    cases found
    refine .inr ⟨a, known, ⟨rfl, rfl, rfl, rfl, fun closed => absurd closed (by simp [active])⟩, ?_⟩
    intro alive
    cases alive
  · rename_i outside
    refine .inr ⟨b, found, .refl b, fun alive role => ?_⟩
    rcases at_.superseding.covered j b found role alive with inside | visit
    · exact outside inside
    · cases visit

theorem raised (at_ : Creating request pool row done held pending c) :
    (Fleet.addCommand row (pending c)).pools.find? request.role = some (request.desired pool) := by
  change (pending c).pools.find? request.role = _
  rw [at_.superseding.pools]
  have named : pool.role = request.role := role_of_find? at_.superseding.known
  exact find?_setPool at_.superseding.known named

theorem elsewhere (at_ : Creating request pool row done held pending c) {name : WorkerRole}
    (other : name ≠ request.role) :
    (Fleet.addCommand row (pending c)).pools.find? name = c.pools.find? name := by
  change (pending c).pools.find? name = _
  rw [at_.superseding.pools]
  have named : pool.role = request.role := role_of_find? at_.superseding.known
  exact Table.find?_put_of_ne _ _ (named ▸ other)

theorem grows (at_ : Creating request pool row done held pending c) (name : WorkerRole)
    (old : WorkerPool) (found : c.pools.find? name = some old) :
    ∃ later, (Fleet.addCommand row (pending c)).pools.find? name = some later ∧
      old.revision ≤ later.revision := by
  by_cases same : name = request.role
  · rw [same, at_.superseding.known] at found
    cases found
    exact ⟨_, same ▸ at_.raised, Int.le.intro 1 rfl⟩
  · exact ⟨old, (at_.elsewhere same).trans found, le_rfl⟩

/-- A command of the role that was there applies no later revision than the pool had. -/
theorem older (at_ : Creating request pool row done held pending c) (valid : ScaleInv c) {j : Uuid}
    {a : ScaleCommand} (found : c.commands.find? j = some a) (role : a.role = request.role) :
    a.expectedPoolRevision < request.expectedRevision := by
  obtain ⟨next, known, looked, bound⟩ := valid.applied j a found
  rw [role, at_.superseding.known] at looked
  cases looked
  have revision := at_.expected
  omega

theorem inv (at_ : Creating request pool row done held pending c) (valid : ScaleInv c) :
    ScaleInv (Fleet.addCommand row (pending c)) where
  single := by
    intro i j a b first second role aliveA aliveB
    rcases at_.earlier first with ⟨rfl, rfl⟩ | ⟨a', foundA, goesA, awayA⟩
    · rcases at_.earlier second with ⟨same, _⟩ | ⟨b', _, _, awayB⟩
      · exact same
      · exact absurd (role.symm.trans at_.role) (awayB aliveB)
    · rcases at_.earlier second with ⟨rfl, rfl⟩ | ⟨b', foundB, goesB, _⟩
      · exact absurd (role.trans at_.role) (awayA aliveA)
      · exact valid.single i j a' b' foundA foundB (goesA.role.symm.trans (role.trans goesB.role))
          (goesA.active aliveA) (goesB.active aliveB)
  keys := by
    intro i j a b first second key
    rcases at_.earlier first with ⟨rfl, rfl⟩ | ⟨a', foundA, goesA, _⟩
    · rcases at_.earlier second with ⟨same, _⟩ | ⟨b', foundB, goesB, _⟩
      · exact same
      · exact absurd (goesB.key.symm.trans key.symm) (at_.unused j b' foundB)
    · rcases at_.earlier second with ⟨rfl, rfl⟩ | ⟨b', foundB, goesB, _⟩
      · exact absurd (goesA.key.symm.trans key) (at_.unused i a' foundA)
      · exact valid.keys i j a' b' foundA foundB (goesA.key.symm.trans (key.trans goesB.key))
  revisions := by
    intro i j a b first second role expected
    rcases at_.earlier first with ⟨rfl, rfl⟩ | ⟨a', foundA, goesA, _⟩
    · rcases at_.earlier second with ⟨same, _⟩ | ⟨b', foundB, goesB, _⟩
      · exact same
      · have behind := at_.older valid foundB (goesB.role.symm.trans (role.symm.trans at_.role))
        rw [← goesB.expected, ← expected, at_.asked] at behind
        exact absurd behind (lt_irrefl _)
    · rcases at_.earlier second with ⟨rfl, rfl⟩ | ⟨b', foundB, goesB, _⟩
      · have behind := at_.older valid foundA (goesA.role.symm.trans (role.trans at_.role))
        rw [← goesA.expected, expected, at_.asked] at behind
        exact absurd behind (lt_irrefl _)
      · exact valid.revisions i j a' b' foundA foundB (goesA.role.symm.trans (role.trans goesB.role))
          (goesA.expected.symm.trans (expected.trans goesB.expected))
  applied := by
    intro i a found
    rcases at_.earlier found with ⟨_, rfl⟩ | ⟨a', found, goes, _⟩
    · refine ⟨by rw [at_.applied, at_.asked, at_.expected], request.desired pool, ?_, ?_⟩
      · rw [at_.role]
        exact at_.raised
      · exact le_of_eq at_.applied
    · obtain ⟨next, old, looked, bound⟩ := valid.applied i a' found
      obtain ⟨later, looked, up⟩ := at_.grows a'.role old looked
      refine ⟨by rw [goes.applied, goes.expected, next], later, goes.role ▸ looked, ?_⟩
      rw [goes.applied]
      exact bound.trans up

theorem rely (at_ : Creating request pool row done held pending c)
    {theirs : List (FleetLock lock × LockMode)} (apart : Apart held theirs) :
    ScaleRely theirs c (Fleet.addCommand row (pending c)) where
  pools := at_.grows
  commands := by
    intro j a found
    rw [at_.find?, if_neg]
    · split
      · rename_i member
        obtain ⟨a', known, active⟩ := at_.superseding.active j member
        rw [found] at known
        cases known
        rw [found]
        exact ⟨_, rfl, rfl, rfl, rfl, rfl, fun closed => absurd closed (by simp [active])⟩
      · exact ⟨a, found, .refl a⟩
    · rintro rfl
      rw [at_.fresh] at found
      cases found
  pool := by
    intro name m member conflict
    apply at_.elsewhere
    rintro rfl
    exact not_apart_of_writer at_.superseding.locked member (.inr rfl) conflict apart
  command := by
    intro j m member conflict
    rw [at_.find?, if_neg, if_neg]
    · intro inside
      exact not_apart_of_writer (at_.superseding.holds j inside) member (.inl rfl) conflict apart
    · rintro rfl
      exact not_apart_of_writer at_.idLocked member (.inr rfl) conflict apart
  created := by
    intro name member j a found role
    rcases at_.earlier found with ⟨_, rfl⟩ | ⟨a', found, _⟩
    · rw [at_.role] at role
      subst role
      exact absurd apart (not_apart_of_writer at_.superseding.locked member (.inr rfl) rfl)
    · exact ⟨a', found⟩
  inserted := by
    intro key member j a found same
    rcases at_.earlier found with ⟨_, rfl⟩ | ⟨a', found, _⟩
    · subst same
      exact absurd apart (not_apart_of_writer at_.keyLocked member (.inr rfl) rfl)
    · exact ⟨a', found⟩

theorem ends (at_ : Creating request pool row done held pending c) (valid : ScaleInv c) :
    (scaling queue lock).Ends (ScaleStep (.requestScale request : FleetCall queue lock task))
      (.ok (.command row)) held (Fleet.addCommand row ∘ pending) c := by
  refine ⟨at_.inv valid, fun theirs apart => at_.rely apart, ?_⟩
  intro asked answered call outcome
  cases call
  cases outcome
  refine .inl ⟨at_.fresh, ?_, at_.key, at_.role, at_.asked, pool, request.desired pool,
    at_.superseding.known, at_.raised, rfl, at_.applied⟩
  change (Fleet.addCommand row (pending c)).commands.find? row.commandId = some row
  rw [at_.find?, if_pos rfl]

end Creating
end Creation

theorem findCommand_some {key : String} {c : Fleet queue} {row : ScaleCommand}
    (found : findCommand key c = some row) :
    c.commands.find? row.commandId = some row ∧ row.idempotencyKey = key := by
  refine ⟨c.commands.find?_of_mem (List.mem_of_find?_eq_some found), ?_⟩
  simpa using List.find?_some found

theorem findCommand_none {key : String} {c : Fleet queue} (absent : findCommand key c = none)
    {i : Uuid} {row : ScaleCommand} (found : c.commands.find? i = some row) :
    row.idempotencyKey ≠ key := by
  have member := ((c.commands.find?_eq_some i row).mp found).1
  simpa using List.find?_eq_none.mp absent row member

/-- A request that found its key answers with the stored command and writes nothing. -/
theorem ends_of_returned {request : ScaleRequest} {held : List (FleetLock lock × LockMode)}
    {c₀ c : Fleet queue} {row : ScaleCommand} (valid : ScaleInv c)
    (found : findCommand request.idempotencyKey c₀ = some row)
    (moved : (scaling queue lock).rely [] c₀ c) :
    (scaling queue lock).Ends (ScaleStep (.requestScale request : FleetCall queue lock task))
      (.ok (.command row)) held id c := by
  obtain ⟨stored, key⟩ := findCommand_some found
  obtain ⟨later, stored, goes⟩ := moved.commands _ _ stored
  refine ⟨valid, fun theirs _ => .refl theirs c, ?_⟩
  intro asked answered call outcome
  cases call
  cases outcome
  exact .inr ⟨later, stored, goes.key.trans key⟩

/-- The insertion of the command, once everything active of the role is superseded. -/
theorem wp_insertCommand {request : ScaleRequest} {pool : WorkerPool} {done : List Uuid}
    {held : List (FleetLock lock × LockMode)} {pending : Fleet queue → Fleet queue} {c : Fleet queue}
    (at_ : Superseding request pool done [] held pending c)
    (expected : pool.revision = request.expectedRevision) (audit : AuditRow) :
    (scaling queue lock).wp (fun r held pending c => (scaling queue lock).Ends
      (ScaleStep (.requestScale request : FleetCall queue lock task)) (r.map .command) held pending c)
      (do
        let command := request.command (request.desired pool) audit
        .ensure command.admissible (.integrityError "scale_commands")
        .insertUnique (.command command.commandId)
          (fun c => (c.commands.find? command.commandId).isSome) (.integrityError "scale_commands")
        .insertUnique (.commandKey command.idempotencyKey)
          (fun c => (findCommand command.idempotencyKey c).isSome) (.integrityError "scale_commands")
        .modify (Fleet.addCommand command)
        return command) held pending c := by
  rw [Discipline.wp_ensure]
  refine ⟨fun _ => ?_, fun _ => scale_refused _ _ _ _⟩
  apply Discipline.wp_insertUnique
  · exact fun held c _ _ => scale_refused _ held _ c
  intro c₁ c₂ _ _ moved₁ moved₂ freeId
  apply Discipline.wp_insertUnique
  · exact fun held c _ _ => scale_refused _ held _ c
  intro c₃ c₄ _ _ moved₃ moved₄ freeKey
  rw [Discipline.wp_modify]
  intro c₅ valid₅ moved₅
  have at₁ := at_.move (List.Subset.refl _) moved₁
  have at₂ := at₁.move (List.subset_cons_self _ _) moved₂
  have at₃ := at₂.move (List.Subset.refl _) moved₃
  have at₅ := at₃.move (List.subset_cons_self _ _) (moved₄.trans moved₅)
  -- The id stays free from the first index entry on, the key from the second on.
  have fresh : c₅.commands.find? request.commandId = none := by
    have since : ScaleRely ((.command request.commandId, .update) :: held) c₁ c₅ :=
      (moved₂.trans moved₃).trans ((moved₄.trans moved₅).mono (List.subset_cons_self _ _))
    rw [since.command request.commandId .update List.mem_cons_self rfl]
    have absent : (pending c₁).commands.find? request.commandId = none := by
      simpa [ScaleRequest.command] using freeId
    rw [at₁.commands] at absent
    split at absent
    · simpa using absent
    · exact absent
  have unused : ∀ i other, c₅.commands.find? i = some other →
      other.idempotencyKey ≠ request.idempotencyKey := by
    intro i other found same
    obtain ⟨earlier, before⟩ := (moved₄.trans moved₅).inserted request.idempotencyKey List.mem_cons_self
      i other found same
    obtain ⟨later, found', goes⟩ := (moved₄.trans moved₅).commands i earlier before
    rw [found] at found'
    cases found'
    have absent : findCommand request.idempotencyKey (pending c₃) = none := by
      simpa [ScaleRequest.command] using freeKey
    have listed := at₃.commands c₃ i
    rw [before] at listed
    split at listed
    · exact findCommand_none absent listed (goes.key.symm.trans same)
    · exact findCommand_none absent listed (goes.key.symm.trans same)
  have creating : Creating request pool (request.command (request.desired pool) audit) done
      ((.commandKey request.idempotencyKey, .update) :: (.command request.commandId, .update) :: held)
      pending c₅ :=
    ⟨at₅, expected, List.mem_cons_of_mem _ List.mem_cons_self, List.mem_cons_self, fresh, unused, rfl,
      rfl, rfl, rfl⟩
  exact creating.ends valid₅

theorem createCommand_scaling {request : ScaleRequest} {pool : WorkerPool}
    {held : List (FleetLock lock × LockMode)} {c : Fleet queue}
    (locked : (.pool request.role, .update) ∈ held)
    (known : c.pools.find? request.role = some pool)
    (expected : pool.revision = request.expectedRevision) :
    (scaling queue lock).wp (fun r held pending c => (scaling queue lock).Ends
      (ScaleStep (.requestScale request : FleetCall queue lock task)) (r.map .command) held pending c)
      (createCommand request pool) held id c := by
  unfold createCommand
  rw [Discipline.wp_ensure]
  refine ⟨fun _ => ?_, fun _ => scale_refused _ _ _ _⟩
  rw [Discipline.wp_ensure]
  refine ⟨fun _ => ?_, fun _ => scale_refused _ _ _ _⟩
  rw [Discipline.wp_modify]
  intro c₁ valid₁ moved₁
  rw [Discipline.wp_bind, supersedeActive, Discipline.wp_view]
  intro c₂ valid₂ moved₂
  have start : Superseding request pool []
      (c₁.commands.keys.filter (activeCommand request.role (Fleet.setPool (request.desired pool) c₁)))
      held (Fleet.setPool (request.desired pool) ∘ id) c₁ := by
    refine ⟨locked, pool_kept locked rfl known moved₁, fun _ => rfl, by simp, by simp,
      fun s i => (if_neg List.not_mem_nil).symm, ?_⟩
    intro i row found role active
    refine .inr (List.mem_filter.mpr ⟨(Table.mem_keys_iff _ _).mpr ⟨row, found⟩, ?_⟩)
    change (c₁.commands.find? i).any _ = true
    rw [found]
    simp [role, active]
  apply Discipline.wp_updateEach (I := fun visit held pending c =>
    ScaleInv c ∧ ∃ done, Superseding request pool done visit held pending c)
  · rintro i rest held pending c c' valid' moved ⟨_, done, at_⟩
    exact ⟨valid', done, at_.move (List.subset_cons_self _ _) moved⟩
  · rintro visit held pending c c' valid' moved ⟨_, done, at_⟩
    exact ⟨valid', done, at_.move (List.Subset.refl _) moved⟩
  · rintro i rest held pending c _ _ ⟨valid, done, at_⟩ fails
    exact ⟨valid, done, at_.leave fails⟩
  · rintro i rest held pending c locked _ ⟨valid, done, at_⟩ matched
    exact ⟨valid, i :: done, at_.write locked matched⟩
  · rintro returned held pending c ⟨valid, done, at_⟩
    apply Discipline.wp_bind_of_keeps (audit_keeps_desiredState _) valid
    · exact fun e held pending c _ => scale_refused e held pending c
    intro audit held' pending' c' _ sub moved same
    have at' := (at_.move (List.Subset.refl _) moved).congr same
    exact wp_insertCommand (at'.move sub (.refl _ _)) expected audit
  · exact valid₂
  · exact ⟨valid₂, [], start.move (List.Subset.refl _) moved₂⟩

theorem requestScale_scaling (request : ScaleRequest) (c : Fleet queue) :
    (scaling queue lock).wp ((scaling queue lock).Ends
      (ScaleStep (.requestScale request : FleetCall queue lock task)))
      (fleetProgram (.requestScale request)) [] id c := by
  rw [fleetProgram, Discipline.wp_map]
  unfold requestScale
  rw [Discipline.wp_ensure]
  refine ⟨fun _ => ?_, fun _ => scaleStep_error⟩
  rw [Discipline.wp_ensure]
  refine ⟨fun _ => ?_, fun _ => scaleStep_error⟩
  rw [Discipline.wp_view]
  intro c₁ valid₁ moved₁
  split
  · rename_i row found
    exact ends_of_returned valid₁ found moved₁
  apply Discipline.wp_selectLocked
  · intro held c₂ _ _ _
    rw [Discipline.wp_view]
    intro c₃ valid₃ moved₃
    split
    · rename_i row found
      exact ends_of_returned valid₃ found (moved₃.mono (List.nil_subset _))
    · exact wp_raiseStaleOrMissingPool scale_refused
  · intro c₂ c₃ pool _ _ _ moved₃ looked
    obtain ⟨known, expected⟩ := find?_of_poolAt looked
    exact createCommand_scaling List.mem_cons_self (pool_kept List.mem_cons_self rfl known moved₃) expected

/-- Every transaction on the control-plane tables keeps the discipline. -/
theorem scaling_verified : (scaling queue lock).Verified
    (fleetProgram : FleetCall queue lock task → _) ScaleStep := by
  intro call c valid
  have instanceCall {answer : Type} {p : Txn (Fleet queue) (FleetLock lock) PoolError answer}
      {f : answer → FleetAnswer task} (keeps : p.Keeps desiredState)
      (program : fleetProgram call = f <$> p) (other : ∀ request, call ≠ .requestScale request) :
      (scaling queue lock).wp ((scaling queue lock).Ends (ScaleStep call)) (fleetProgram call) [] id c := by
    rw [program]
    apply Discipline.ends_of_keeps scaling_about keeps.map _ valid
    intro outcome a b _ _ request row same
    exact absurd same (other request)
  cases call with
  | upsertPool role state actor reason expected now auditId =>
    exact upsertPool_scaling role state actor reason expected now auditId c valid
  | requestScale request => exact requestScale_scaling request c
  | transitionScaleCommand commandId status result heartbeatTtl now =>
    exact transitionScaleCommand_scaling commandId status result heartbeatTtl now c
  | registerInstance registration =>
    exact instanceCall (registerInstance_keeps_desiredState registration) rfl (by simp)
  | heartbeatInstance who heartbeat =>
    exact instanceCall (heartbeatInstance_keeps_desiredState who heartbeat) rfl (by simp)
  | setInstanceStatus who status now =>
    exact instanceCall (setInstanceStatus_keeps_desiredState who status now) rfl (by simp)
  | markStaleInstances heartbeatTtl now =>
    exact instanceCall (markStaleInstances_keeps_desiredState heartbeatTtl now) rfl (by simp)
  | claimPass who bindings first limit now =>
    exact instanceCall (keeps_claimPass (fun _ _ => rfl) who bindings first limit now) rfl (by simp)

end Collector.Workers
