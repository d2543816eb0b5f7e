import Collector.Workers.ScaleDiscipline

/-!
Every transaction on the control-plane tables keeps the discipline of pools and scale
commands. The long one is `request_scale`: it takes the pool row, supersedes row by row what is
active, and inserts its command under the unique index.
-/

namespace Collector.Workers
open Collector.Lib Collector.Persistence Collector.Persistence.Pools

variable {queue lock task : Type}

section PoolRow
variable {role : WorkerRole} {held : List (FleetLock lock × LockMode)} {mode : LockMode}
  {pending : Fleet queue → Fleet queue} {c : Fleet queue}

/-- A transaction that wrote one pool row and no command. -/
theorem ends_of_pool {call : FleetCall queue lock task} {answer : FleetAnswer task}
    (other : ∀ request, call ≠ .requestScale request) (valid : ScaleInv c)
    (locked : (.pool role, mode) ∈ held) (writes : mode = .noKeyUpdate ∨ mode = .update)
    (commands : (pending c).commands = c.commands)
    (elsewhere : ∀ other, other ≠ role → (pending c).pools.find? other = c.pools.find? other)
    (here : ∀ pool, c.pools.find? role = some pool →
      ∃ later, (pending c).pools.find? role = some later ∧ pool.revision ≤ later.revision) :
    (scaling queue lock).Ends (ScaleStep call) (.ok answer) held pending c := by
  have grows (name : WorkerRole) (pool : WorkerPool) (found : c.pools.find? name = some pool) :
      ∃ later, (pending c).pools.find? name = some later ∧ pool.revision ≤ later.revision := by
    by_cases same : name = role
    · subst same
      exact here pool found
    · exact ⟨pool, (elsewhere name same).trans found, le_rfl⟩
  refine ⟨⟨?_, ?_, ?_, ?_⟩, ?_, ?_⟩
  · rw [commands]
    exact valid.single
  · rw [commands]
    exact valid.keys
  · rw [commands]
    exact valid.revisions
  · intro i row found
    rw [commands] at found
    obtain ⟨next, pool, known, bound⟩ := valid.applied i row found
    obtain ⟨later, known, up⟩ := grows row.role pool known
    exact ⟨next, later, known, bound.trans up⟩
  · intro theirs apart
    refine ⟨grows, ?_, ?_, ?_, ?_, ?_⟩
    · intro i row found
      exact ⟨row, commands ▸ found, .refl row⟩
    · intro name m member conflict
      apply elsewhere
      rintro rfl
      exact not_apart_of_writer locked member writes conflict apart
    · intro i m _ _
      rw [commands]
    · intro name _ i row found _
      exact ⟨row, commands ▸ found⟩
    · intro key _ i row found _
      exact ⟨row, commands ▸ found⟩
  · intro request row same
    exact absurd same (other request)

end PoolRow

/-- A failed call says nothing about commands, wherever it stops. -/
theorem scale_refused {α : Type} {call : FleetCall queue lock task} {f : α → FleetAnswer task}
    (e : PoolError) (held : List (FleetLock lock × LockMode)) (pending : Fleet queue → Fleet queue)
    (c : Fleet queue) : (scaling queue lock).Ends (ScaleStep call)
      ((Except.error e : Except PoolError α).map f) held pending c := scaleStep_error

theorem audit_keeps_desiredState (row : AuditRow) :
    (appendFleetAudit row : Txn (Fleet queue) (FleetLock lock) PoolError AuditRow).Keeps desiredState :=
  keeps_appendFleetAudit (fun _ _ => rfl) row

theorem wp_raiseStaleOrMissingPool {α : Type} {d : Discipline (Fleet queue) (FleetLock lock)}
    {Q : Ending (Fleet queue) (FleetLock lock) PoolError α} {role : WorkerRole} {expected : Int}
    {held : List (FleetLock lock × LockMode)} {pending : Fleet queue → Fleet queue} {c : Fleet queue}
    (refused : ∀ e held pending c, Q (.error e) held pending c) :
    d.wp Q (raiseStaleOrMissingPool role expected) held pending c := by
  unfold raiseStaleOrMissingPool
  rw [Discipline.wp_view]
  intro c' _ _
  split
  · exact refused _ _ _ _
  · exact refused _ _ _ _

theorem pools_of_same {a b : Fleet queue} (same : desiredState a = desiredState b) :
    a.pools = b.pools := congrArg Prod.fst same

theorem commands_of_same {a b : Fleet queue} (same : desiredState a = desiredState b) :
    a.commands = b.commands := congrArg Prod.snd same

theorem find?_of_poolAt {role : WorkerRole} {expected : Int} {c : Fleet queue} {pool : WorkerPool}
    (found : poolAt role expected c = some pool) :
    c.pools.find? role = some pool ∧ pool.revision = expected := by
  rw [poolAt, Option.filter_eq_some_iff] at found
  exact ⟨found.1, of_decide_eq_true found.2⟩

theorem role_of_find? {t : Table WorkerPool.role} {role : WorkerRole} {pool : WorkerPool}
    (found : t.find? role = some pool) : pool.role = role := ((t.find?_eq_some _ _).mp found).2

/-- The pool row a locking query returned is still the committed one. -/
theorem pool_kept {role : WorkerRole} {mode : LockMode} {pool : WorkerPool} {c c' : Fleet queue}
    {held : List (FleetLock lock × LockMode)} (locked : (.pool role, mode) ∈ held)
    (guards : mode.conflicts .noKeyUpdate = true) (found : c.pools.find? role = some pool)
    (moved : ScaleRely held c c') : c'.pools.find? role = some pool :=
  (moved.pool role mode locked guards).trans found

theorem find?_setPool {c : Fleet queue} {role : WorkerRole} {old updated : WorkerPool}
    (found : c.pools.find? role = some old) (named : updated.role = role) :
    (Fleet.setPool updated c).pools.find? role = some updated := by
  have put := c.pools.find?_put updated (named ▸ found) role
  rwa [if_pos named.symm] at put

/-- A written pool row and its audit row, from the moment the row is held. -/
theorem wp_writePool {call : FleetCall queue lock task} {row : WorkerPool} {entry : AuditRow}
    {role : WorkerRole} {mode : LockMode} {held : List (FleetLock lock × LockMode)}
    {first change : Fleet queue → Fleet queue} {c : Fleet queue}
    (other : ∀ request, call ≠ .requestScale request)
    (same : ∀ s, desiredState (first s) = desiredState s)
    (locked : (.pool role, mode) ∈ held) (writes : mode = .noKeyUpdate ∨ mode = .update)
    (reads : ∀ a b, desiredState a = desiredState b → desiredState (change a) = desiredState (change b))
    (commands : ∀ s, (change s).commands = s.commands)
    (elsewhere : ∀ s other, other ≠ role → (change s).pools.find? other = s.pools.find? other)
    (here : ∀ c', ScaleRely held c c' → ∀ pool, c'.pools.find? role = some pool →
      ∃ later, (change c').pools.find? role = some later ∧ pool.revision ≤ later.revision) :
    (scaling queue lock).wp (fun r held pending c => (scaling queue lock).Ends (ScaleStep call)
      (r.map FleetAnswer.pool) held pending c)
      (do
        .modify change
        let _ ← appendFleetAudit entry
        return row) held first c := by
  rw [Discipline.wp_modify]
  intro c₁ valid₁ moved₁
  apply Discipline.wp_bind_of_keeps (audit_keeps_desiredState _) valid₁
  · exact fun e held pending c _ => scale_refused e held pending c
  intro _ held₂ pending₂ c₂ valid₂ sub moved₂ same₂
  have written : desiredState (pending₂ c₂) = desiredState (change c₂) :=
    (same₂ c₂).trans (reads _ _ (same c₂))
  apply ends_of_pool other valid₂ (sub locked) writes
  · rw [commands_of_same written, commands]
  · intro name different
    rw [pools_of_same written, elsewhere c₂ name different]
  · rw [pools_of_same written]
    exact here c₂ (moved₁.trans moved₂)

theorem validate_keeps_desiredState (state : PoolDesiredState) :
    (state.validate : Txn (Fleet queue) (FleetLock lock) PoolError Unit).Keeps desiredState :=
  keeps_validate state

theorem upsertPool_scaling (role : WorkerRole) (state : PoolDesiredState) (actor reason : String)
    (expectedRevision : Option Int) (now : Time) (auditId : Uuid) (c : Fleet queue)
    (valid : ScaleInv c) :
    (scaling queue lock).wp ((scaling queue lock).Ends (ScaleStep (.upsertPool role state actor reason
      expectedRevision now auditId : FleetCall queue lock task)))
      (fleetProgram (.upsertPool role state actor reason expectedRevision now auditId)) [] id c := by
  rw [fleetProgram, Discipline.wp_map]
  unfold upsertPool
  rw [Discipline.wp_ensure]
  refine ⟨fun _ => ?_, fun _ => scale_refused _ _ _ _⟩
  rw [Discipline.wp_ensure]
  refine ⟨fun _ => ?_, fun _ => scale_refused _ _ _ _⟩
  apply Discipline.wp_bind_of_keeps (validate_keeps_desiredState state) valid
  · exact fun e held pending c _ => scale_refused e held pending c
  intro _ held first c₀ _ _ _ same
  change ∀ s, desiredState (first s) = desiredState s at same
  cases expectedRevision with
  | none =>
    rw [Discipline.wp_view]
    intro c₁ _ _
    rw [Discipline.wp_ensure]
    refine ⟨fun _ => ?_, fun _ => scale_refused _ _ _ _⟩
    rw [Discipline.wp_ensure]
    refine ⟨fun _ => ?_, fun _ => scale_refused _ _ _ _⟩
    apply Discipline.wp_insertUnique
    · exact fun held c _ _ => scale_refused _ held _ c
    intro c₂ c₃ _ _ _ moved₃ free
    have absent : c₃.pools.find? role = none := by
      rw [moved₃.pool role .update List.mem_cons_self rfl, ← pools_of_same (same c₂)]
      simpa using free
    apply wp_writePool (by simp) same List.mem_cons_self (.inr rfl)
    · intro a b equal
      simp only [desiredState, Fleet.addPool, pools_of_same equal, commands_of_same equal]
    · exact fun s => rfl
    · exact fun s name different => Table.find?_insert_of_ne _ _ different
    · intro c' moved pool found
      rw [moved.pool role .update List.mem_cons_self rfl, absent] at found
      cases found
  | some expected =>
    rw [Discipline.wp_view]
    intro c₁ _ _
    apply Discipline.wp_selectLocked
    · intro held c' _ _ _
      exact wp_raiseStaleOrMissingPool scale_refused
    intro c₂ c₃ pool _ _ _ moved₃ looked
    obtain ⟨known, _⟩ := find?_of_poolAt looked
    rw [pools_of_same (same c₂)] at known
    have named : pool.role = role := role_of_find? known
    rw [Discipline.wp_ensure]
    refine ⟨fun _ => ?_, fun _ => scale_refused _ _ _ _⟩
    apply wp_writePool (by simp) same List.mem_cons_self (.inl rfl)
    · intro a b equal
      simp only [desiredState, Fleet.setPool, pools_of_same equal, commands_of_same equal]
    · exact fun s => rfl
    · exact fun s name different => Table.find?_put_of_ne _ _ (named ▸ different)
    · intro c' moved old found
      have still := pool_kept List.mem_cons_self rfl known (moved₃.trans moved)
      rw [still] at found
      cases found
      exact ⟨_, find?_setPool still named, Int.le.intro 1 rfl⟩

/-- A transaction that moved one active command on under its lock. -/
theorem ends_of_command {call : FleetCall queue lock task} {answer : FleetAnswer task}
    {held : List (FleetLock lock × LockMode)} {c : Fleet queue} {row later : ScaleCommand}
    (other : ∀ request, call ≠ .requestScale request) (valid : ScaleInv c)
    (locked : (.command row.commandId, .update) ∈ held)
    (known : c.commands.find? row.commandId = some row)
    (named : later.commandId = row.commandId) (goes : Continues row later) :
    (scaling queue lock).Ends (ScaleStep call) (.ok answer) held (Fleet.setCommand later) c := by
  have written (j : Uuid) : (Fleet.setCommand later c).commands.find? j =
      if j = row.commandId then some later else c.commands.find? j := by
    have put := c.commands.find?_put later (named ▸ known) j
    rwa [named] at put
  -- Each command of the new table continues one of the old table under the same id.
  have earlier (j : Uuid) (b : ScaleCommand) (found : (Fleet.setCommand later c).commands.find? j = some b) :
      ∃ a, c.commands.find? j = some a ∧ Continues a b := by
    rw [written] at found
    split at found
    · rename_i same
      cases found
      exact ⟨row, same ▸ known, goes⟩
    · exact ⟨b, found, .refl b⟩
  refine ⟨⟨?_, ?_, ?_, ?_⟩, ?_, ?_⟩
  · intro j k a b first second role activeA activeB
    obtain ⟨a', first, goesA⟩ := earlier j a first
    obtain ⟨b', second, goesB⟩ := earlier k b second
    exact valid.single j k a' b' first second (goesA.role.symm.trans (role.trans goesB.role))
      (goesA.active activeA) (goesB.active activeB)
  · intro j k a b first second key
    obtain ⟨a', first, goesA⟩ := earlier j a first
    obtain ⟨b', second, goesB⟩ := earlier k b second
    exact valid.keys j k a' b' first second (goesA.key.symm.trans (key.trans goesB.key))
  · intro j k a b first second role expected
    obtain ⟨a', first, goesA⟩ := earlier j a first
    obtain ⟨b', second, goesB⟩ := earlier k b second
    exact valid.revisions j k a' b' first second (goesA.role.symm.trans (role.trans goesB.role))
      (goesA.expected.symm.trans (expected.trans goesB.expected))
  · intro j a found
    obtain ⟨a', found, goesA⟩ := earlier j a found
    rw [goesA.applied, goesA.expected, goesA.role]
    exact valid.applied j a' found
  · intro theirs apart
    refine ⟨fun name pool found => ⟨pool, found, le_rfl⟩, ?_, fun _ _ _ _ => rfl, ?_, ?_, ?_⟩
    · intro j a found
      rw [written]
      split
      · rename_i same
        rw [same, known] at found
        cases found
        exact ⟨later, rfl, goes⟩
      · exact ⟨a, found, .refl a⟩
    · intro j m member conflict
      rw [written, if_neg]
      rintro rfl
      exact not_apart_of_writer locked member (.inr rfl) conflict apart
    · intro name _ j a found _
      obtain ⟨a', found, _⟩ := earlier j a found
      exact ⟨a', found⟩
    · intro key _ j a found _
      obtain ⟨a', found, _⟩ := earlier j a found
      exact ⟨a', found⟩
  · intro request a same
    exact absurd same (other request)

theorem transitionScaleCommand_scaling (commandId : Uuid) (status : ScaleStatus)
    (result : Option String) (heartbeatTtl now : Time) (c : Fleet queue) :
    (scaling queue lock).wp ((scaling queue lock).Ends (ScaleStep (.transitionScaleCommand commandId
      status result heartbeatTtl now : FleetCall queue lock task)))
      (fleetProgram (.transitionScaleCommand commandId status result heartbeatTtl now)) [] id c := by
  rw [fleetProgram, Discipline.wp_map]
  unfold transitionScaleCommand
  apply Discipline.wp_selectLocked
  · intro held c' _ _ _
    exact scaleStep_error
  intro c₁ c₂ row _ valid₂ _ moved₂ looked
  obtain ⟨_, rfl⟩ := (Table.find?_eq_some _ _ _).mp looked
  have known (c' : Fleet queue) (moved : ScaleRely [(.command row.commandId, .update)] c₂ c') :
      c'.commands.find? row.commandId = some row :=
    ((moved₂.trans moved).command row.commandId .update List.mem_cons_self rfl).trans looked
  rw [Discipline.wp_ensure]
  refine ⟨fun allowed => ?_, fun _ => scaleStep_error⟩
  have active : row.status.terminal = false := by
    cases closed : row.status.terminal with
    | false => rfl
    | true => simp [ScaleStatus.transitions_of_terminal closed] at allowed
  have goes (later : ScaleCommand) (key : later.idempotencyKey = row.idempotencyKey)
      (role : later.role = row.role) (expected : later.expectedPoolRevision = row.expectedPoolRevision)
      (applied : later.appliedPoolRevision = row.appliedPoolRevision) : Continues row later :=
    ⟨key, role, expected, applied, fun closed => absurd closed (by simp [active])⟩
  split
  · rw [Discipline.wp_view]
    intro c₃ _ moved₃
    rw [Discipline.wp_ensure]
    refine ⟨fun _ => ?_, fun _ => scaleStep_error⟩
    rw [Discipline.wp_ensure]
    refine ⟨fun _ => ?_, fun _ => scaleStep_error⟩
    rw [Discipline.wp_modify]
    intro c₄ valid₄ moved₄
    exact ends_of_command (by simp) valid₄ List.mem_cons_self (known c₄ (moved₃.trans moved₄)) rfl
      (goes _ rfl rfl rfl rfl)
  · rw [Discipline.wp_ensure]
    refine ⟨fun _ => ?_, fun _ => scaleStep_error⟩
    rw [Discipline.wp_modify]
    intro c₄ valid₄ moved₄
    exact ends_of_command (by simp) valid₄ List.mem_cons_self (known c₄ moved₄) rfl
      (goes _ rfl rfl rfl rfl)

end Collector.Workers
