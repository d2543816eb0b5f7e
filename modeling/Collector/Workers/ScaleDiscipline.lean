import Collector.Workers.FleetFrames

/-!
What always holds of pools and scale commands, and what a transaction on them can count on.
Whoever creates a command of a role holds the pool row of that role `FOR UPDATE`, whoever
changes a command holds its row, and the idempotency key is held from the insertion to the end
of the transaction.
-/

namespace Collector.Workers
open Collector.Lib Collector.Persistence Collector.Persistence.Pools

variable {queue lock task : Type}

/-- A command later on: what identifies it stays, and a terminal status stays. -/
structure Continues (row later : ScaleCommand) : Prop where
  key : later.idempotencyKey = row.idempotencyKey
  role : later.role = row.role
  expected : later.expectedPoolRevision = row.expectedPoolRevision
  applied : later.appliedPoolRevision = row.appliedPoolRevision
  ended : row.status.terminal = true → later.status = row.status

theorem Continues.refl (row : ScaleCommand) : Continues row row := ⟨rfl, rfl, rfl, rfl, fun _ => rfl⟩

theorem Continues.trans {a b c : ScaleCommand} (first : Continues a b) (second : Continues b c) :
    Continues a c where
  key := second.key.trans first.key
  role := second.role.trans first.role
  expected := second.expected.trans first.expected
  applied := second.applied.trans first.applied
  ended := by
    intro closed
    have kept := first.ended closed
    rw [second.ended (kept ▸ closed), kept]

theorem Continues.active {a b : ScaleCommand} (later : Continues a b)
    (active : b.status.terminal = false) : a.status.terminal = false := by
  cases closed : a.status.terminal with
  | false => rfl
  | true => rw [later.ended closed, closed] at active; exact active

structure ScaleInv (c : Fleet queue) : Prop where
  single : ∀ i j a b, c.commands.find? i = some a → c.commands.find? j = some b → a.role = b.role →
    a.status.terminal = false → b.status.terminal = false → i = j
  keys : ∀ i j a b, c.commands.find? i = some a → c.commands.find? j = some b →
    a.idempotencyKey = b.idempotencyKey → i = j
  revisions : ∀ i j a b, c.commands.find? i = some a → c.commands.find? j = some b →
    a.role = b.role → a.expectedPoolRevision = b.expectedPoolRevision → i = j
  applied : ∀ i a, c.commands.find? i = some a →
    a.appliedPoolRevision = a.expectedPoolRevision + 1 ∧
      ∃ pool, c.pools.find? a.role = some pool ∧ a.appliedPoolRevision ≤ pool.revision

/-- Pools keep growing revisions and commands continue; what a transaction holds stays. -/
structure ScaleRely (held : List (FleetLock lock × LockMode)) (a b : Fleet queue) : Prop where
  pools : ∀ role pool, a.pools.find? role = some pool →
    ∃ later, b.pools.find? role = some later ∧ pool.revision ≤ later.revision
  commands : ∀ i row, a.commands.find? i = some row →
    ∃ later, b.commands.find? i = some later ∧ Continues row later
  pool : ∀ role mode, (.pool role, mode) ∈ held → mode.conflicts .noKeyUpdate = true →
    b.pools.find? role = a.pools.find? role
  command : ∀ i mode, (.command i, mode) ∈ held → mode.conflicts .noKeyUpdate = true →
    b.commands.find? i = a.commands.find? i
  created : ∀ role, (.pool role, .update) ∈ held → ∀ i row, b.commands.find? i = some row →
    row.role = role → ∃ earlier, a.commands.find? i = some earlier
  inserted : ∀ key, (.commandKey key, .update) ∈ held → ∀ i row, b.commands.find? i = some row →
    row.idempotencyKey = key → ∃ earlier, a.commands.find? i = some earlier

theorem ScaleRely.refl (held : List (FleetLock lock × LockMode)) (c : Fleet queue) :
    ScaleRely held c c where
  pools _ pool found := ⟨pool, found, le_rfl⟩
  commands _ row found := ⟨row, found, .refl row⟩
  pool _ _ _ _ := rfl
  command _ _ _ _ := rfl
  created _ _ _ row found _ := ⟨row, found⟩
  inserted _ _ _ row found _ := ⟨row, found⟩

theorem ScaleRely.mono {held more : List (FleetLock lock × LockMode)} {a b : Fleet queue}
    (sub : held ⊆ more) (moved : ScaleRely more a b) : ScaleRely held a b where
  pools := moved.pools
  commands := moved.commands
  pool role mode member := moved.pool role mode (sub member)
  command i mode member := moved.command i mode (sub member)
  created role member := moved.created role (sub member)
  inserted key member := moved.inserted key (sub member)

theorem ScaleRely.trans {held : List (FleetLock lock × LockMode)} {a b c : Fleet queue}
    (first : ScaleRely held a b) (second : ScaleRely held b c) : ScaleRely held a c where
  pools := by
    intro role pool found
    obtain ⟨middle, found, up⟩ := first.pools role pool found
    obtain ⟨later, found, up'⟩ := second.pools role middle found
    exact ⟨later, found, up.trans up'⟩
  commands := by
    intro i row found
    obtain ⟨middle, found, goes⟩ := first.commands i row found
    obtain ⟨later, found, on⟩ := second.commands i middle found
    exact ⟨later, found, goes.trans on⟩
  pool role mode member conflict :=
    (second.pool role mode member conflict).trans (first.pool role mode member conflict)
  command i mode member conflict :=
    (second.command i mode member conflict).trans (first.command i mode member conflict)
  created := by
    intro role member i row found same
    obtain ⟨middle, before⟩ := second.created role member i row found same
    obtain ⟨later, found', goes⟩ := second.commands i middle before
    rw [found] at found'
    cases found'
    exact first.created role member i middle before (goes.role.symm.trans same)
  inserted := by
    intro key member i row found same
    obtain ⟨middle, before⟩ := second.inserted key member i row found same
    obtain ⟨later, found', goes⟩ := second.commands i middle before
    rw [found] at found'
    cases found'
    exact first.inserted key member i middle before (goes.key.symm.trans same)

def scaling (queue lock : Type) : Discipline (Fleet queue) (FleetLock lock) where
  inv := ScaleInv
  rely := ScaleRely
  refl := ScaleRely.refl
  mono _ _ _ _ sub moved := moved.mono sub
  trans _ _ _ _ first second := first.trans second

/-- A command that the call made: new, for the revision the pool had, one revision later. -/
structure Created (request : ScaleRequest) (row : ScaleCommand) (before after : Fleet queue) :
    Prop where
  fresh : before.commands.find? row.commandId = none
  stored : after.commands.find? row.commandId = some row
  key : row.idempotencyKey = request.idempotencyKey
  role : row.role = request.role
  expected : row.expectedPoolRevision = request.expectedRevision
  raised : ∃ pool later, before.pools.find? request.role = some pool ∧
    after.pools.find? request.role = some later ∧ later.revision = pool.revision + 1 ∧
    row.appliedPoolRevision = later.revision

/-- A command that was there under the key. -/
def Returned (request : ScaleRequest) (row : ScaleCommand) (before : Fleet queue) : Prop :=
  ∃ stored, before.commands.find? row.commandId = some stored ∧
    stored.idempotencyKey = request.idempotencyKey

/-- What a call says about commands: a successful request made its command or found it. -/
def ScaleStep (call : FleetCall queue lock task) (outcome : Except PoolError (FleetAnswer task))
    (before after : Fleet queue) : Prop :=
  ∀ request row, call = .requestScale request → outcome = .ok (.command row) →
    Created request row before after ∨ Returned request row before

theorem scaleStep_error {call : FleetCall queue lock task} {e : PoolError} {c : Fleet queue} :
    ScaleStep call (.error e) c c := by
  intro request row _ outcome
  cases outcome

theorem scaling_about (a b : Fleet queue) (same : desiredState b = desiredState a)
    (valid : ScaleInv a) : ScaleInv b ∧ ∀ held : List (FleetLock lock × LockMode), ScaleRely held a b := by
  injection same with pools commands
  constructor
  · refine ⟨?_, ?_, ?_, ?_⟩
    · rw [commands]
      exact valid.single
    · rw [commands]
      exact valid.keys
    · rw [commands]
      exact valid.revisions
    · rw [commands, pools]
      exact valid.applied
  · intro held
    refine ⟨?_, ?_, ?_, ?_, ?_, ?_⟩
    · intro role pool found
      exact ⟨pool, pools ▸ found, le_rfl⟩
    · intro i row found
      exact ⟨row, commands ▸ found, .refl row⟩
    · intro role mode _ _
      rw [pools]
    · intro i mode _ _
      rw [commands]
    · intro role _ i row found _
      exact ⟨row, commands ▸ found⟩
    · intro key _ i row found _
      exact ⟨row, commands ▸ found⟩

end Collector.Workers
