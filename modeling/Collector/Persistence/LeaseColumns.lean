import Collector.Lib.Lease
import Collector.Persistence.Core

/-!
The lease columns that `crawl_jobs` and `projection_tasks` share, and how the writes of the two
repositories move them through the abstract lease. A repository joins by saying, for every
answered call, what it did to one row; every path of the abstract lease is then available for
that row.
-/

namespace Collector.Persistence
open Collector.Lib Collector.Lib.Lease

structure LeaseColumns where
  status : JobStatus
  leaseOwner : Option String
  leaseExpiresAt : Option Time
  attempt : Int
  maxAttempts : Int
  deriving DecidableEq, Repr

namespace LeaseColumns

/-- The columns as an abstract lease. A row with half a lease represents nothing. -/
def Represents (columns : LeaseColumns) (cell : Cell String Time) : Prop :=
  cell.attempt = columns.attempt ∧ cell.limit = columns.maxAttempts ∧
  match cell.hold with
  | .free => columns.status.claimable = true ∧ columns.leaseOwner = none ∧
      columns.leaseExpiresAt = none
  | .held owner expires => columns.status = .leased ∧ columns.leaseOwner = some owner ∧
      columns.leaseExpiresAt = some expires
  | .closed => columns.status.terminal = true ∧ columns.leaseOwner = none ∧
      columns.leaseExpiresAt = none

/-- The columns move as the act does, whatever the row represents. -/
def Advances (columns : LeaseColumns) (act : Act String Time) (next : LeaseColumns) : Prop :=
  ∀ cell, columns.Represents cell → ∃ cell', Step cell act cell' ∧ next.Represents cell'

variable {columns : LeaseColumns} {owner : String}

/-- The lease is complete exactly when the status says so. -/
theorem Represents.leased_iff {cell : Cell String Time} (rep : columns.Represents cell) :
    columns.status = .leased ↔ columns.leaseOwner.isSome ∧ columns.leaseExpiresAt.isSome := by
  obtain ⟨_, _, shape⟩ := rep
  cases holding : cell.hold with
  | free =>
    rw [holding] at shape
    obtain ⟨claimable, noOwner, _⟩ := shape
    simp only [noOwner, Option.isSome_none, Bool.false_eq_true, false_and, iff_false]
    intro leased
    rw [leased] at claimable
    cases claimable
  | held holder expires =>
    rw [holding] at shape
    simp [shape]
  | closed =>
    rw [holding] at shape
    obtain ⟨terminal, noOwner, _⟩ := shape
    simp only [noOwner, Option.isSome_none, Bool.false_eq_true, false_and, iff_false]
    intro leased
    rw [leased] at terminal
    cases terminal

theorem Represents.held_of_owned {cell : Cell String Time} (rep : columns.Represents cell)
    (leased : columns.status = .leased) (owned : columns.leaseOwner = some owner) :
    ∃ expires, columns.leaseExpiresAt = some expires ∧
      cell = ⟨.held owner expires, columns.attempt, columns.maxAttempts⟩ := by
  obtain ⟨hold, attempt, limit⟩ := cell
  obtain ⟨rfl, rfl, shape⟩ := rep
  cases hold with
  | free => simp [leased, JobStatus.claimable] at shape
  | held holder expires =>
    obtain ⟨_, holds, deadline⟩ := shape
    rw [owned] at holds
    cases holds
    exact ⟨expires, deadline, rfl⟩
  | closed => simp [leased, JobStatus.terminal] at shape

theorem Represents.free_of_claimable {cell : Cell String Time} (rep : columns.Represents cell)
    (claimable : columns.status.claimable = true) :
    cell = ⟨.free, columns.attempt, columns.maxAttempts⟩ := by
  obtain ⟨hold, attempt, limit⟩ := cell
  obtain ⟨rfl, rfl, shape⟩ := rep
  cases hold with
  | free => rfl
  | held holder expires =>
    rw [shape.1] at claimable
    cases claimable
  | closed =>
    cases h : columns.status <;> simp [h, JobStatus.claimable, JobStatus.terminal] at claimable shape

theorem advances_claim (claimable : columns.status.claimable = true) (expires : Time) :
    columns.Advances (.claim owner expires)
      ⟨.leased, some owner, some expires, columns.attempt + 1, columns.maxAttempts⟩ := by
  intro cell rep
  rw [rep.free_of_claimable claimable]
  exact ⟨_, .claim owner expires, rfl, rfl, rfl, rfl, rfl⟩

section Owned
variable (leased : columns.status = .leased) (owned : columns.leaseOwner = some owner)
include leased owned

theorem advances_extend (later : Time) :
    columns.Advances (.extend owner later) { columns with leaseExpiresAt := some later } := by
  intro cell rep
  obtain ⟨expires, _, rfl⟩ := rep.held_of_owned leased owned
  exact ⟨_, .extend later, rfl, rfl, leased, owned, rfl⟩

theorem advances_retry (budget : columns.attempt < columns.maxAttempts) :
    columns.Advances (.retry owner) ⟨.retry, none, none, columns.attempt, columns.maxAttempts⟩ := by
  intro cell rep
  obtain ⟨expires, _, rfl⟩ := rep.held_of_owned leased owned
  exact ⟨_, .retry budget, rfl, rfl, rfl, rfl, rfl⟩

theorem advances_refund :
    columns.Advances (.refund owner)
      ⟨.pending, none, none, max (columns.attempt - 1) 0, columns.maxAttempts⟩ := by
  intro cell rep
  obtain ⟨expires, _, rfl⟩ := rep.held_of_owned leased owned
  exact ⟨_, .refund, rfl, rfl, rfl, rfl, rfl⟩

theorem advances_finish {status : JobStatus} (terminal : status.terminal = true) :
    columns.Advances (.finish owner) ⟨status, none, none, columns.attempt, columns.maxAttempts⟩ := by
  intro cell rep
  obtain ⟨expires, _, rfl⟩ := rep.held_of_owned leased owned
  exact ⟨_, .finish, rfl, rfl, terminal, rfl, rfl⟩

end Owned

theorem advances_expire {expires now : Time} (leased : columns.status = .leased)
    (deadline : columns.leaseExpiresAt = some expires) (ended : expires ≤ now) :
    columns.Advances (.expire now)
      ⟨.pending, none, none, columns.attempt, columns.maxAttempts⟩ := by
  intro cell rep
  have complete := rep.leased_iff.mp leased
  obtain ⟨holder, owned⟩ := Option.isSome_iff_exists.mp complete.1
  obtain ⟨instant, same, rfl⟩ := rep.held_of_owned leased owned
  rw [deadline] at same
  cases same
  exact ⟨_, .expire ended, rfl, rfl, rfl, rfl, rfl⟩

theorem advances_revoke {status : JobStatus} (terminal : status.terminal = true) :
    columns.Advances .revoke ⟨status, none, none, columns.attempt, columns.maxAttempts⟩ := by
  rintro ⟨hold, attempt, limit⟩ ⟨rfl, rfl, _⟩
  exact ⟨_, .revoke, rfl, rfl, terminal, rfl, rfl⟩

/-- A row as it is inserted: pending, unclaimed and without attempts. -/
def fresh (maxAttempts : Int) : LeaseColumns := ⟨.pending, none, none, 0, maxAttempts⟩

end LeaseColumns

/-- What one answered call does to one row. Rows with a lease are never deleted. -/
inductive RowEffect : Option LeaseColumns → Option (Act String Time) → Option LeaseColumns → Prop
  | absent : RowEffect none none none
  | created (maxAttempts : Int) : RowEffect none none (some (.fresh maxAttempts))
  | kept (columns : LeaseColumns) : RowEffect (some columns) none (some columns)
  | moved {columns next : LeaseColumns} {act : Act String Time} :
      columns.Advances act next → RowEffect (some columns) (some act) (some next)

/-- A machine whose rows carry leases. -/
structure LeaseQueue {σ Call Answer ε : Type} (m : Machine σ Call Answer ε) where
  row : σ → Uuid → Option LeaseColumns
  act : Entry Call Answer ε → Uuid → Option (Act String Time)
  raised : ∀ call e id, act ⟨call, .error e⟩ id = none
  effect : ∀ {s next : σ} {call : Call} {a : Answer}, m.exec call s = .ok (a, next) →
    ∀ id, RowEffect (row s id) (act ⟨call, .ok a⟩ id) (row next id)

namespace LeaseQueue
variable {σ Call Answer ε : Type} {m : Machine σ Call Answer ε} (q : LeaseQueue m)

/-- The acts of a run on one row, newest first. -/
def acts (history : List (Entry Call Answer ε)) (id : Uuid) : List (Act String Time) :=
  history.filterMap fun entry => q.act entry id

/-- Simulation: in every run from a state without rows, a row represents the end of an abstract
path along the acts the run performed on it. -/
theorem path {start s : σ} (none : ∀ id, q.row start id = none)
    {history : List (Entry Call Answer ε)} (run : m.Run start history s) (id : Uuid) :
    (q.row s id = .none → q.acts history id = []) ∧
      ∀ columns, q.row s id = some columns → ∃ cell, columns.Represents cell ∧
        Path columns.maxAttempts (q.acts history id) cell := by
  induction run with
  | nil =>
    refine ⟨fun _ => rfl, ?_⟩
    intro columns known
    rw [none id] at known
    cases known
  | raise _ raised ih =>
    simpa only [acts, List.filterMap_cons, q.raised] using ih
  | @answer history s next call a before answered ih =>
    have effect := q.effect answered id
    obtain ⟨absent, present⟩ := ih
    have recorded : q.acts (⟨call, .ok a⟩ :: history) id =
        (q.act ⟨call, .ok a⟩ id).toList ++ q.acts history id := by
      unfold acts
      rw [List.filterMap_cons]
      cases q.act ⟨call, .ok a⟩ id <;> rfl
    rw [recorded]
    generalize q.row next id = after, q.act ⟨call, .ok a⟩ id = act at effect ⊢
    generalize q.row s id = known at effect absent present
    cases effect with
    | absent =>
      exact ⟨fun _ => absent rfl, nofun⟩
    | created maxAttempts =>
      refine ⟨nofun, ?_⟩
      intro columns known
      cases known
      rw [absent rfl]
      exact ⟨⟨.free, 0, maxAttempts⟩, ⟨rfl, rfl, rfl, rfl, rfl⟩, .fresh⟩
    | kept columns =>
      exact ⟨nofun, present⟩
    | @moved columns after act advances =>
      refine ⟨nofun, ?_⟩
      intro columns' known
      cases known
      obtain ⟨cell, rep, path⟩ := present columns rfl
      obtain ⟨cell', step, rep'⟩ := advances cell rep
      refine ⟨cell', rep', ?_⟩
      -- No act writes `max_attempts`.
      have limit : after.maxAttempts = columns.maxAttempts := by
        rw [← rep'.2.1, ← rep.2.1]
        cases step <;> rfl
      rw [limit]
      exact path.act step

end LeaseQueue
end Collector.Persistence
