import Collector.Persistence.LeaseColumns

/-!
What every lease queue guarantees over its runs: the accounting of attempts, the exclusion of
other workers while a lease is live, and how far an owner's name fences stale reports. The
arguments are those of the abstract lease, carried over by the simulation.
-/

namespace Collector.Persistence.LeaseQueue
open Collector.Lib Collector.Lib.Lease

section Log
variable {σ Call Answer ε : Type} {m : Machine σ Call Answer ε} (q : LeaseQueue m)

/-- The worker that an entry handed the row to. -/
def claimer (entry : Entry Call Answer ε) (id : Uuid) : Option String :=
  (q.act entry id).bind Act.claimer

/-- The worker that claimed the row or reported on it. -/
def actor (entry : Entry Call Answer ε) (id : Uuid) : Option String :=
  (q.act entry id).bind Act.actor

/-- The worker whose report on the row took effect. -/
def reporter (entry : Entry Call Answer ε) (id : Uuid) : Option String :=
  (q.act entry id).bind Act.reporter

variable {q} in
theorem actor_of_claimer_or_reporter {entry : Entry Call Answer ε} {id : Uuid} {worker : String}
    (acted : q.claimer entry id = some worker ∨ q.reporter entry id = some worker) :
    q.actor entry id = some worker := by
  unfold claimer reporter at acted
  unfold actor
  cases performed : q.act entry id with
  | none => simp [performed] at acted
  | some act =>
    rw [performed] at acted
    cases act <;> simp_all [Act.claimer, Act.reporter, Act.actor]

def refunded (entry : Entry Call Answer ε) (id : Uuid) : Bool :=
  (q.act entry id).any Act.isRefund

/-- `between` are the entries between a worker's claim of the row and a report that the same
worker made later and that took effect. -/
def Spans (claimedBy reportedBy : Entry Call Answer ε → Uuid → Option String)
    (history : List (Entry Call Answer ε)) (id : Uuid) (owner : String)
    (between : List (Entry Call Answer ε)) : Prop :=
  ∃ rest report claim older, history = rest ++ report :: (between ++ claim :: older) ∧
    reportedBy report id = some owner ∧ claimedBy claim id = some owner

theorem claims_acts (history : List (Entry Call Answer ε)) (id : Uuid) :
    claims (q.acts history id) = history.countP fun entry => (q.claimer entry id).isSome := by
  simp only [claims, acts, List.countP_filterMap]
  congr 1
  funext entry
  cases performed : q.act entry id <;> simp [claimer, performed]

theorem refunds_acts (history : List (Entry Call Answer ε)) (id : Uuid) :
    refunds (q.acts history id) = history.countP fun entry => q.refunded entry id := by
  simp only [refunds, acts, List.countP_filterMap]
  congr 1
  funext entry
  cases performed : q.act entry id <;> simp [refunded, performed]

theorem claimers_acts (history : List (Entry Call Answer ε)) (id : Uuid) :
    (q.acts history id).filterMap Act.claimer = history.filterMap fun entry => q.claimer entry id := by
  simp only [acts, List.filterMap_filterMap, claimer]

end Log

section Runs
variable {σ Call Answer ε : Type} {m : Machine σ Call Answer ε} (q : LeaseQueue m)
variable {start s : σ} (vacant : ∀ id, q.row start id = none)
include vacant

/-- Attempts are claims less refunds, and a leased row has had at least one. -/
theorem accounting {history : List (Entry Call Answer ε)} (run : m.Run start history s) (id : Uuid)
    (columns : LeaseColumns) (known : q.row s id = some columns) :
    (columns.status = .leased ↔ columns.leaseOwner.isSome ∧ columns.leaseExpiresAt.isSome) ∧
      columns.attempt = ((history.countP fun entry => (q.claimer entry id).isSome : Nat) : Int) -
        (history.countP fun entry => q.refunded entry id : Nat) ∧
      (columns.status = .leased → 1 ≤ columns.attempt) := by
  obtain ⟨cell, rep, path⟩ := (q.path vacant run id).2 columns known
  obtain ⟨_, count, _, holding⟩ := path.accounting
  refine ⟨rep.leased_iff, ?_, ?_⟩
  · rw [← rep.1, count, q.claims_acts, q.refunds_acts]
  · intro leased
    obtain ⟨owner, owned⟩ := Option.isSome_iff_exists.mp (rep.leased_iff.mp leased).1
    obtain ⟨expires, _, rfl⟩ := rep.held_of_owned leased owned
    exact holding owner expires rfl

/-- An entry that acts on a row makes an abstract step from where its past left it. -/
theorem step_of_act {history : List (Entry Call Answer ε)} {entry : Entry Call Answer ε}
    (run : m.Run start (entry :: history) s) {id : Uuid} {act : Act String Time}
    (acted : q.act entry id = some act) :
    ∃ limit cell next, Path limit (q.acts history id) cell ∧ Step cell act next := by
  cases run with
  | raise before raised =>
    rw [q.raised] at acted
    cases acted
  | @answer _ s _ _ _ before answered =>
    have effect := q.effect answered id
    have simulated := (q.path vacant before id).2
    rw [acted] at effect
    generalize q.row s id = known at effect simulated
    generalize q.row _ id = after at effect
    cases effect with
    | moved advances =>
      obtain ⟨cell, rep, path⟩ := simulated _ rfl
      obtain ⟨next, step, _⟩ := advances cell rep
      exact ⟨_, cell, next, path, step⟩

/-- **Exclusion.** While a worker's lease is live, nobody else acts on the row. -/
theorem exclusive {history : List (Entry Call Answer ε)} {entry : Entry Call Answer ε}
    (run : m.Run start (entry :: history) s) {id : Uuid} {worker other : String}
    {expires now : Time} (clock : ∀ past, Act.expire past ∈ q.acts history id → past ≤ now)
    (kept : lease worker (q.acts history id) = some expires)
    (acted : q.actor entry id = some other) (distinct : other ≠ worker) :
    expires ≤ now := by
  obtain ⟨act, performed, isActor⟩ := Option.bind_eq_some_iff.mp acted
  obtain ⟨limit, cell, next, path, step⟩ := q.step_of_act vacant run performed
  exact path.exclusive clock kept step isActor distinct

/-- **Fencing by name.** A report takes effect only for the owner of the newest claim. -/
theorem newest_claimer {history : List (Entry Call Answer ε)} {entry : Entry Call Answer ε}
    (run : m.Run start (entry :: history) s) {id : Uuid} {owner : String}
    (reported : q.reporter entry id = some owner) :
    (history.filterMap fun entry => q.claimer entry id).head? = some owner := by
  obtain ⟨act, performed, isReporter⟩ := Option.bind_eq_some_iff.mp reported
  obtain ⟨limit, cell, next, path, step⟩ := q.step_of_act vacant run performed
  obtain ⟨expires, holding⟩ := step.reporter_holds isReporter
  rw [← q.claimers_acts]
  exact path.holder_claimed holding

/-- Between a claim and a report of the same worker that takes effect, nobody claims the row
exactly when that worker does not claim it again. -/
theorem fenced_iff {history newer : List (Entry Call Answer ε)} {id : Uuid} {owner : String}
    (run : m.Run start history s) (spans : Spans q.claimer q.reporter history id owner newer) :
    (∀ entry ∈ newer, q.claimer entry id = none) ↔
      ∀ entry ∈ newer, q.claimer entry id ≠ some owner := by
  constructor
  · intro unclaimed entry member
    rw [unclaimed entry member]
    nofun
  · intro others
    obtain ⟨rest, report, claim, older, rfl, reported, _⟩ := spans
    obtain ⟨middle, before, _⟩ := run.split
    have newest := q.newest_claimer vacant before reported
    rw [List.filterMap_append, List.head?_append] at newest
    cases first : (newer.filterMap fun entry => q.claimer entry id).head? with
    | none =>
      rw [List.head?_eq_none_iff, List.filterMap_eq_nil_iff] at first
      exact first
    | some winner =>
      rw [first] at newest
      cases newest
      obtain ⟨later, member, claimed⟩ := List.mem_filterMap.mp (List.mem_of_mem_head? first)
      exact absurd claimed (others later member)

/-- Attempts stay within the limit as long as no expiry returns a row on its last attempt. -/
theorem budget {history : List (Entry Call Answer ε)} (run : m.Run start history s)
    (positive : ∀ s next call a, m.exec call s = .ok (a, next) →
      ∀ id columns, q.row s id = none → q.row next id = some columns → 1 ≤ columns.maxAttempts)
    (within : ∀ newer older middle next call a, history = newer ++ ⟨call, .ok a⟩ :: older →
      m.Run start older middle → m.exec call middle = .ok (a, next) → ∀ id now columns,
      q.act ⟨call, .ok a⟩ id = some (.expire now) → q.row middle id = some columns →
      columns.attempt < columns.maxAttempts)
    (id : Uuid) (columns : LeaseColumns) (known : q.row s id = some columns) :
    columns.attempt ≤ columns.maxAttempts := by
  suffices strong : ∀ columns, q.row s id = some columns → 1 ≤ columns.maxAttempts ∧
      ∃ cell, columns.Represents cell ∧ cell.Budget by
    obtain ⟨_, cell, rep, bound, _⟩ := strong columns known
    rw [← rep.1, ← rep.2.1]
    exact bound
  clear known columns
  induction run with
  | nil =>
    intro columns known
    rw [vacant id] at known
    cases known
  | @raise history s call e before raised ih =>
    refine ih (fun newer older middle next call a cut => ?_)
    exact within (_ :: newer) older middle next call a (by rw [cut, List.cons_append])
  | @answer history s next call a before answered ih =>
    have earlier := ih (fun newer older middle next call a cut =>
      within (_ :: newer) older middle next call a (by rw [cut, List.cons_append]))
    have effect := q.effect answered id
    have guarded := within [] history s next call a rfl before answered id
    have limit := positive s next call a answered id
    generalize q.row next id = after, q.act ⟨call, .ok a⟩ id = act at effect limit guarded ⊢
    generalize q.row s id = known at effect earlier guarded limit
    intro columns isAfter
    subst isAfter
    cases effect with
    | created maxAttempts =>
      have bound := limit _ rfl rfl
      refine ⟨bound, ⟨.free, 0, maxAttempts⟩, ⟨rfl, rfl, rfl, rfl, rfl⟩, ?_⟩
      simp only [LeaseColumns.fresh] at bound
      exact ⟨by dsimp only; omega, fun _ => by dsimp only; omega⟩
    | kept columns => exact earlier columns rfl
    | @moved old _ act advances =>
      obtain ⟨positive, cell, rep, budget⟩ := earlier old rfl
      obtain ⟨cell', step, rep'⟩ := advances cell rep
      have limits : columns.maxAttempts = old.maxAttempts := by
        rw [← rep'.2.1, ← rep.2.1]
        cases step <;> rfl
      refine ⟨limits ▸ positive, cell', rep', step.budget budget ?_ ?_⟩
      · rw [rep.2.1]
        omega
      · rintro now rfl
        rw [rep.1, rep.2.1]
        exact guarded now old rfl rfl

end Runs
end Collector.Persistence.LeaseQueue
